import GcrModel.Egg.Symkey.Theorems.Pbkdf2
import Mathlib

namespace Symkey

open GLib Loop

variable {md : Digest} {type : UInt8} {password : Option Utf8} {salt : Option Bytes} {I A block : Bytes} {c n r L iterations : Nat}
variable {chars : List Char}

-- RFC 7292, B.2, with blocks of 64 bytes. What is repeated to so many bytes.
def repeated (n : Nat) (s : Bytes) : Bytes :=
  (List.range n).map fun i => s.getD (i % s.length) 0

-- A BMPString with its terminator, if the characters are in the BMP.
def bmpString (chars : List Char) : Option Bytes :=
  if ∀ c ∈ chars, c.toNat < 2 ^ 16 then
    some ((chars.flatMap fun c => [UInt8.ofNat (c.toNat / 256), UInt8.ofNat (c.toNat % 256)]) ++ [0, 0])
  else none

-- No password is the empty one.
def rfcPassword : Option Utf8 → Option Bytes
  | none          => some []
  | some password => bmpString password.chars

def blocksOf (I : Bytes) : List Bytes :=
  (List.range (I.length / 64)).map fun j => (I.drop (64 * j)).take 64

-- I = S || P
def rfcInput (salt password : Bytes) : Bytes :=
  repeated (64 * ((salt.length + 63) / 64)) salt ++ repeated (64 * ((password.length + 63) / 64)) password

-- A = H(H(... H(D || I))), and each block of I is set to (I_j + B + 1) mod 2^v.
def rfcA (md : Digest) (type : UInt8) (r : Nat) (I : Bytes) : Bytes :=
  md.hash^[r] (List.replicate 64 type ++ I)

def rfcNext (A I : Bytes) : Bytes :=
  (blocksOf I).flatMap fun block =>
    (Radix.fixed 256 64 ((mpiScan block + mpiScan (repeated 64 A) + 1) % 2 ^ 512)).map UInt8.ofNat

def rfcI (md : Digest) (type : UInt8) (r : Nat) (I : Bytes) : Nat → Bytes
  | 0     => I
  | i + 1 => rfcNext (rfcA md type r (rfcI md type r I i)) (rfcI md type r I i)

def rfcOutput (md : Digest) (type : UInt8) (r : Nat) (I : Bytes) (n : Nat) : Bytes :=
  Blocks.first (fun i => rfcA md type r (rfcI md type r I i)) md.size n

def rfcPkcs12 (md : Digest) (type : UInt8) (salt password : Bytes) (r n : Nat) : Bytes :=
  rfcOutput md type r (rfcInput salt password) n

theorem length_rfcA (hpos : 1 ≤ r) (I : Bytes) : (rfcA md type r I).length = md.size :=
  length_iterate md hpos _

section Round

theorem lt_of_mod_512 (n : Nat) : n % 2 ^ 512 < 256 ^ 64 :=
  Nat.lt_of_lt_of_eq (Nat.mod_lt _ (Nat.two_pow_pos 512)) (Nat.pow_mul 2 8 64)

theorem addBlock_eq (numB1 : Nat) (block : Bytes) :
    addBlock numB1 block = some ((Radix.fixed 256 64 ((mpiScan block + numB1) % 2 ^ 512)).map UInt8.ofNat) := by
  have hfixed := @Radix.fixed_eq_digits 256 _ 64 (by decide) (lt_of_mod_512 (mpiScan block + numB1))
  have hlen := congrArg List.length hfixed
  unfold addBlock
  generalize (mpiScan block + numB1) % 2 ^ 512 = num at *
  rw [Radix.length_fixed, List.length_append, List.length_replicate] at hlen
  dsimp only
  rw [mpiPrint, List.length_map, if_neg (by omega), hfixed, List.map_append, List.map_replicate]
  rfl

-- The blocks of the code's buffer, of which just the first one is used if there is no password.
theorem blocksOf_one (h : I.length = 128) : blocksOf (I.take 64) = [I.take 64] := by
  have hlen : (I.take 64).length = 64 := by rw [List.length_take, h]; rfl
  rw [blocksOf, hlen]
  simp [List.range_succ]

theorem blocksOf_two (h : I.length = 128) : blocksOf I = [I.take 64, (I.drop 64).take 64] := by
  rw [blocksOf, h]
  simp [List.range_succ]

-- The bytes of the buffer that are hashed.
def hashed (password : Option Utf8) (bufI : Bytes) : Bytes :=
  bufI.take (if password.isSome then 128 else 64)

-- One round, with what is hashed in it.
theorem pkcs12Round_eq (hpos : 1 ≤ iterations) (hI : I.length = 128) (output : Bytes) (n : Nat) :
    let A := rfcA md type iterations (hashed password I)
    (n ≤ md.size ∧ pkcs12Round md type password iterations ⟨I, output, n⟩ = .inl (some (output ++ A.take n))) ∨
      md.size < n ∧ ∃ I', I'.length = 128 ∧ hashed password I' = rfcNext A (hashed password I) ∧
        pkcs12Round md type password iterations ⟨I, output, n⟩ = .inr ⟨I', output ++ A.take n, n - md.size⟩ := by
  have hA : md.hash^[iterations - 1] (md.hash (List.replicate 64 type ++ hashed password I)) =
      rfcA md type iterations (hashed password I) := by
    rw [← Function.iterate_succ_apply, Nat.succ_eq_add_one, Nat.sub_add_cancel hpos, rfcA]
  have hlen := @length_rfcA md type iterations hpos (hashed password I)
  dsimp only
  unfold pkcs12Round
  rw [show I.take (if password.isSome = true then 128 else 64) = hashed password I from rfl]
  dsimp only
  rw [hA, hlen, addBlock_eq, addBlock_eq]
  generalize hAdef : rfcA md type iterations (hashed password I) = A at *
  have hB : ((List.range 64).map fun i => A.getD (i % md.size) 0) = repeated 64 A := by rw [repeated, hlen]
  rw [hB]
  by_cases hend : n ≤ md.size
  case pos => exact .inl ⟨hend, if_pos (Nat.sub_eq_zero_of_le hend)⟩
  case neg =>
    rw [if_neg (by omega)]
    refine .inr ⟨Nat.not_le.mp hend, _, ?_, ?_, rfl⟩
    · simp [Radix.length_fixed]
    · cases password with
      | none =>
        simp only [hashed, Option.isSome_none, Bool.false_eq_true, ↓reduceIte]
        rw [rfcNext, blocksOf_one hI]
        simp [Radix.length_fixed, Nat.add_assoc]
      | some password =>
        simp only [hashed, Option.isSome_some, ↓reduceIte]
        rw [rfcNext, List.take_of_length_le (Nat.le_of_eq hI), blocksOf_two hI]
        simp [Radix.length_fixed, Nat.add_assoc]

-- The output is that of the standard for the bytes that are hashed.
theorem rounds_end (hpos : 1 ≤ iterations) (J : Bytes) (hI : I.length = 128)
    (hJ : hashed password I = rfcI md type iterations J c) (hmore : c * md.size ≤ n) :
    ∃ fuel, run (pkcs12Round md type password iterations) fuel
      ⟨I, (Blocks.join (fun i => rfcA md type iterations (rfcI md type iterations J i)) c).take n, n - c * md.size⟩ =
        some (some (rfcOutput md type iterations J n)) := by
  have hlen : ∀ i, (rfcA md type iterations (rfcI md type iterations J i)).length = md.size := fun i => length_rfcA hpos _
  generalize hmissing : n - c * md.size = missing
  induction missing using Nat.strong_induction_on generalizing c I with
  | h missing ih =>
    have hsize : (c + 1) * md.size = c * md.size + md.size := Nat.succ_mul c md.size
    have hround := @pkcs12Round_eq md type password I iterations hpos hI
      ((Blocks.join (fun i => rfcA md type iterations (rfcI md type iterations J i)) c).take n) missing
    dsimp only at hround
    rw [hJ, ← hmissing, ← Blocks.take_join_succ hlen] at hround
    rw [← hmissing]
    obtain ⟨hend, hround⟩ | ⟨hlt, I', hI', hJ', hround⟩ := hround
    · have hfirst := @Blocks.first_eq _ _ _ (c + 1) n hlen md.pos (by omega)
      exact ⟨1, by rw [run_of_stop hround, rfcOutput, hfirst]⟩
    · have hmd := md.pos
      have hJ' : hashed password I' = rfcI md type iterations J (c + 1) := hJ'
      obtain ⟨fuel, hrun⟩ := ih (n - (c + 1) * md.size) (by omega) hI' hJ' (by omega) rfl
      rw [hsize, Nat.sub_add_eq] at hrun
      exact ⟨fuel + 1, (run_of_next hround).trans hrun⟩

theorem generatePkcs12_eq (hpos : 1 ≤ iterations) (hblock : saltBlock salt = some block) (n : Nat)
    (hlen : (block ++ passwordBlock password).length = 128) :
    ∃ fuel, generatePkcs12 fuel md type password salt iterations n =
      some (some (rfcOutput md type iterations (hashed password (block ++ passwordBlock password)) n)) := by
  have hend := @rounds_end md type password (block ++ passwordBlock password) 0 n iterations hpos
    (hashed password (block ++ passwordBlock password)) hlen rfl (by rw [Nat.zero_mul]; exact Nat.zero_le n)
  rw [Nat.zero_mul, Nat.sub_zero, Blocks.join_zero, List.take_nil] at hend
  obtain ⟨fuel, hrun⟩ := hend
  exact ⟨fuel, by rw [generatePkcs12, hblock, Option.bind_some, hrun]⟩

end Round

section Buffer

theorem length_repeated (n : Nat) (s : Bytes) : (repeated n s).length = n := by
  simp [repeated]

theorem saltBlock_of_ne {salt : Bytes} (h : salt.length ≠ 0) : saltBlock (some salt) = some (repeated 64 salt) :=
  if_neg h

theorem length_saltBlock (h : saltBlock salt = some block) : block.length = 64 := by
  cases salt with
  | none      => cases h; rfl
  | some salt =>
    rw [saltBlock] at h
    split at h
    case isTrue  => cases h
    case isFalse => cases h; exact length_repeated 64 salt

theorem length_bmpCharacters (password : List Char) (n : Nat) (p2 : List Char) : (bmpCharacters password n p2).length = 2 * n := by
  induction n generalizing p2 with
  | zero => rfl
  | succ n ih =>
    cases p2 with
    | nil           => rw [bmpCharacters, List.length_append, ih, bmpBytes]; simp; omega
    | cons unich p2 => rw [bmpCharacters, List.length_append, ih, bmpBytes]; simp; omega

theorem length_passwordBlock (password : Option Utf8) : (passwordBlock password).length = 64 := by
  cases password with
  | none          => rfl
  | some password => exact length_bmpCharacters _ 32 _

-- The characters that are put into the block, from the one at `j` on.
def characterAt (chars : List Char) (k : Nat) : Nat :=
  (chars.map Char.toNat ++ [0]).getD (k % (chars.length + 1)) 0

theorem bmpCharacters_eq (chars : List Char) (n j : Nat) (hj : j ≤ chars.length) :
    bmpCharacters chars n (chars.drop j) = Blocks.join (fun k => bmpBytes (characterAt chars (j + k))) n := by
  induction n generalizing j with
  | zero => rfl
  | succ n ih =>
    have hjoin : ∀ f : Nat → Bytes, Blocks.join f (n + 1) = f 0 ++ Blocks.join (fun k => f (k + 1)) n := by
      intro f
      rw [Blocks.join, List.range_succ_eq_map, List.flatMap_cons, List.flatMap_map]
      rfl
    rw [hjoin]
    rcases Nat.lt_or_eq_of_le hj with hlt | rfl
    · rw [List.drop_eq_getElem_cons hlt, bmpCharacters, ih (j + 1) hlt]
      have hchar : characterAt chars (j + 0) = chars[j].toNat := by
        rw [characterAt, Nat.add_zero, Nat.mod_eq_of_lt (by omega), List.getD_append _ _ _ _ (by simpa using hlt)]
        simp [hlt]
      rw [hchar]
      simp only [Nat.add_assoc, Nat.add_comm 1]
    · have hwrap : ∀ k, characterAt chars (chars.length + (k + 1)) = characterAt chars (0 + k) := by
        intro k
        rw [characterAt, characterAt, show chars.length + (k + 1) = k + (chars.length + 1) by omega, Nat.add_mod_right,
          Nat.zero_add]
      have hchar : characterAt chars (chars.length + 0) = 0 := by
        rw [characterAt, Nat.add_zero, Nat.mod_eq_of_lt (Nat.lt_succ_self _)]
        simp
      have hagain := ih 0 (Nat.zero_le _)
      rw [List.drop_zero] at hagain
      rw [List.drop_length, bmpCharacters, hagain, hchar]
      simp only [hwrap]

-- What is repeated are the blocks.
theorem repeated_join {f : Nat → Bytes} {u m : Nat} (h : ∀ i, (f i).length = u) (hm : 0 < m) (n : Nat) :
    repeated (n * u) (Blocks.join f m) = Blocks.join (fun k => f (k % m)) n := by
  have hlen := Blocks.length_join (fun i => h (i % m)) n
  refine List.ext_getElem (by rw [length_repeated, hlen]) fun i hi hi' => ?_
  have hlt : i < n * u := by rwa [length_repeated] at hi
  have hu : 0 < u := Nat.pos_of_ne_zero fun h => by rw [h, Nat.mul_zero] at hlt; exact Nat.not_lt_zero _ hlt
  have hget := Blocks.getD_join (fun i => h (i % m)) hlt (0 : UInt8)
  have hwrap : i % (m * u) < m * u := Nat.mod_lt _ (Nat.mul_pos hm hu)
  rw [List.getD_eq_getElem _ _ hi'] at hget
  rw [hget]
  simp only [repeated, List.getElem_map, List.getElem_range]
  rw [Blocks.length_join h, Blocks.getD_join h hwrap, Nat.mul_comm m u, Nat.mod_mul_right_div_self, Nat.mod_mul_right_mod]

theorem bmpBytes_eq {c : Nat} (h : c < 2 ^ 16) : bmpBytes c = [UInt8.ofNat (c / 256), UInt8.ofNat (c % 256)] := by
  have hhigh := and_shiftRight c 8
  have hlow := and_shiftRight c 0
  rw [show c / 2 ^ 8 % 256 = c / 256 by omega] at hhigh
  rw [Nat.pow_zero, Nat.div_one] at hlow
  exact congrArg₂ (fun a b => [a, b]) hhigh hlow

theorem bmpCharacters_all (password p2 : List Char) :
    bmpCharacters password (p2.length + 1) p2 = p2.flatMap (fun c => bmpBytes c.toNat) ++ bmpBytes 0 := by
  induction p2 with
  | nil           => simp [bmpCharacters]
  | cons c p2 ih => rw [List.length_cons, bmpCharacters, ih, List.flatMap_cons, List.append_assoc]

-- The block is the BMP string over and over again.
theorem bmpCharacters_repeated (chars : List Char) {bmp : Bytes} (h : bmpString chars = some bmp) (n : Nat) :
    bmpCharacters chars n chars = repeated (n * 2) bmp := by
  have hjoin : bmp = Blocks.join (fun k => bmpBytes (characterAt chars k)) (chars.length + 1) := by
    have hall := bmpCharacters_all chars chars
    have heq := bmpCharacters_eq chars (chars.length + 1) 0 (Nat.zero_le _)
    simp only [List.drop_zero, Nat.zero_add] at heq
    rw [bmpString] at h
    split at h
    case isFalse => cases h
    case isTrue hbmp =>
      have hpairs : (chars.flatMap fun c => [UInt8.ofNat (c.toNat / 256), UInt8.ofNat (c.toNat % 256)]) =
          chars.flatMap fun c => bmpBytes c.toNat :=
        List.flatMap_congr fun c hc => (bmpBytes_eq (hbmp c hc)).symm
      rw [← heq, hall, ← Option.some.inj h, hpairs]
      rfl
  have heq := bmpCharacters_eq chars n 0 (Nat.zero_le _)
  rw [hjoin, @repeated_join (fun k => bmpBytes (characterAt chars k)) 2 (chars.length + 1) (fun _ => rfl) (Nat.succ_pos _) n]
  simp only [List.drop_zero, Nat.zero_add] at heq
  rw [heq]
  refine Blocks.join_congr fun k _ => ?_
  rw [characterAt, characterAt, Nat.mod_mod]

theorem length_bmpString {bmp : Bytes} (h : bmpString chars = some bmp) : bmp.length = 2 * chars.length + 2 := by
  rw [bmpString] at h
  split at h
  case isFalse => cases h
  case isTrue =>
    rw [← Option.some.inj h]
    simp [Nat.mul_comm]

theorem length_hashed (hblock : saltBlock salt = some block) :
    (hashed password (block ++ passwordBlock password)).length = if password.isSome then 128 else 64 := by
  rw [hashed, List.length_take, List.length_append, length_saltBlock hblock, length_passwordBlock]
  split
  all_goals rfl

theorem length_rfcInput (s p : Bytes) :
    (rfcInput s p).length = 64 * ((s.length + 63) / 64) + 64 * ((p.length + 63) / 64) := by
  rw [rfcInput, List.length_append, length_repeated, length_repeated]

end Buffer

section Standard

-- Where one block is enough for the salt, and one for the password.
structure OneBlock (password : Option Utf8) (salt : Option Bytes) : Prop where
  salt     : 1 ≤ (salt.getD []).length ∧ (salt.getD []).length ≤ 64
  password : ∀ text ∈ password, text.chars.length ≤ 31

theorem OneBlock.hashed_eq (h : OneBlock password salt) {bmp : Bytes} (hbmp : rfcPassword password = some bmp) :
    ∃ block, saltBlock salt = some block ∧ hashed password (block ++ passwordBlock password) = rfcInput (salt.getD []) bmp := by
  obtain ⟨⟨hpos, hle⟩, hpassword⟩ := h
  cases salt with
  | none => exact absurd hpos (Nat.not_succ_le_zero 0)
  | some salt =>
    rw [Option.getD_some] at hpos hle ⊢
    have hblock : saltBlock (some salt) = some (repeated 64 salt) := saltBlock_of_ne (by omega)
    have hsalt : 64 * ((salt.length + 63) / 64) = 64 := by omega
    have hlen := length_repeated 64 salt
    refine ⟨_, hblock, ?_⟩
    cases password with
    | none =>
      cases hbmp
      rw [rfcInput, hsalt]
      simp [hashed, repeated]
    | some text =>
      have hchars := hpassword text rfl
      have hbmpLen := length_bmpString hbmp
      have hone : 64 * ((bmp.length + 63) / 64) = 32 * 2 := by omega
      have hpass : passwordBlock (some text) = repeated (32 * 2) bmp := bmpCharacters_repeated text.chars hbmp 32
      rw [rfcInput, hsalt, hone, hpass, hashed]
      refine List.take_of_length_le ?_
      rw [List.length_append, hlen, length_repeated]
      rfl

-- A hash function that tells one input from all others.
def telling (J : Bytes) : Digest where
  hash data   := if data = J ∨ data = [1] then [1] else [0]
  size        := 1
  pos         := Nat.one_pos
  length data := by
    split
    all_goals rfl

theorem telling_iterate {J : Bytes} (hJ : 1 < J.length) (hr : 1 ≤ r) (data : Bytes) (hdata : data ≠ [1]) :
    (telling J).hash^[r] data = if data = J then [1] else [0] := by
  obtain ⟨r, rfl⟩ := Nat.exists_eq_add_of_le' hr
  have hone : (telling J).hash [1] = [1] := if_pos (.inr rfl)
  have hzero : (telling J).hash [0] = [0] := by
    refine if_neg (not_or.mpr ⟨?_, by decide⟩)
    rintro rfl
    exact absurd hJ (Nat.lt_irrefl 1)
  rw [Function.iterate_succ_apply]
  by_cases heq : data = J
  case pos => rw [show (telling J).hash data = [1] from if_pos (.inl heq), if_pos heq, Function.iterate_fixed hone]
  case neg =>
    rw [show (telling J).hash data = [0] from if_neg (not_or.mpr ⟨heq, hdata⟩), if_neg heq, Function.iterate_fixed hzero]

-- Only the same input gives the same output for every hash function.
theorem eq_of_rfcOutput {I J : Bytes} (hr : 1 ≤ r) (hn : 1 ≤ n)
    (h : ∀ md, rfcOutput md type r I n = rfcOutput md type r J n) : I = J := by
  have hlong : ∀ K : Bytes, 1 < (List.replicate 64 type ++ K).length := by
    intro K
    rw [List.length_append, List.length_replicate]
    omega
  have hne : ∀ K : Bytes, List.replicate 64 type ++ K ≠ [1] := fun K heq => absurd (hlong K) (by rw [heq]; decide)
  have hfirst := congrArg (List.take 1) (h (telling (List.replicate 64 type ++ I)))
  rw [rfcOutput, rfcOutput] at hfirst
  have hlen : ∀ (K : Bytes) (i : Nat), (rfcA (telling (List.replicate 64 type ++ I)) type r
      (rfcI (telling (List.replicate 64 type ++ I)) type r K i)).length = 1 := fun K i => length_rfcA hr _
  have htake := fun K => Blocks.take_first (hlen K) Nat.one_pos hn
  have hI := htake I
  have hJ := htake J
  rw [rfcI, rfcA, telling_iterate (hlong I) hr _ (hne I), if_pos rfl] at hI
  rw [rfcI, rfcA, telling_iterate (hlong I) hr _ (hne J)] at hJ
  have heq := hI.symm.trans (hfirst.trans hJ)
  split at heq
  case isTrue hsame => exact (List.append_cancel_left hsame).symm
  case isFalse      => cases heq

-- What is promised of a call: there is a result, which is that of the standard.
def Standard (type : UInt8) (password : Option Utf8) (salt : Option Bytes) (iterations n : Nat) : Prop :=
  ∀ md, ∃ bmp, rfcPassword password = some bmp ∧ ∃ fuel,
    generatePkcs12 fuel md type password salt iterations n = some (some (rfcPkcs12 md type (salt.getD []) bmp iterations n))

-- The salt is not the empty one, the password is in the BMP, and both are short.
structure WithinBlocks (password : Option Utf8) (salt : Option Bytes) (n : Nat) : Prop where
  divides : salt ≠ some []
  bmp     : ∀ text ∈ password, ∀ c ∈ text.chars, c.toNat < 2 ^ 16
  blocks  : n = 0 ∨ OneBlock password salt

theorem rfcPassword_isSome : (∃ bmp, rfcPassword password = some bmp) ↔ ∀ text ∈ password, ∀ c ∈ text.chars, c.toNat < 2 ^ 16 := by
  cases password with
  | none => exact ⟨fun _ _ h => (by cases h), fun _ => ⟨[], rfl⟩⟩
  | some text =>
    constructor
    · rintro ⟨bmp, h⟩ other hother
      obtain rfl := Option.mem_some_iff.mp hother
      by_contra hnot
      rw [rfcPassword, bmpString, if_neg hnot] at h
      cases h
    · intro h
      exact ⟨_, by rw [rfcPassword, bmpString, if_pos (h text (Option.mem_some_self text))]⟩

theorem saltBlock_isSome : (∃ block, saltBlock salt = some block) ↔ salt ≠ some [] := by
  cases salt with
  | none      => exact ⟨fun _ h => (by cases h), fun _ => ⟨_, rfl⟩⟩
  | some salt =>
    cases salt with
    | nil       => exact ⟨fun ⟨_, h⟩ => (by cases h), fun h => absurd rfl h⟩
    | cons b bs =>
      have hblock : saltBlock (some (b :: bs)) = some (repeated 64 (b :: bs)) := saltBlock_of_ne (Nat.succ_ne_zero _)
      exact ⟨fun _ h => (by cases h), fun _ => ⟨_, hblock⟩⟩

theorem rfcOutput_zero (J : Bytes) : rfcOutput md type r J 0 = [] := by
  rw [rfcOutput, Blocks.first, List.take_zero]

theorem WithinBlocks.standard (h : WithinBlocks password salt n) (hpos : 1 ≤ iterations) :
    Standard type password salt iterations n := by
  intro md
  obtain ⟨bmp, hbmp⟩ := (rfcPassword_isSome).mpr h.bmp
  refine ⟨bmp, hbmp, ?_⟩
  rcases h.blocks with rfl | hone
  · obtain ⟨block, hblock⟩ := (saltBlock_isSome).mpr h.divides
    have hlen : (block ++ passwordBlock password).length = 128 := by
      rw [List.length_append, length_saltBlock hblock, length_passwordBlock]
    obtain ⟨fuel, hrun⟩ := @generatePkcs12_eq md type password salt block iterations hpos hblock 0 hlen
    exact ⟨fuel, by rw [hrun, rfcPkcs12, rfcOutput_zero, rfcOutput_zero]⟩
  · obtain ⟨block, hblock, heq⟩ := hone.hashed_eq hbmp
    have hlen : (block ++ passwordBlock password).length = 128 := by
      rw [List.length_append, length_saltBlock hblock, length_passwordBlock]
    obtain ⟨fuel, hrun⟩ := @generatePkcs12_eq md type password salt block iterations hpos hblock n hlen
    exact ⟨fuel, by rw [hrun, rfcPkcs12, heq]⟩

-- The first character is not NUL, with which the block of a missing salt begins.
theorem bmpString_head (text : Utf8) {bmp : Bytes} (h : bmpString text.chars = some bmp) (hne : text.chars ≠ []) :
    ¬ (bmp.getD 0 0 = 0 ∧ bmp.getD 1 0 = 0) := by
  obtain ⟨chars, hnul⟩ := text
  cases chars with
  | nil => exact absurd rfl hne
  | cons c cs =>
    rintro ⟨hhigh, hlow⟩
    rw [bmpString] at h
    split at h
    case isFalse => cases h
    case isTrue hbmp =>
      have hc := hbmp c List.mem_cons_self
      rw [← Option.some.inj h] at hhigh hlow
      have hdiv : c.toNat / 256 % 256 = 0 := by simpa using congrArg UInt8.toNat hhigh
      have hmod : c.toNat % 256 = 0 := by simpa using congrArg UInt8.toNat hlow
      have hzero : c.toNat = 0 := by omega
      refine hnul (List.mem_cons.mpr (.inl ?_))
      rw [← hzero, Char.ofNat_toNat]

theorem getD_rfcInput_nil {bmp : Bytes} {i : Nat} (hi : i < bmp.length) : (rfcInput [] bmp).getD i 0 = bmp.getD i 0 := by
  have hlt : i < 64 * ((bmp.length + 63) / 64) := by omega
  have hempty : 64 * ((([] : Bytes).length + 63) / 64) = 0 := rfl
  rw [rfcInput, hempty, repeated, List.range_zero, List.map_nil, List.nil_append, repeated]
  simp [List.getD_eq_getElem?_getD, hlt, Nat.mod_eq_of_lt hi]

theorem OneBlock.of_hashed_eq (hblock : saltBlock salt = some block) {bmp : Bytes} (hbmp : rfcPassword password = some bmp)
    (heq : hashed password (block ++ passwordBlock password) = rfcInput (salt.getD []) bmp) : OneBlock password salt := by
  have hsalt := (saltBlock_isSome).mp ⟨block, hblock⟩
  have hlen := congrArg List.length heq
  rw [length_hashed hblock, length_rfcInput] at hlen
  cases salt with
  | none =>
    rw [Option.getD_none, List.length_nil] at hlen
    cases password with
    | none =>
      cases hbmp
      cases hlen
    | some text =>
      have hchars := length_bmpString hbmp
      simp only [Option.isSome_some, ↓reduceIte] at hlen
      have hne : text.chars ≠ [] := fun h => by rw [h, List.length_nil] at hchars; omega
      refine absurd ?_ (bmpString_head text hbmp hne)
      cases hblock
      constructor
      · exact (getD_rfcInput_nil (by omega)).symm.trans (congrArg (·.getD 0 0) heq.symm)
      · exact (getD_rfcInput_nil (by omega)).symm.trans (congrArg (·.getD 1 0) heq.symm)
  | some salt =>
    have hpos : 1 ≤ salt.length := List.length_pos_iff.mpr fun h => hsalt (congrArg some h)
    rw [Option.getD_some] at hlen
    cases password with
    | none =>
      cases hbmp
      simp only [Option.isSome_none, Bool.false_eq_true, ↓reduceIte, List.length_nil] at hlen
      exact ⟨⟨hpos, by rw [Option.getD_some]; omega⟩, fun _ h => (by cases h)⟩
    | some text =>
      have hchars := length_bmpString hbmp
      simp only [Option.isSome_some, ↓reduceIte] at hlen
      refine ⟨⟨hpos, by rw [Option.getD_some]; omega⟩, ?_⟩
      rintro _ ⟨⟩
      omega

theorem generatePkcs12_unique {fuel fuel' : Nat} {out out' : Option Bytes}
    (h : generatePkcs12 fuel md type password salt iterations n = some out)
    (h' : generatePkcs12 fuel' md type password salt iterations n = some out') : out = out' := by
  rw [generatePkcs12] at h h'
  cases hblock : saltBlock salt with
  | none       => rw [hblock] at h; cases h
  | some block => rw [hblock] at h h'; exact run_unique h h'

theorem WithinBlocks.of_standard (h : Standard type password salt iterations n) (hpos : 1 ≤ iterations) : WithinBlocks password salt n := by
  obtain ⟨bmp, hbmp, _⟩ := h sumDigest
  have hsalt : ∃ block, saltBlock salt = some block := by
    obtain ⟨_, _, fuel, hrun⟩ := h sumDigest
    rw [generatePkcs12] at hrun
    cases hblock : saltBlock salt with
    | none       => rw [hblock] at hrun; cases hrun
    | some block => exact ⟨block, rfl⟩
  refine ⟨(saltBlock_isSome).mp hsalt, (rfcPassword_isSome).mp ⟨bmp, hbmp⟩, or_iff_not_imp_left.mpr fun hn => ?_⟩
  obtain ⟨block, hblock⟩ := hsalt
  have hlen : (block ++ passwordBlock password).length = 128 := by
    rw [List.length_append, length_saltBlock hblock, length_passwordBlock]
  refine .of_hashed_eq hblock hbmp (@eq_of_rfcOutput type _ _ _ _ hpos (Nat.one_le_iff_ne_zero.mpr hn) fun md => ?_)
  obtain ⟨bmp', hbmp', fuel, hrun⟩ := h md
  obtain ⟨fuel', hrun'⟩ := @generatePkcs12_eq md type password salt block iterations hpos hblock n hlen
  cases hbmp.symm.trans hbmp'
  exact Option.some.inj (generatePkcs12_unique hrun' hrun)

-- The output is that of the standard just if one block is enough for the salt and for the password.
theorem pkcs12_standard_iff (type : UInt8) (password : Option Utf8) (salt : Option Bytes) (iterations n : Nat) (hpos : 1 ≤ iterations) :
    Standard type password salt iterations n ↔ WithinBlocks password salt n :=
  ⟨fun h => .of_standard h hpos, fun h => h.standard hpos⟩

theorem pkcs12_standard_iff_salt :
    1 ≤ 2 ∧ (Standard 1 (some ⟨['a'], by decide⟩) (some [7]) 2 20 ↔ WithinBlocks (some ⟨['a'], by decide⟩) (some [7]) 20) :=
  ⟨by decide, pkcs12_standard_iff 1 (some ⟨['a'], by decide⟩) (some [7]) 2 20 (by decide)⟩

-- A salt that is there and empty is divided by.
theorem not_pkcs12_standard : ¬∀ (type : UInt8) (password : Option Utf8) (salt : Option Bytes) (iterations n : Nat),
    1 ≤ iterations → Standard type password salt iterations n := by
  intro h
  obtain ⟨_, _, fuel, hrun⟩ := h 1 (some ⟨['a'], by decide⟩) (some []) 1 20 (Nat.le_refl 1) sumDigest
  cases hrun

end Standard

end Symkey
