import GcrModel.Egg.Symkey.Symkey
import GcrModel.Library.Blocks
import Mathlib.Data.UInt

namespace Symkey

open GLib Loop

variable {md : Digest} {password salt : Option Bytes} {iterations keylen blklen c : Nat}

-- The digests, each of which is the iterated hash of the one before, the password and the salt.
def iterated (md : Digest) (password salt : Option Bytes) (iterations : Nat) : Nat → Bytes
  | 0     => md.hash^[iterations] (password.getD [] ++ salt.getD [])
  | i + 1 => md.hash^[iterations] (iterated md password salt iterations i ++ password.getD [] ++ salt.getD [])

def material (md : Digest) (password salt : Option Bytes) (iterations n : Nat) : Bytes :=
  Blocks.first (iterated md password salt iterations) md.size n

theorem length_iterate (md : Digest) (hpos : 1 ≤ iterations) (data : Bytes) : (md.hash^[iterations] data).length = md.size := by
  obtain ⟨n, rfl⟩ := Nat.exists_eq_add_of_le' hpos
  rw [Function.iterate_succ_apply', md.length]

theorem length_iterated (hpos : 1 ≤ iterations) (i : Nat) : (iterated md password salt iterations i).length = md.size := by
  cases i with
  | zero   => exact length_iterate md hpos _
  | succ i => exact length_iterate md hpos _

-- As much as is needed is copied, or all there is.
theorem copy_eq (dest : Option Bytes) (needed : Nat) (digest : Bytes) :
    copy dest needed digest = (dest.map (· ++ digest.take needed), needed - digest.length, digest.drop needed) := by
  induction digest generalizing dest needed with
  | nil =>
    cases needed with
    | zero        => cases dest <;> simp [copy]
    | succ needed => cases dest <;> simp [copy]
  | cons d digest ih =>
    cases needed with
    | zero        => cases dest <;> simp [copy]
    | succ needed =>
      rw [copy, ih]
      cases dest <;> simp

-- The variables in front of a pass.
def passed (md : Digest) (password salt : Option Bytes) (iterations keylen blklen : Nat) (key iv : Bool) (c : Nat) : Simple where
  digest    := if c = 0 then none else some (iterated md password salt iterations (c - 1))
  key       := if key then some ((Blocks.join (iterated md password salt iterations) c).take keylen) else none
  iv        := if iv then some (((Blocks.join (iterated md password salt iterations) c).drop keylen).take blklen) else none
  neededKey := keylen - c * md.size
  neededIv  := blklen - (c * md.size - keylen)

section Pass

variable {key iv : Bool}

theorem digest_passed (hpos : 1 ≤ iterations) :
    md.hash^[iterations - 1] (md.hash ((passed md password salt iterations keylen blklen key iv c).digest.getD [] ++
      password.getD [] ++ salt.getD [])) = iterated md password salt iterations c := by
  rw [← Function.iterate_succ_apply, Nat.succ_eq_add_one, Nat.sub_add_cancel hpos]
  cases c with
  | zero   => rfl
  | succ c => rfl

theorem passed_succ (hpos : 1 ≤ iterations) : passed md password salt iterations keylen blklen key iv (c + 1) =
    let s := passed md password salt iterations keylen blklen key iv c
    let digest := iterated md password salt iterations c
    { digest    := some digest
      key       := s.key.map (· ++ digest.take s.neededKey)
      iv        := s.iv.map (· ++ (digest.drop s.neededKey).take s.neededIv)
      neededKey := s.neededKey - md.size
      neededIv  := s.neededIv - (md.size - s.neededKey) } := by
  have hlen := @length_iterated md password salt iterations hpos
  have hkey : (passed md password salt iterations keylen blklen key iv (c + 1)).key =
      (passed md password salt iterations keylen blklen key iv c).key.map
        (· ++ (iterated md password salt iterations c).take (keylen - c * md.size)) := by
    cases key with
    | false => rfl
    | true  => exact congrArg some (Blocks.take_join_succ hlen c keylen)
  have hiv : (passed md password salt iterations keylen blklen key iv (c + 1)).iv =
      (passed md password salt iterations keylen blklen key iv c).iv.map
        (· ++ ((iterated md password salt iterations c).drop (keylen - c * md.size)).take (blklen - (c * md.size - keylen))) := by
    cases iv with
    | false => rfl
    | true  =>
      refine congrArg some ?_
      rw [Blocks.join_succ, List.drop_append, List.take_append, List.length_drop, Blocks.length_join hlen]
  have hneeded : keylen - (c + 1) * md.size = keylen - c * md.size - md.size ∧ blklen - ((c + 1) * md.size - keylen) =
      blklen - (c * md.size - keylen) - (md.size - (keylen - c * md.size)) := by
    rw [Nat.succ_mul]
    omega
  dsimp only
  rw [show (passed md password salt iterations keylen blklen key iv c).neededKey = keylen - c * md.size from rfl,
    show (passed md password salt iterations keylen blklen key iv c).neededIv = blklen - (c * md.size - keylen) from rfl,
    ← hkey, ← hiv, ← hneeded.1, ← hneeded.2]
  rfl

theorem passRound_passed (hpos : 1 ≤ iterations) :
    passRound md password salt iterations (passed md password salt iterations keylen blklen key iv c) =
      let t := passed md password salt iterations keylen blklen key iv (c + 1)
      if t.neededKey = 0 ∧ t.neededIv = 0 then .inl (t.key, t.iv) else .inr t := by
  unfold passRound
  dsimp only
  rw [digest_passed hpos, copy_eq, copy_eq, passed_succ hpos]
  dsimp only
  rw [List.length_drop, length_iterated hpos]

-- The passes end when there is enough, with what the first digests are.
theorem passes_end (hpos : 1 ≤ iterations) (c : Nat) :
    ∃ fuel, run (passRound md password salt iterations) fuel (passed md password salt iterations keylen blklen key iv c) =
      some (if key then some ((material md password salt iterations (keylen + blklen)).take keylen) else none,
        if iv then some ((material md password salt iterations (keylen + blklen)).drop keylen) else none) := by
  have hlen := @length_iterated md password salt iterations hpos
  generalize hmissing : keylen + blklen - c * md.size = missing
  induction missing using Nat.strong_induction_on generalizing c with
  | h missing ih =>
    have hsize : (c + 1) * md.size = c * md.size + md.size := Nat.succ_mul c md.size
    have hround := @passRound_passed md password salt iterations keylen blklen c key iv hpos
    dsimp only at hround
    split at hround
    case isTrue hdone =>
      have hneededKey : keylen - (c + 1) * md.size = 0 := hdone.1
      have hneededIv : blklen - ((c + 1) * md.size - keylen) = 0 := hdone.2
      have hfirst := @Blocks.first_eq _ _ _ (c + 1) (keylen + blklen) hlen md.pos (by omega)
      refine ⟨1, ?_⟩
      rw [run_of_stop hround, material, hfirst, List.take_take, Nat.min_eq_left (Nat.le_add_right _ _), List.drop_take,
        Nat.add_sub_cancel_left]
      rfl
    case isFalse hmore =>
      have hneeded : ¬(keylen - (c + 1) * md.size = 0 ∧ blklen - ((c + 1) * md.size - keylen) = 0) := hmore
      have hsizepos := md.pos
      obtain ⟨fuel, hrun⟩ := ih (keylen + blklen - (c + 1) * md.size) (by omega) (c + 1) rfl
      exact ⟨fuel + 1, (run_of_next hround).trans hrun⟩

end Pass

-- The key and the IV are parts of the same material, whichever of them is asked for.
theorem eggSymkeyGenerateSimple_eq (md : Digest) (keylen blklen : Nat) (password salt : Option Bytes) {n : Int} (hpos : 1 ≤ n)
    {key : Bool} (hkey : key → keylen ≠ 0) (iv : Bool) :
    ∃ fuel, eggSymkeyGenerateSimple fuel md keylen blklen password salt n key iv =
      some (some (if key then some ((material md password salt n.toNat (keylen + blklen)).take keylen) else none,
        if iv then some ((material md password salt n.toNat (keylen + blklen)).drop keylen) else none)) := by
  obtain ⟨fuel, hrun⟩ := @passes_end md password salt n.toNat keylen blklen key iv (by omega) 0
  have hstart : passed md password salt n.toNat keylen blklen key iv 0 =
      ⟨none, if key then some [] else none, if iv then some [] else none, keylen, blklen⟩ := by
    simp [passed]
  refine ⟨fuel, ?_⟩
  rw [eggSymkeyGenerateSimple, if_neg (by omega), if_neg (fun h => hkey h.1 h.2), ← hstart, hrun, Option.map_some]

end Symkey

namespace Symkey

open GLib

variable {md : Mac} {P S password salt output rest : Bytes} {c i l r n count iterations : Nat}

-- RFC 8018, 5.2: the U of a block, from the first one on.
def rfcU (md : Mac) (P S : Bytes) (i : Nat) : Nat → Bytes
  | 0     => md.mac P (S ++ (Radix.fixed 256 4 i).map UInt8.ofNat)
  | j + 1 => md.mac P (rfcU md P S i j)

-- The exclusive-or of the first one and so many more.
def rfcF (md : Mac) (P S : Bytes) (i : Nat) : Nat → Bytes
  | 0     => rfcU md P S i 0
  | j + 1 => xorBytes (rfcF md P S i j) (rfcU md P S i (j + 1))

def rfcT (md : Mac) (P S : Bytes) (c i : Nat) : Bytes :=
  rfcF md P S i (c - 1)

-- There is no key where one that long is too long.
def rfcPbkdf2 (md : Mac) (P S : Bytes) (c dkLen : Nat) : Option Bytes :=
  if (2 ^ 32 - 1) * md.size < dkLen then none else some (Blocks.first (fun i => rfcT md P S c (i + 1)) md.size dkLen)

theorem and_shiftRight (i k : Nat) : UInt8.ofNat ((i &&& 0xff <<< k) >>> k) = UInt8.ofNat (i / 2 ^ k % 256) := by
  rw [Nat.shiftRight_and_distrib, Nat.shiftLeft_shiftRight, Nat.shiftRight_eq_div_pow]
  exact congrArg UInt8.ofNat (Nat.and_two_pow_sub_one_eq_mod _ 8)

theorem blockIndex_eq (i : Nat) : blockIndex i = (Radix.fixed 256 4 i).map UInt8.ofNat := by
  have h24 := and_shiftRight i 24
  have h16 := and_shiftRight i 16
  have h8 := and_shiftRight i 8
  have h0 := and_shiftRight i 0
  rw [Radix.fixed_eq_map]
  exact congrArg₂ _ h24 (congrArg₂ _ h16 (congrArg₂ _ h8 (congrArg₂ _ h0 rfl)))

theorem length_rfcU (j : Nat) : (rfcU md P S i j).length = md.size := by
  cases j with
  | zero   => exact md.length _ _
  | succ j => exact md.length _ _

theorem length_rfcF (j : Nat) : (rfcF md P S i j).length = md.size := by
  induction j with
  | zero      => exact length_rfcU 0
  | succ j ih => rw [rfcF, xorBytes, List.length_zipWith, ih, length_rfcU, Nat.min_self]

theorem xorBytes_zeros (U : Bytes) : xorBytes (List.replicate U.length 0) U = U := by
  induction U with
  | nil       => rfl
  | cons u U ih =>
    rw [List.length_cons, List.replicate_succ, xorBytes, List.zipWith_cons_cons, ← xorBytes, ih, UInt8.zero_xor]

-- After one iteration or more.
theorem pbkdf2Rounds_succ (u : Nat) : pbkdf2Rounds md P S i (u + 1) = (rfcF md P S i u, rfcU md P S i u) := by
  induction u with
  | zero =>
    have hU : md.mac P (S ++ blockIndex i) = rfcU md P S i 0 := by rw [blockIndex_eq]; rfl
    have hlen : md.size = (rfcU md P S i 0).length := (length_rfcU 0).symm
    rw [pbkdf2Rounds, pbkdf2Rounds]
    dsimp only
    rw [if_pos (Nat.zero_add 1), hU, hlen, xorBytes_zeros]
    rfl
  | succ u ih =>
    rw [pbkdf2Rounds, ih]
    dsimp only
    rw [if_neg (by omega)]
    rfl

theorem pbkdf2Rounds_eq (hpos : 1 ≤ iterations) : (pbkdf2Rounds md P S i iterations).1 = rfcT md P S iterations i := by
  obtain ⟨u, rfl⟩ := Nat.exists_eq_add_of_le' hpos
  rw [pbkdf2Rounds_succ, rfcT, Nat.add_sub_cancel]

-- Behind the blocks there are so many bytes of the memory that are not written yet.
theorem pbkdf2Blocks_eq (hpos : 1 ≤ iterations) (hlast : l * md.size < n) (hfits : n ≤ (l + 1) * md.size) (hi : i + count = l)
    (hrest : rest.length + i * md.size = n) :
    pbkdf2Blocks md P S iterations (l + 1) (n - l * md.size) (count + 1) (i + 1)
      (Blocks.join (fun i => rfcT md P S iterations (i + 1)) i ++ rest) =
      some ((Blocks.join (fun i => rfcT md P S iterations (i + 1)) (l + 1)).take n) := by
  have hlen : ∀ i, (rfcT md P S iterations (i + 1)).length = md.size := fun i => length_rfcF _
  have hjoin := Blocks.length_join hlen i
  have hsize : (i + 1) * md.size = i * md.size + md.size := Nat.succ_mul i md.size
  induction count generalizing i rest with
  | zero =>
    obtain rfl : i = l := hi
    have htake : ((rfcT md P S iterations (i + 1)).take (n - i * md.size)).length = rest.length := by
      rw [List.length_take, hlen]
      omega
    have hall : (Blocks.join (fun i => rfcT md P S iterations (i + 1)) i).take n =
        Blocks.join (fun i => rfcT md P S iterations (i + 1)) i := List.take_of_length_le (by rw [hjoin]; omega)
    have hdrop : (Blocks.join (fun i => rfcT md P S iterations (i + 1)) i ++ rest).drop (i * md.size + rest.length) = [] := by
      rw [← List.drop_drop, List.drop_left' hjoin, List.drop_length]
    rw [pbkdf2Blocks, if_pos rfl, pbkdf2Rounds_eq hpos, Nat.add_sub_cancel, memcpy, htake, List.length_append, hjoin,
      if_pos (by omega), List.take_left' hjoin, hdrop, List.append_nil, Option.bind_some, Blocks.take_join_succ hlen, hall]
    rfl
  | succ count ih =>
    have hnext : (i + 1) * md.size ≤ l * md.size := Nat.mul_le_mul_right _ (by omega)
    have htake : (rfcT md P S iterations (i + 1)).take md.size = rfcT md P S iterations (i + 1) :=
      List.take_of_length_le (Nat.le_of_eq (hlen i))
    have hdrop : (Blocks.join (fun i => rfcT md P S iterations (i + 1)) i ++ rest).drop (i * md.size + md.size) =
        rest.drop md.size := by
      rw [← List.drop_drop, List.drop_left' hjoin]
    rw [pbkdf2Blocks, if_neg (by omega), pbkdf2Rounds_eq hpos, Nat.add_sub_cancel, htake, memcpy, hlen, List.length_append, hjoin,
      if_pos (by omega), List.take_left' hjoin, hdrop, Option.bind_some, ← Blocks.join_succ]
    refine ih (by omega) ?_ (Blocks.length_join hlen (i + 1)) (Nat.succ_mul _ _)
    rw [List.length_drop]
    omega

-- The memory for the key is all written, and nothing else is.
theorem generatePbkdf2_eq (hpos : 1 ≤ iterations) (hends : iterations < 2 ^ 32 - 1) (hhash : md.size ≤ secureLimit)
    (hsalt : S.length + 4 ≤ secureLimit) (hne : 1 ≤ output.length) (hlt : output.length < 2 ^ 32 - 1) :
    ∃ dk, rfcPbkdf2 md P S iterations output.length = some dk ∧ dk.length = output.length ∧
      generatePbkdf2 md P S iterations output = some (true, dk) := by
  have hlen : ∀ i, (rfcT md P S iterations (i + 1)).length = md.size := fun i => length_rfcF _
  have hsplit := Nat.div_add_mod (output.length - 1) md.size
  have hmod := Nat.mod_lt (output.length - 1) md.pos
  have hsize : ((output.length - 1) / md.size + 1) * md.size = (output.length - 1) / md.size * md.size + md.size := Nat.succ_mul _ _
  have hlong : ¬(2 ^ 32 - 1) * md.size < output.length := by
    have hle := Nat.le_mul_of_pos_right (2 ^ 32 - 1) md.pos
    omega
  rw [Nat.mul_comm] at hsplit
  refine ⟨_, if_neg hlong, Blocks.length_first hlen md.pos _, ?_⟩
  have hblocks := @pbkdf2Blocks_eq md P S output 0 ((output.length - 1) / md.size) output.length ((output.length - 1) / md.size)
    iterations hpos (by omega) (by omega) (Nat.zero_add _) (by rw [Nat.zero_mul, Nat.add_zero])
  have hfirst := @Blocks.first_eq _ _ _ ((output.length - 1) / md.size + 1) output.length hlen md.pos (by omega)
  rw [Blocks.join_zero, List.nil_append] at hblocks
  rw [generatePbkdf2, if_neg (by omega), if_neg (by omega), if_neg (by omega)]
  dsimp only
  rw [Nat.add_sub_cancel]
  change Option.map _ (pbkdf2Blocks md P S iterations _ _ _ (0 + 1) output) = _
  rw [hblocks, Option.map_some, hfirst]

-- The two derivations give what the standards say.
theorem derivations_standard :
    (∀ (md : Mac) (P S output : Bytes) (c : Nat), 1 ≤ c → c < 2 ^ 32 - 1 → md.size ≤ secureLimit →
      S.length + 4 ≤ secureLimit → 1 ≤ output.length → output.length < 2 ^ 32 - 1 →
      ∃ dk, rfcPbkdf2 md P S c output.length = some dk ∧ dk.length = output.length ∧
        generatePbkdf2 md P S c output = some (true, dk)) ∧
    ∀ (md : Digest) (keylen blklen : Nat) (password salt : Option Bytes) (n : Int) (key iv : Bool), 1 ≤ n →
      (key → keylen ≠ 0) → ∃ fuel, eggSymkeyGenerateSimple fuel md keylen blklen password salt n key iv =
        some (some (if key then some ((material md password salt n.toNat (keylen + blklen)).take keylen) else none,
          if iv then some ((material md password salt n.toNat (keylen + blklen)).drop keylen) else none)) :=
  ⟨fun _ _ _ _ _ => generatePbkdf2_eq,
    fun md keylen blklen password salt _ _ iv hpos hkey => eggSymkeyGenerateSimple_eq md keylen blklen password salt hpos hkey iv⟩

-- The sum of the bytes.
def sumDigest : Digest where
  hash data  := [data.sum]
  size       := 1
  pos        := Nat.one_pos
  length _   := rfl

def sumMac : Mac where
  mac key data := [key.sum + data.sum]
  size         := 1
  pos          := Nat.one_pos
  length _ _   := rfl

theorem derivations_standard_sum :
    (∃ dk, rfcPbkdf2 sumMac [1] [2] 3 2 = some dk ∧ dk.length = 2 ∧ generatePbkdf2 sumMac [1] [2] 3 [0, 0] = some (true, dk)) ∧
    ∃ fuel, eggSymkeyGenerateSimple fuel sumDigest 2 1 (some [1]) none 3 true false =
      some (some (some ((material sumDigest (some [1]) none 3 3).take 2), none)) :=
  ⟨derivations_standard.1 sumMac [1] [2] [0, 0] 3 (by decide) (by decide) (by decide) (by decide) (by decide) (by decide),
    derivations_standard.2 sumDigest 2 1 (some [1]) none 3 true false (by decide) (by decide)⟩

-- So many bytes are refused, although there is such a key.
theorem not_pbkdf2_standard : ¬∀ (md : Mac) (P S output : Bytes) (c : Nat), 1 ≤ c → 1 ≤ output.length →
    generatePbkdf2 md P S c output =
      some ((rfcPbkdf2 md P S c output.length).isSome, (rfcPbkdf2 md P S c output.length).getD output) := by
  intro h
  generalize hn : 2 ^ 32 - 1 = n at *
  have hlen : (List.replicate n (0 : UInt8)).length = n := List.length_replicate
  have heq := h sumMac [] [] (List.replicate n 0) 1 (by decide) (by rw [hlen]; omega)
  have hrfc : ¬(2 ^ 32 - 1) * sumMac.size < n := by
    change ¬(2 ^ 32 - 1) * 1 < n
    omega
  rw [generatePbkdf2, hlen, if_pos (by omega), rfcPbkdf2, if_neg hrfc] at heq
  cases heq

end Symkey
