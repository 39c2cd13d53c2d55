import GcrModel.GLib.Strings
import GcrModel.Library.Loop
import Mathlib.Algebra.Group.Nat.Defs

-- egg-padding.c: the padding of PKCS#7.
namespace Padding

open GLib

def pkcs7Pad (block : Nat) (raw : Bytes) : Option Bytes :=
  if block = 0 ∨ 256 ≤ block then none
  else
    let nPadded := (raw.length + block) / block * block
    let nPad := nPadded - raw.length
    some (raw ++ List.replicate nPad (UInt8.ofNat nPad))

def pkcs7Unpad (block : Nat) (padded : Bytes) : Option Bytes :=
  match padded.getLast? with
  | none      => none
  | some last =>
    let nPad := last.toNat
    -- Validate the padding
    if nPad = 0 ∨ 256 < nPad then none
    else if padded.length < nPad then none
    else if block ≠ 0 ∧ block < nPad then none
    else if (padded.drop (padded.length - nPad)).all (· = last) then some (padded.take (padded.length - nPad))
    else none

variable {block : Nat} {raw padded : Bytes}

-- The assertions of egg_padding_pkcs7_pad hold.
theorem lt_nPadded (hblock : 0 < block) (n : Nat) :
    n < (n + block) / block * block ∧ (n + block) / block * block - n ≤ block := by
  have hdiv := Nat.div_add_mod' (n + block) block
  have hmod := Nat.mod_lt (n + block) hblock
  omega

theorem pkcs7Pad_eq_some (h : pkcs7Pad block raw = some padded) : 0 < block ∧ block < 256 ∧
    ∃ nPad, 0 < nPad ∧ nPad ≤ block ∧ padded = raw ++ List.replicate nPad (UInt8.ofNat nPad) ∧
      block ∣ padded.length := by
  rw [pkcs7Pad] at h
  split at h
  case isTrue => cases h
  case isFalse hblock =>
    have hpos : 0 < block := by omega
    obtain ⟨hlt, hle⟩ := lt_nPadded hpos raw.length
    cases h
    refine ⟨hpos, by omega, _, Nat.sub_pos_of_lt hlt, hle, rfl, ?_⟩
    rw [List.length_append, List.length_replicate, Nat.add_sub_cancel' (Nat.le_of_lt hlt)]
    exact Nat.dvd_mul_left block _

theorem exists_pkcs7Pad (hpos : 0 < block) (hlt : block < 256) (raw : Bytes) :
    ∃ padded, pkcs7Pad block raw = some padded :=
  ⟨_, if_neg (by omega)⟩

theorem pkcs7Unpad_replicate {nPad : Nat} (hlt : block < 256) (hpad : 0 < nPad) (hle : nPad ≤ block) (raw : Bytes) :
    pkcs7Unpad block (raw ++ List.replicate nPad (UInt8.ofNat nPad)) = some raw := by
  have hval : (UInt8.ofNat nPad).toNat = nPad := by
    rw [UInt8.toNat_ofNat']
    exact Nat.mod_eq_of_lt (by omega)
  have hlast : (raw ++ List.replicate nPad (UInt8.ofNat nPad)).getLast? = some (UInt8.ofNat nPad) := by
    rw [List.getLast?_append_of_ne_nil _ (by simp; omega), List.getLast?_replicate, if_neg (by omega)]
  have hlen : (raw ++ List.replicate nPad (UInt8.ofNat nPad)).length - nPad = raw.length := by simp
  rw [pkcs7Unpad, hlast]
  simp only [hval, hlen]
  rw [if_neg (by omega), if_neg (by simp), if_neg (by omega), List.drop_left, List.take_left, if_pos]
  simp

-- The padding can always be told from the text.
theorem pkcs7Unpad_pkcs7Pad (h : pkcs7Pad block raw = some padded) : pkcs7Unpad block padded = some raw := by
  obtain ⟨-, hlt, nPad, hpad, hle, rfl, -⟩ := pkcs7Pad_eq_some h
  exact pkcs7Unpad_replicate hlt hpad hle raw

-- egg-padding.c: the padding of PKCS#1, and the assertions of both. A `gsize` has 64 bits.

-- How a call that pads ends: with an assertion that fails, with FALSE, or with the padded bytes.
inductive Outcome
  | assertion
  | returned (padded : Option Bytes)
  deriving DecidableEq, Repr

-- The lengths of egg_padding_pkcs1_pad_01 and egg_padding_pkcs1_pad_02, unless an assertion fails.
def pkcs1Lengths (block nRaw : Nat) : Option (Nat × Nat) :=
  let nPadded := (nRaw + 3 + (block - 1)) % 2 ^ 64 / block * block
  if nPadded < nRaw then none
  else
    let nPad := nPadded - nRaw
    if block < nPad then none
    else if nPad < 3 then none
    else some (nPadded, nPad)

-- Prefix, block type, what fills the block, and a zero.
def pkcs1Block (type : UInt8) (fill raw : Bytes) : Bytes :=
  [0, type] ++ fill ++ [0] ++ raw

def eggPaddingPkcs1Pad01 (block : Nat) (raw : Bytes) : Outcome :=
  if block = 0 ∨ block ≤ 3 then .returned none
  else
    match pkcs1Lengths block raw.length with
    | none           => .assertion
    | some (_, nPad) => .returned (some (pkcs1Block 1 (List.replicate (nPad - 3) 0xFF) raw))

-- `egg_random` gives the bytes of a stream from a position on.
def eggRandom (random : Nat → UInt8) (pos n : Nat) : Bytes :=
  (List.range n).map fun i => random (pos + i)

-- Use some of the replacement data
def replace : Bytes → Bytes → Bytes
  | [],        _   => []
  | c :: data, rnd =>
    if c ≠ 0 then c :: replace data rnd
    else
      match rnd with
      | []       => c :: replace data []
      | r :: rnd => r :: replace data rnd

structure Filling where
  data : Bytes
  pos  : Nat
  deriving DecidableEq, Repr

def fillRound (random : Nat → UInt8) (s : Filling) : Bytes ⊕ Filling :=
  let nZero := s.data.count 0
  if nZero = 0 then .inl s.data
  -- There is no memory for the replacement data, and the zeros stay.
  else if secureLimit < nZero then .inl s.data
  else .inr ⟨replace s.data (eggRandom random s.pos nZero), s.pos + nZero⟩

-- The counters have 32 bits, so that the loops over more data than they count do not end.
def fillRandomNonzero (fuel : Nat) (random : Nat → UInt8) (n : Nat) : Option Bytes :=
  if 2 ^ 32 ≤ n then none else Loop.run (fillRound random) fuel ⟨eggRandom random 0 n, n⟩

def eggPaddingPkcs1Pad02 (fuel : Nat) (random : Nat → UInt8) (block : Nat) (raw : Bytes) : Option Outcome :=
  if block = 0 ∨ block ≤ 3 then some (.returned none)
  else
    match pkcs1Lengths block raw.length with
    | none           => some .assertion
    | some (_, nPad) => (fillRandomNonzero fuel random (nPad - 3)).map fun fill => .returned (some (pkcs1Block 2 fill raw))

-- No result if a byte is read that is not in the input.
def unpadPkcs1 (bt : UInt8) (block : Nat) (padded : Bytes) : Option (Option Bytes) :=
  if block ≠ 0 ∧ padded.length % block ≠ 0 then some none
  else do
    -- Check the header
    let prefixByte ← padded[0]?
    if prefixByte ≠ 0 then some none
    else do
      let type ← padded[1]?
      if type ≠ bt then some none
      else
        -- The first zero byte after the header
        match (padded.drop 2).idxOf? 0 with
        | none   => some none
        | some i => some (some ((padded.drop 2).drop (i + 1)))

def eggPaddingPkcs1Unpad01 (block : Nat) (padded : Bytes) : Option (Option Bytes) :=
  unpadPkcs1 1 block padded

def eggPaddingPkcs1Unpad02 (block : Nat) (padded : Bytes) : Option (Option Bytes) :=
  unpadPkcs1 2 block padded

def eggPaddingPkcs7Pad (block : Nat) (raw : Bytes) : Outcome :=
  if block = 0 ∨ 256 ≤ block then .returned none
  else
    let nPadded := (raw.length + block) / block * block
    if ¬raw.length < nPadded then .assertion
    else if ¬(0 < nPadded - raw.length ∧ nPadded - raw.length ≤ block) then .assertion
    else .returned (pkcs7Pad block raw)

end Padding

namespace Padding

open GLib Loop

section Pkcs1

variable {block nRaw nPadded nPad n pos : Nat} {bt type : UInt8} {raw padded data rnd fill : Bytes} {random : Nat → UInt8}

-- The data are at the end of the last block, behind three bytes or more of it.
def Fits (block nRaw : Nat) : Prop :=
  nRaw % block + 3 ≤ block ∧ nRaw + 2 + block < 2 ^ 64

-- There are bytes other than zero for the rest of a block: the counters reach its end, and the zeros among the first random
-- bytes can be replaced.
def Fillable (random : Nat → UInt8) (nFill : Nat) : Prop :=
  nFill < 2 ^ 32 ∧ (eggRandom random 0 nFill).count 0 ≤ secureLimit

-- There is a byte for each one that is looked at before the zero byte.
def HeaderReadable (block : Nat) (padded : Bytes) : Prop :=
  block ≠ 0 ∧ padded.length % block ≠ 0 ∨ 2 ≤ padded.length ∨ ∃ c, padded = [c] ∧ c ≠ 0

theorem div_of_lt (q : Nat) {r : Nat} (h : r < block) : (block * q + r) / block = q := by
  rw [Nat.mul_add_div (by omega), Nat.div_eq_of_lt h, Nat.add_zero]

theorem pkcs1Lengths_of_fits (h : Fits block nRaw) : ∃ nPadded,
    pkcs1Lengths block nRaw = some (nPadded, block - nRaw % block) ∧ 3 ≤ block - nRaw % block ∧
      nRaw + (block - nRaw % block) = nPadded ∧ block ∣ nPadded := by
  obtain ⟨hfit, hlt⟩ := h
  have hdiv : (nRaw + 3 + (block - 1)) / block = nRaw / block + 1 := by
    have hsplit := Nat.div_add_mod nRaw block
    rw [show nRaw + 3 + (block - 1) = block * (nRaw / block + 1) + (nRaw % block + 2) by rw [Nat.mul_add]; omega]
    exact div_of_lt _ (by omega)
  have hpad : (nRaw / block + 1) * block = nRaw + (block - nRaw % block) := by
    have hsplit := Nat.div_add_mod nRaw block
    rw [Nat.mul_comm, Nat.mul_add]
    omega
  have heq : pkcs1Lengths block nRaw = some ((nRaw / block + 1) * block, block - nRaw % block) := by
    unfold pkcs1Lengths
    rw [Nat.mod_eq_of_lt (by omega), hdiv]
    dsimp only
    rw [hpad, if_neg (by omega), if_neg (by omega), if_neg (by omega), Nat.add_sub_cancel_left]
  exact ⟨_, heq, by omega, hpad.symm, Nat.dvd_mul_left _ _⟩

-- Otherwise an assertion fails: more than a block would be filled, or the sum has wrapped.
theorem pkcs1Lengths_of_not_fits (hblock : 3 < block) (hsize : block < 2 ^ 64) (h : ¬Fits block nRaw) :
    pkcs1Lengths block nRaw = none := by
  unfold pkcs1Lengths
  dsimp only
  by_cases hlt : nRaw + 2 + block < 2 ^ 64
  case pos =>
    have hmod := Nat.mod_lt nRaw (show 0 < block by omega)
    have hover : block < nRaw % block + 3 := Nat.not_le.mp fun hle => h ⟨hle, hlt⟩
    have hsplit := Nat.div_add_mod nRaw block
    have hdiv : (nRaw + 3 + (block - 1)) / block = nRaw / block + 2 := by
      rw [show nRaw + 3 + (block - 1) = block * (nRaw / block + 2) + (nRaw % block + 2 - block) by rw [Nat.mul_add]; omega]
      exact div_of_lt _ (by omega)
    have hpad : (nRaw / block + 2) * block = nRaw + (2 * block - nRaw % block) := by
      rw [Nat.mul_comm, Nat.mul_add]
      omega
    rw [Nat.mod_eq_of_lt (by omega), hdiv, hpad, if_neg (by omega), if_pos (by omega)]
  case neg =>
    have hle : (nRaw + 3 + (block - 1)) % 2 ^ 64 / block * block ≤ (nRaw + 3 + (block - 1)) % 2 ^ 64 := Nat.div_mul_le_self _ _
    have hwrap : (nRaw + 3 + (block - 1)) % 2 ^ 64 ≤ nRaw + 1 := by omega
    generalize (nRaw + 3 + (block - 1)) % 2 ^ 64 / block * block = nPadded at hle
    by_cases hlong : nPadded < nRaw
    case pos => rw [if_pos hlong]
    case neg => rw [if_neg hlong, if_neg (by omega), if_pos (by omega)]

section Unpad

theorem idxOf?_append (h : 0 ∉ fill) (raw : Bytes) : (fill ++ 0 :: raw).idxOf? 0 = some fill.length := by
  induction fill with
  | nil => rfl
  | cons c fill ih =>
    obtain ⟨hc, hfill⟩ := not_or.mp (List.mem_cons.not.mp h)
    have hne : (c == 0) = false := beq_eq_false_iff_ne.mpr (Ne.symm hc)
    rw [List.cons_append, List.idxOf?_cons, hne, ih hfill]
    rfl

-- The first zero byte behind the header is the one in front of the data.
theorem unpadPkcs1_block (hdvd : block ∣ (pkcs1Block bt fill raw).length) (hfill : 0 ∉ fill) :
    unpadPkcs1 bt block (pkcs1Block bt fill raw) = some (some raw) := by
  have hmod : ¬(block ≠ 0 ∧ (pkcs1Block bt fill raw).length % block ≠ 0) := fun h => h.2 (Nat.mod_eq_zero_of_dvd hdvd)
  have hdrop : (pkcs1Block bt fill raw).drop 2 = fill ++ 0 :: raw := by simp [pkcs1Block]
  have hrest : (fill ++ 0 :: raw).drop (fill.length + 1) = raw := by
    rw [← List.drop_drop, List.drop_left]
    rfl
  rw [unpadPkcs1, if_neg hmod, hdrop, idxOf?_append hfill]
  dsimp only
  rw [hrest]
  simp [pkcs1Block]

-- A zero among what fills the block is taken for it.
theorem ne_of_unpadPkcs1_block (hfill : 0 ∈ fill) : unpadPkcs1 bt block (pkcs1Block bt fill raw) ≠ some (some raw) := by
  intro h
  obtain ⟨front, back, rfl, hfront⟩ := List.eq_append_cons_of_mem hfill
  have hdrop : (pkcs1Block bt (front ++ 0 :: back) raw).drop 2 = front ++ 0 :: (back ++ 0 :: raw) := by simp [pkcs1Block]
  rw [unpadPkcs1, hdrop, idxOf?_append hfront] at h
  split at h
  case isTrue => cases h
  case isFalse =>
    simp only [pkcs1Block, List.cons_append, List.getElem?_cons_zero, List.getElem?_cons_succ, Option.bind_eq_bind,
      Option.bind_some, ne_eq, not_true_eq_false, if_false, Option.some.injEq] at h
    have hlen := congrArg List.length h
    simp only [List.length_drop, List.length_append, List.length_cons] at hlen
    omega

-- What is promised of a call that unpads: it reads inside of the input, and gives the bytes behind the first zero byte
-- that follows two others.
def Unpads (bt : UInt8) (block : Nat) (padded : Bytes) : Prop :=
  ∃ result, unpadPkcs1 bt block padded = some result ∧ ∀ raw, result = some raw →
    ∃ c d fill, 0 ∉ fill ∧ padded = c :: d :: fill ++ 0 :: raw

theorem unpads_of_two (bt : UInt8) (block : Nat) (c d : UInt8) (data : Bytes) : Unpads bt block (c :: d :: data) := by
  unfold Unpads unpadPkcs1
  split
  case isTrue => exact ⟨none, rfl, fun _ h => by cases h⟩
  case isFalse =>
    simp only [List.getElem?_cons_zero, List.getElem?_cons_succ, Option.bind_eq_bind, Option.bind_some]
    split
    case isTrue => exact ⟨none, rfl, fun _ h => by cases h⟩
    case isFalse =>
      split
      case isTrue => exact ⟨none, rfl, fun _ h => by cases h⟩
      case isFalse =>
        rw [List.drop_succ_cons, List.drop_succ_cons, List.drop_zero]
        cases hidx : data.idxOf? 0 with
        | none   => exact ⟨none, rfl, fun _ h => by cases h⟩
        | some i =>
          refine ⟨_, rfl, fun raw h => ⟨c, d, data.take i, ?_, ?_⟩⟩
          all_goals
            obtain ⟨hlt, hget, hfirst⟩ := List.idxOf?_eq_some_iff.mp hidx
          · intro hmem
            obtain ⟨j, hj, hzero⟩ := List.mem_take_iff_getElem.mp hmem
            exact hfirst j (by omega) hzero
          · rw [← Option.some.inj h, ← hget, List.getElem_cons_drop, List.cons_append, List.cons_append, List.take_append_drop]

theorem unpads_iff (bt : UInt8) (block : Nat) (padded : Bytes) : Unpads bt block padded ↔ HeaderReadable block padded := by
  match padded with
  | [] =>
    refine iff_of_false ?_ ?_
    · rintro ⟨result, h, -⟩
      rw [unpadPkcs1, if_neg (by simp)] at h
      cases h
    · rintro (⟨-, h⟩ | h | ⟨c, h, -⟩)
      · exact h (Nat.zero_mod block)
      · exact absurd h (by decide)
      · cases h
  | [c] =>
    by_cases hmod : block ≠ 0 ∧ [c].length % block ≠ 0
    case pos => exact iff_of_true ⟨none, by rw [unpadPkcs1, if_pos hmod], fun _ h => by cases h⟩ (.inl hmod)
    case neg =>
      by_cases hc : c = 0
      case pos =>
        refine iff_of_false ?_ ?_
        · rintro ⟨result, h, -⟩
          rw [unpadPkcs1, if_neg hmod, hc] at h
          cases h
        · rintro (h | h | ⟨d, h, hd⟩)
          · exact hmod h
          · exact Nat.not_succ_le_self 1 h
          · cases h
            exact hd hc
      case neg =>
        refine iff_of_true ⟨none, ?_, fun _ h => by cases h⟩ (.inr (.inr ⟨c, rfl, hc⟩))
        rw [unpadPkcs1, if_neg hmod]
        exact if_pos hc
  | c :: d :: data => exact iff_of_true (unpads_of_two bt block c d data) (.inr (.inl (by simp)))

end Unpad

section Fill

-- From each place on there is a byte that is not zero.
def Random (random : Nat → UInt8) : Prop :=
  ∀ n, ∃ m, n ≤ m ∧ random m ≠ 0

theorem length_eggRandom (random : Nat → UInt8) (pos n : Nat) : (eggRandom random pos n).length = n := by
  simp [eggRandom]

-- A zero is replaced for each byte that is not one.
theorem replace_spec (h : rnd.length = data.count 0) :
    (replace data rnd).length = data.length ∧ (replace data rnd).count 0 = rnd.count 0 := by
  induction data generalizing rnd with
  | nil =>
    have hnil : rnd = [] := List.length_eq_zero_iff.mp h
    rw [hnil]
    exact ⟨rfl, rfl⟩
  | cons c data ih =>
    rw [replace.eq_def]
    dsimp only
    by_cases hc : c = 0
    case neg =>
      rw [List.count_cons_of_ne hc] at h
      obtain ⟨hlen, hcount⟩ := ih h
      rw [if_pos hc, List.length_cons, List.length_cons, hlen, List.count_cons_of_ne hc, hcount]
      exact ⟨rfl, rfl⟩
    case pos =>
      rw [hc, List.count_cons_self] at h
      obtain ⟨r, rnd, rfl⟩ := List.exists_cons_of_length_pos (show 0 < rnd.length by omega)
      obtain ⟨hlen, hcount⟩ := @ih rnd (Nat.succ.inj h)
      rw [if_neg (not_not.mpr hc), List.length_cons, List.length_cons, hlen, List.count_cons, List.count_cons, hcount]
      exact ⟨rfl, rfl⟩

theorem fills (hrandom : Random random) (data : Bytes) (pos : Nat) (hlimit : data.count 0 ≤ secureLimit) :
    ∃ fuel filled, run (fillRound random) fuel ⟨data, pos⟩ = some filled ∧ filled.length = data.length ∧ 0 ∉ filled := by
  generalize hz : data.count 0 = z
  induction z using Nat.strong_induction_on generalizing data pos with
  | h z ih =>
    -- Until the next byte of the stream that is not zero
    obtain ⟨m, hpos, hm⟩ := hrandom pos
    generalize hdist : m - pos = dist
    induction dist using Nat.strong_induction_on generalizing data pos with
    | h dist ihdist =>
      by_cases hzero : z = 0
      case pos =>
        have hstop : fillRound random ⟨data, pos⟩ = .inl data := by
          unfold fillRound
          rw [hz, hzero]
          rfl
        exact ⟨1, data, run_of_stop hstop, rfl, List.count_eq_zero.mp (hz.trans hzero)⟩
      case neg =>
        have hnext : Next (fillRound random) ⟨data, pos⟩ ⟨replace data (eggRandom random pos z), pos + z⟩ := by
          unfold Next fillRound
          dsimp only
          rw [hz, if_neg hzero, if_neg (Nat.not_lt.mpr (hz ▸ hlimit))]
        obtain ⟨hlen, hcount⟩ := @replace_spec data (eggRandom random pos z) (by rw [length_eggRandom, hz])
        have hle : (eggRandom random pos z).count 0 ≤ z := by
          have h := @List.count_le_length _ _ 0 (eggRandom random pos z)
          rwa [length_eggRandom] at h
        suffices ∃ fuel filled, run (fillRound random) fuel ⟨replace data (eggRandom random pos z), pos + z⟩ = some filled ∧
            filled.length = (replace data (eggRandom random pos z)).length ∧ 0 ∉ filled by
          obtain ⟨fuel, filled, hrun, hfilled, hno⟩ := this
          exact ⟨fuel + 1, filled, (run_of_next hnext).trans hrun, hfilled.trans hlen, hno⟩
        by_cases hless : (eggRandom random pos z).count 0 < z
        case pos => exact ih _ hless _ _ (by omega) hcount
        case neg =>
          -- All of them were zeros.
          have hall : (eggRandom random pos z).count 0 = (eggRandom random pos z).length := by
            rw [length_eggRandom]
            exact Nat.le_antisymm hle (Nat.not_lt.mp hless)
          have hbefore : pos + z ≤ m := by
            by_contra hlt
            have hmem : random m ∈ eggRandom random pos z :=
              List.mem_map.mpr ⟨m - pos, List.mem_range.mpr (by omega), by rw [Nat.add_sub_cancel' hpos]⟩
            exact hm (List.count_eq_length.mp hall _ hmem).symm
          have hagain := hcount.trans (by rw [hall, length_eggRandom])
          exact ihdist (m - (pos + z)) (by omega) _ _ (by omega) hagain hbefore rfl

-- Without memory for the replacement the zeros stay where they are.
theorem mem_of_run_fillRound {data filled : Bytes} {fuel : Nat} (hlimit : secureLimit < data.count 0)
    (h : run (fillRound random) fuel ⟨data, pos⟩ = some filled) : 0 ∈ filled := by
  have hstop : fillRound random ⟨data, pos⟩ = .inl data := by
    dsimp only [fillRound]
    rw [if_neg (Nat.ne_zero_of_lt hlimit), if_pos hlimit]
  obtain ⟨fuel, rfl⟩ : ∃ n, fuel = n + 1 := Nat.exists_eq_succ_of_ne_zero (by rintro rfl; cases h)
  obtain rfl := Option.some.inj ((run_of_stop hstop).symm.trans h)
  exact List.count_pos_iff.mp (Nat.zero_lt_of_lt hlimit)

end Fill

section Pad

-- What is promised of a call that pads: there is a result, of whole blocks, which unpads to the data again.
def Padded (outcome : Outcome) (unpad : Bytes → Option (Option Bytes)) (block : Nat) (raw : Bytes) : Prop :=
  ∃ padded, outcome = .returned (some padded) ∧ block ∣ padded.length ∧ unpad padded = some (some raw)

theorem length_pkcs1Block (type : UInt8) (fill raw : Bytes) :
    (pkcs1Block type fill raw).length = raw.length + (fill.length + 3) := by
  simp [pkcs1Block]
  omega

theorem padded_block (hle : 3 ≤ nPad) (hlen : raw.length + nPad = nPadded) (hdvd : block ∣ nPadded)
    (hfill : fill.length = nPad - 3) (hno : 0 ∉ fill) (bt : UInt8) :
    Padded (.returned (some (pkcs1Block bt fill raw))) (unpadPkcs1 bt block) block raw := by
  have hblock : block ∣ (pkcs1Block bt fill raw).length := by
    rwa [length_pkcs1Block, hfill, Nat.sub_add_cancel hle, hlen]
  exact ⟨_, rfl, hblock, unpadPkcs1_block hblock hno⟩

theorem padded_01_iff (hblock : 3 < block) (hsize : block < 2 ^ 64) (raw : Bytes) :
    Padded (eggPaddingPkcs1Pad01 block raw) (eggPaddingPkcs1Unpad01 block) block raw ↔ Fits block raw.length := by
  unfold eggPaddingPkcs1Pad01
  rw [if_neg (by omega)]
  constructor
  case mp =>
    rintro ⟨padded, h, -⟩
    by_contra hfits
    rw [pkcs1Lengths_of_not_fits hblock hsize hfits] at h
    cases h
  case mpr =>
    intro h
    obtain ⟨nPadded, heq, hle, hlen, hdvd⟩ := pkcs1Lengths_of_fits h
    rw [heq]
    exact padded_block hle hlen hdvd List.length_replicate (fun h => absurd (List.eq_of_mem_replicate h) (by decide)) 1

theorem padded_02_iff (hrandom : Random random) (hblock : 3 < block) (hsize : block < 2 ^ 64) (raw : Bytes) :
    (∃ fuel outcome, eggPaddingPkcs1Pad02 fuel random block raw = some outcome ∧
      Padded outcome (eggPaddingPkcs1Unpad02 block) block raw) ↔
        Fits block raw.length ∧ Fillable random (block - raw.length % block - 3) := by
  unfold eggPaddingPkcs1Pad02
  simp only [if_neg (show ¬(block = 0 ∨ block ≤ 3) by omega)]
  constructor
  case mp =>
    rintro ⟨fuel, outcome, h, padded, rfl, -, hunpad⟩
    by_cases hfits : Fits block raw.length
    case neg =>
      rw [pkcs1Lengths_of_not_fits hblock hsize hfits] at h
      cases h
    case pos =>
      obtain ⟨nPadded, heq, -⟩ := pkcs1Lengths_of_fits hfits
      rw [heq] at h
      obtain ⟨fill, hfill, hblock⟩ := Option.map_eq_some_iff.mp h
      cases hblock
      obtain ⟨hlong, hrun⟩ := Option.ite_none_left_eq_some.mp hfill
      refine ⟨hfits, Nat.not_le.mp hlong, ?_⟩
      by_contra hlimit
      exact ne_of_unpadPkcs1_block (mem_of_run_fillRound (Nat.not_le.mp hlimit) hrun) hunpad
  case mpr =>
    rintro ⟨h, hshort, hlimit⟩
    obtain ⟨nPadded, heq, hle, hlen, hdvd⟩ := pkcs1Lengths_of_fits h
    generalize block - raw.length % block = nPad at *
    obtain ⟨fuel, fill, hrun, hfill, hno⟩ := fills hrandom (eggRandom random 0 (nPad - 3)) (nPad - 3) hlimit
    rw [length_eggRandom] at hfill
    rw [heq]
    refine ⟨fuel, _, ?_, padded_block hle hlen hdvd hfill hno 2⟩
    dsimp only
    rw [fillRandomNonzero, if_neg (Nat.not_le.mpr hshort), hrun, Option.map_some]

end Pad

-- The data are padded where they leave three bytes of their last block, which can be filled, and what is unpadded must have a
-- header.
theorem pkcs1_iff (random : Nat → UInt8) (hrandom : Random random) (block : Nat) (hblock : 3 < block) (hsize : block < 2 ^ 64) :
    (∀ raw, Padded (eggPaddingPkcs1Pad01 block raw) (eggPaddingPkcs1Unpad01 block) block raw ↔ Fits block raw.length) ∧
    (∀ raw, (∃ fuel outcome, eggPaddingPkcs1Pad02 fuel random block raw = some outcome ∧
      Padded outcome (eggPaddingPkcs1Unpad02 block) block raw) ↔
        Fits block raw.length ∧ Fillable random (block - raw.length % block - 3)) ∧
    ∀ bt block padded, Unpads bt block padded ↔ HeaderReadable block padded :=
  ⟨padded_01_iff hblock hsize, padded_02_iff hrandom hblock hsize, unpads_iff⟩

theorem pkcs1_iff_eight :
    (Padded (eggPaddingPkcs1Pad01 8 [1, 2]) (eggPaddingPkcs1Unpad01 8) 8 [1, 2] ↔ Fits 8 2) ∧
    ((∃ fuel outcome, eggPaddingPkcs1Pad02 fuel (fun n => UInt8.ofNat (n % 2)) 8 [1, 2] = some outcome ∧
      Padded outcome (eggPaddingPkcs1Unpad02 8) 8 [1, 2]) ↔ Fits 8 2 ∧ Fillable (fun n => UInt8.ofNat (n % 2)) 3) ∧
    (Unpads 1 8 [0, 1, 0xFF, 0] ↔ HeaderReadable 8 [0, 1, 0xFF, 0]) :=
  have hrandom : Random fun n => UInt8.ofNat (n % 2) := by
    intro n
    refine ⟨2 * n + 1, by omega, ?_⟩
    dsimp only
    rw [show (2 * n + 1) % 2 = 1 by omega]
    decide
  have h := pkcs1_iff _ hrandom 8 (by decide) (by decide)
  ⟨h.1 [1, 2], h.2.1 [1, 2], h.2.2 1 8 _⟩

-- Six bytes for blocks of eight: an assertion fails. A byte of zero: the next one is read.
theorem not_padded_six : ¬Padded (eggPaddingPkcs1Pad01 8 [1, 2, 3, 4, 5, 6]) (eggPaddingPkcs1Unpad01 8) 8 [1, 2, 3, 4, 5, 6] ∧
    ¬Unpads 1 1 [0] := by
  constructor
  case left =>
    rintro ⟨padded, h, -⟩
    cases h
  case right =>
    rintro ⟨result, h, -⟩
    cases h

end Pkcs1

section Pkcs7

variable {block : Nat} {raw padded : Bytes}

theorem eggPaddingPkcs7Pad_eq (block : Nat) (raw : Bytes) : eggPaddingPkcs7Pad block raw = .returned (pkcs7Pad block raw) := by
  rw [eggPaddingPkcs7Pad]
  split
  case isTrue h  => rw [pkcs7Pad, if_pos h]
  case isFalse h =>
    obtain ⟨hlt, hle⟩ := @lt_nPadded block (by omega) raw.length
    rw [if_neg (not_not.mpr hlt), if_neg (not_not.mpr ⟨Nat.sub_pos_of_lt hlt, hle⟩)]

-- What is unpadded ends with as many bytes as they say.
theorem eq_of_pkcs7Unpad (hpos : 0 < block) (h : pkcs7Unpad block padded = some raw) :
    ∃ nPad, 0 < nPad ∧ nPad ≤ block ∧ padded = raw ++ List.replicate nPad (UInt8.ofNat nPad) := by
  unfold pkcs7Unpad at h
  cases hlast : padded.getLast? with
  | none      => rw [hlast] at h; cases h
  | some last =>
    rw [hlast] at h
    dsimp only at h
    split at h
    case isTrue => cases h
    case isFalse hzero =>
      split at h
      case isTrue => cases h
      case isFalse hlen =>
        split at h
        case isTrue => cases h
        case isFalse hblock =>
          split at h
          case isFalse => cases h
          case isTrue hall =>
            cases h
            refine ⟨last.toNat, by omega, by omega, ?_⟩
            rw [UInt8.ofNat_toNat]
            conv_lhs => rw [← List.take_append_drop (padded.length - last.toNat) padded]
            congr 1
            refine List.eq_replicate_iff.mpr ⟨?_, fun c hc => ?_⟩
            · rw [List.length_drop]
              omega
            · simpa using List.all_eq_true.mp hall c hc

-- The last multiple of the block is the one that the padded length is.
theorem pkcs7Pad_of_dvd {nPad : Nat} (hlt : block < 256) (hpos : 0 < nPad) (hle : nPad ≤ block)
    (hdvd : block ∣ raw.length + nPad) : pkcs7Pad block raw = some (raw ++ List.replicate nPad (UInt8.ofNat nPad)) := by
  obtain ⟨k, hk⟩ := hdvd
  have hdiv : (raw.length + block) / block = k := by
    rw [show raw.length + block = block * k + (block - nPad) by omega, Nat.mul_add_div (by omega), Nat.div_eq_of_lt (by omega),
      Nat.add_zero]
  have hpad : k * block - raw.length = nPad := by rw [Nat.mul_comm, ← hk]; omega
  rw [pkcs7Pad, if_neg (by omega), hdiv]
  dsimp only
  rw [hpad]

-- What was padded is unpadded, and among the inputs of whole blocks nothing else is.
theorem pkcs7_exact (hpos : 1 ≤ block) (hle : block ≤ 255) :
    (∀ raw, ∃ padded, eggPaddingPkcs7Pad block raw = .returned (some padded) ∧ pkcs7Unpad block padded = some raw) ∧
    ∀ padded, block ∣ padded.length → ∀ raw, pkcs7Unpad block padded = some raw ↔
      eggPaddingPkcs7Pad block raw = .returned (some padded) := by
  constructor
  case left =>
    intro raw
    obtain ⟨padded, hpad⟩ := exists_pkcs7Pad hpos (Nat.lt_succ_of_le hle) raw
    exact ⟨padded, by rw [eggPaddingPkcs7Pad_eq, hpad], pkcs7Unpad_pkcs7Pad hpad⟩
  case right =>
    intro padded hdvd raw
    rw [eggPaddingPkcs7Pad_eq, Outcome.returned.injEq]
    constructor
    case mp =>
      intro h
      obtain ⟨nPad, hpad, hpadle, rfl⟩ := eq_of_pkcs7Unpad hpos h
      rw [List.length_append, List.length_replicate] at hdvd
      exact pkcs7Pad_of_dvd (Nat.lt_succ_of_le hle) hpad hpadle hdvd
    case mpr => exact pkcs7Unpad_pkcs7Pad

theorem pkcs7_exact_eight :
    (∃ padded, eggPaddingPkcs7Pad 8 [1, 2] = .returned (some padded) ∧ pkcs7Unpad 8 padded = some [1, 2]) ∧
    (pkcs7Unpad 8 [1, 2, 6, 6, 6, 6, 6, 6] = some [1, 2] ↔
      eggPaddingPkcs7Pad 8 [1, 2] = .returned (some [1, 2, 6, 6, 6, 6, 6, 6])) :=
  have h := @pkcs7_exact 8 (by decide) (by decide)
  ⟨h.1 [1, 2], h.2 _ (by decide) [1, 2]⟩

end Pkcs7

end Padding
