import GcrModel.GLib.Convert
import GcrModel.Library.Loop

-- egg-decimal.c
namespace Decimal

open GLib

-- How a call ends: with a write outside of a buffer, with an assertion that fails, or with a pointer.
inductive Outcome
  | outside
  | assertion
  | returned (result : Option Bytes)
  deriving DecidableEq, Repr

-- The variables of the loop over the characters. The counters are `guint`s.
structure Scan where
  digits     : List Nat
  nDigits    : Nat
  sawNonZero : Bool
  i          : Nat
  deriving DecidableEq, Repr

@[grind =]
def scanRound (data : Bytes) (s : Scan) : Except Outcome Scan ⊕ Scan :=
  match data[s.i]? with
  | none    => .inl (.ok s)
  | some ch =>
    if ¬isdigit ch then .inl (.error (.returned none))
    else if ch ≠ 48 ∨ s.sawNonZero then
      if s.digits.length ≤ s.nDigits then .inl (.error .outside)
      else
        .inr { digits     := s.digits.set s.nDigits (ch.toNat - 48)
               nDigits    := (s.nDigits + 1) % 2 ^ 32
               sawNonZero := true
               i          := (s.i + 1) % 2 ^ 32 }
    else .inr { s with i := (s.i + 1) % 2 ^ 32 }

-- Divide digits by two, the one at `i` first.
@[grind =]
def divide (i cleared carry : Nat) : List Nat → List Nat × Nat
  | []          => ([], cleared)
  | digit :: ds =>
    let half := digit / 2 + carry
    let (ds, cleared) :=
      divide (i + 1) (if i = cleared ∧ half = 0 then cleared + 1 else cleared) (if digit % 2 = 1 then 5 else 0) ds
    (half :: ds, cleared)

-- The variables of the loop over the bits. `atByte` is the distance from `usg`.
structure Bits where
  digits  : List Nat
  cleared : Nat
  usg     : Bytes
  atByte  : Int
  atBit   : Nat
  deriving DecidableEq, Repr

def bitRound (s : Bits) : Except Outcome Bits ⊕ Bits :=
  if s.digits.length ≤ s.cleared then .inl (.ok s)
  else
    -- Store the bit depending on whether last digit is odd
    let bit := s.digits.getLast?.getD 0 % 2
    if s.atByte < 0 ∨ s.usg.length ≤ s.atByte then .inl (.error .outside)
    else if s.atBit = 7 ∧ s.atByte - 1 < 0 then .inl (.error .assertion)
    else
      let (ds, cleared) := divide s.cleared s.cleared 0 (s.digits.drop s.cleared)
      .inr { digits  := s.digits.take s.cleared ++ ds
             cleared := cleared
             usg     := s.usg.modify s.atByte.toNat (· ||| UInt8.ofNat (bit <<< s.atBit))
             atByte  := if s.atBit = 7 then s.atByte - 1 else s.atByte
             atBit   := if s.atBit = 7 then 0 else s.atBit + 1 }

-- What is between `at_byte` and the end of the buffer. No memory is NULL.
def finish (s : Bits) : Option Bytes :=
  let atByte := if s.atBit = 0 then s.atByte + 1 else s.atByte
  if s.usg = [] then none else some (s.usg.drop atByte.toNat)

def startScan (data : Bytes) : Scan where
  digits     := List.replicate data.length 0
  nDigits    := 0
  sawNonZero := false
  i          := 0

-- Only the first `n_digits` of the array are looked at from here on.
def startBits (data : Bytes) (s : Scan) : Bits where
  digits  := s.digits.take s.nDigits
  cleared := 0
  usg     := List.replicate data.length 0
  atByte  := (data.length : Int) - 1
  atBit   := 0

-- The characters, which end at a NUL if `n_data` is negative.
def characters (data : Bytes) (nData : Int) : Bytes :=
  if nData < 0 then cstr data else data.take nData.toNat

def eggDecimalDecode (fuel : Nat) (data : Bytes) (nData : Int) : Option Outcome :=
  let data := characters data nData
  (Loop.run (scanRound data) fuel (startScan data)).bind fun
    | .error outcome => some outcome
    | .ok s          => (Loop.run bitRound fuel (startBits data s)).map fun
      | .error outcome => outcome
      | .ok s          => .returned (finish s)

end Decimal

namespace Decimal

open GLib Loop
open Relation (ReflTransGen)

variable {data : Bytes} {nData : Int} {ds : List Nat} {N n i k cleared carry : Nat} {s t : Bits}

-- The digits behind the zeros that a text starts with.
def significant (data : Bytes) : List Nat :=
  (data.map fun c => c.toNat - 48).dropWhile (· = 0)

theorem value_dropWhile (ds : List Nat) (b : Nat) : Radix.value b (ds.dropWhile (· = 0)) = Radix.value b ds := by
  induction ds with
  | nil => rfl
  | cons d ds ih =>
    by_cases hd : d = 0
    case pos => rw [List.dropWhile_cons_of_pos (by simpa using hd), ih, Radix.value_cons, hd, Nat.zero_mul, Nat.zero_add]
    case neg => rw [List.dropWhile_cons_of_neg (by simpa using hd)]

theorem value_significant (data : Bytes) : Radix.value 10 (significant data) = decimal data :=
  value_dropWhile _ _

theorem head_dropWhile (ds : List Nat) : (ds.dropWhile (· = 0)).head? ≠ some 0 := by
  intro h
  have hnot := List.head?_dropWhile_not (fun d => decide (d = 0)) ds
  rw [h] at hnot
  simp at hnot

theorem digit_of_isdigit {c : UInt8} (h : isdigit c) : c.toNat - 48 < 10 ∧ (c.toNat - 48 = 0 ↔ c = 48) := by
  simp only [isdigit, decide_eq_true_eq, UInt8.le_iff_toNat_le] at h
  have hlow : 48 ≤ c.toNat := h.1
  have hhigh : c.toNat ≤ 57 := h.2
  refine ⟨by omega, ?_⟩
  rw [← UInt8.toNat_inj, show (48 : UInt8).toNat = 48 from rfl]
  omega

theorem length_significant_le (data : Bytes) : (significant data).length ≤ data.length := by
  have hle := (List.dropWhile_suffix (fun d => decide (d = 0)) (l := data.map fun c => c.toNat - 48)).length_le
  simpa [significant] using hle

-- One character more is a digit more, unless it is a zero in front.
theorem significant_concat (data : Bytes) {c : UInt8} (hc : isdigit c) :
    significant (data ++ [c]) =
      if c ≠ 48 ∨ significant data ≠ [] then significant data ++ [c.toNat - 48] else significant data := by
  have hzero := (digit_of_isdigit hc).2
  rw [significant, List.map_append, List.dropWhile_append, ← significant]
  by_cases hnil : significant data = []
  case pos =>
    by_cases h48 : c = 48
    case pos => simp [hnil, h48]
    case neg => simp [hnil, h48, hzero]
  case neg => simp [hnil]

-- After so many characters, which are digits.
structure Scanned (data : Bytes) (k : Nat) (s : Scan) : Prop where
  i          : s.i = k
  nDigits    : s.nDigits = (significant (data.take k)).length
  digits     : s.digits.take s.nDigits = significant (data.take k)
  sawNonZero : s.sawNonZero = true ↔ significant (data.take k) ≠ []
  length     : s.digits.length = data.length

theorem scanned_start (data : Bytes) : Scanned data 0 (startScan data) where
  i          := rfl
  nDigits    := rfl
  digits     := rfl
  sawNonZero := by simp [startScan, significant]
  length     := List.length_replicate

theorem Scanned.next {s : Scan} (h : Scanned data k s) {c : UInt8} (hget : data[k]? = some c) (hc : isdigit c)
    (hk : k + 1 < 2 ^ 32) : ∃ t, Next (scanRound data) s t ∧ Scanned data (k + 1) t := by
  have hlt : k < data.length := (List.getElem?_eq_some_iff.mp hget).1
  have htake : data.take (k + 1) = data.take k ++ [c] := by rw [List.take_add_one, hget]; rfl
  have hle : (significant (data.take k)).length ≤ k :=
    Nat.le_trans (length_significant_le _) (List.length_take_le k data)
  have hi : (s.i + 1) % 2 ^ 32 = k + 1 := by rw [h.i, Nat.mod_eq_of_lt hk]
  have hcond : (c ≠ 48 ∨ s.sawNonZero = true) ↔ (c ≠ 48 ∨ significant (data.take k) ≠ []) := or_congr Iff.rfl h.sawNonZero
  have hnew := significant_concat (data.take k) hc
  unfold Next scanRound
  rw [h.i, hget]
  dsimp only
  rw [if_neg (not_not.mpr hc)]
  by_cases hkept : c ≠ 48 ∨ significant (data.take k) ≠ []
  case pos =>
    have hroom : ¬s.digits.length ≤ s.nDigits := by rw [h.length, h.nDigits]; omega
    have hn : (s.nDigits + 1) % 2 ^ 32 = s.nDigits + 1 := Nat.mod_eq_of_lt (by rw [h.nDigits]; omega)
    rw [if_pos hkept, ← htake] at hnew
    rw [if_pos (hcond.mpr hkept), if_neg hroom]
    refine ⟨_, rfl, ?_, ?_, ?_, ?_, ?_⟩
    case refine_1 => exact h.i ▸ hi
    case refine_2 => rw [hnew, List.length_append, ← h.nDigits]; exact hn
    case refine_3 =>
      rw [hnew]
      dsimp only
      rw [hn, List.take_add_one, List.take_set_of_le (Nat.le_refl _), h.digits]
      simp [Nat.not_le.mp hroom]
    case refine_4 => simp [hnew]
    case refine_5 => simpa using h.length
  case neg =>
    rw [if_neg hkept, ← htake] at hnew
    rw [if_neg (hcond.not.mpr hkept)]
    exact ⟨_, rfl, h.i ▸ hi, hnew ▸ h.nDigits, hnew ▸ h.digits, hnew ▸ h.sawNonZero, h.length⟩

theorem scanned_reached (hdigits : ∀ c ∈ data.take k, isdigit c) (hle : k ≤ data.length) (hk : k < 2 ^ 32) :
    ∃ s, ReflTransGen (Next (scanRound data)) (startScan data) s ∧ Scanned data k s := by
  induction k with
  | zero => exact ⟨_, .refl, scanned_start data⟩
  | succ k ih =>
    have hget : data[k]? = some data[k] := List.getElem?_eq_getElem hle
    have htake : data.take (k + 1) = data.take k ++ [data[k]] := by rw [List.take_add_one, hget]; rfl
    rw [htake, List.forall_mem_append] at hdigits
    obtain ⟨s, hs, h⟩ := ih hdigits.1 (Nat.le_of_lt hle) (Nat.lt_of_succ_lt hk)
    obtain ⟨t, hst, ht⟩ := h.next hget (hdigits.2 _ (by simp)) hk
    exact ⟨t, hs.tail hst, ht⟩

-- The scan stops at a character that is not a digit, and behind the last character.
theorem scan_nonDigit (hdigits : ∀ c ∈ data.take k, isdigit c) {c : UInt8} (hget : data[k]? = some c) (hc : ¬isdigit c)
    (hk : k < 2 ^ 32) : ∃ fuel, run (scanRound data) fuel (startScan data) = some (.error (.returned none)) := by
  obtain ⟨s, hs, h⟩ := scanned_reached hdigits (Nat.le_of_lt (List.getElem?_eq_some_iff.mp hget).1) hk
  refine run_eq_some_iff.mpr ⟨s, hs, ?_⟩
  rw [scanRound, h.i, hget]
  exact if_pos hc

theorem scan_digits (hdigits : ∀ c ∈ data, isdigit c) (hlen : data.length < 2 ^ 32) :
    ∃ fuel s, run (scanRound data) fuel (startScan data) = some (.ok s) ∧ Scanned data data.length s := by
  obtain ⟨s, hs, h⟩ := scanned_reached (by simpa using hdigits) (Nat.le_refl _) hlen
  have hstop : scanRound data s = .inl (.ok s) := by rw [scanRound, h.i, List.getElem?_eq_none (Nat.le_refl _)]
  obtain ⟨fuel, hrun⟩ := run_eq_some_iff.mpr ⟨s, hs, hstop⟩
  exact ⟨fuel, s, hrun, h⟩

-- The counters come back to zero.
theorem scanRound_bounded {s t : Scan} (h : s.i < 2 ^ 32 ∧ s.nDigits < 2 ^ 32 ∧ s.digits.length = data.length)
    (hst : Next (scanRound data) s t) : t.i < 2 ^ 32 ∧ t.nDigits < 2 ^ 32 ∧ t.digits.length = data.length := by
  unfold Next scanRound at hst
  split at hst
  case h_1 => cases hst
  case h_2 =>
    split at hst
    case isTrue => cases hst
    case isFalse =>
      split at hst
      case isFalse =>
        cases hst
        exact ⟨Nat.mod_lt _ (Nat.two_pow_pos 32), h.2⟩
      case isTrue =>
        split at hst
        case isTrue => cases hst
        case isFalse =>
          cases hst
          exact ⟨Nat.mod_lt _ (Nat.two_pow_pos 32), Nat.mod_lt _ (Nat.two_pow_pos 32), by simpa using h.2.2⟩

theorem scan_endless (hdigits : ∀ c ∈ data.take (2 ^ 32), isdigit c) (hlen : 2 ^ 32 ≤ data.length) :
    ¬Halts (scanRound data) (startScan data) := by
  rintro ⟨fuel, r, hrun⟩
  obtain ⟨s, ⟨hi, hn, hlength⟩, hstop⟩ := invariant (s := startScan data)
    ⟨Nat.two_pow_pos 32, Nat.two_pow_pos 32, List.length_replicate⟩ (fun _ _ => @scanRound_bounded data _ _) hrun
  have hlt : s.i < data.length := Nat.lt_of_lt_of_le hi hlen
  have hmem : data[s.i] ∈ data.take (2 ^ 32) := List.mem_take_iff_getElem.mpr ⟨s.i, lt_min hi hlt, rfl⟩
  rw [scanRound, List.getElem?_eq_getElem hlt] at hstop
  dsimp only at hstop
  rw [if_neg (not_not.mpr (hdigits _ hmem))] at hstop
  split at hstop
  case isTrue =>
    rw [if_neg (by omega)] at hstop
    cases hstop
  case isFalse => cases hstop

-- A carry of five is half of a ten in front of the digits.
theorem length_divide (i cleared carry : Nat) (ds : List Nat) : (divide i cleared carry ds).1.length = ds.length := by
  induction ds generalizing i cleared carry with
  | nil          => rfl
  | cons d ds ih => simp [divide, ih]

theorem lt_of_mem_divide (hds : ∀ d ∈ ds, d < 10) (hcarry : carry ≤ 5) : ∀ d ∈ (divide i cleared carry ds).1, d < 10 := by
  induction ds generalizing i cleared carry with
  | nil => simp [divide]
  | cons d ds ih =>
    obtain ⟨hd, hds⟩ := List.forall_mem_cons.mp hds
    refine List.forall_mem_cons.mpr ⟨by omega, ih hds ?_⟩
    split
    all_goals omega

theorem value_divide {high : Nat} (hhigh : high < 2) (ds : List Nat) :
    Radix.value 10 (divide i cleared (5 * high) ds).1 = (high * 10 ^ ds.length + Radix.value 10 ds) / 2 := by
  induction ds generalizing i cleared high with
  | nil => simp [divide]; omega
  | cons d ds ih =>
    have hcarry : (if d % 2 = 1 then 5 else 0) = 5 * (d % 2) := by
      split
      all_goals omega
    have hsplit : high * 10 ^ (ds.length + 1) + (d * 10 ^ ds.length + Radix.value 10 ds) =
        2 * ((d / 2 + 5 * high) * 10 ^ ds.length) + (d % 2 * 10 ^ ds.length + Radix.value 10 ds) := by
      have hd : d = 2 * (d / 2) + d % 2 := by omega
      generalize d / 2 = half, d % 2 = odd at hd
      subst hd
      ring
    rw [@Radix.value_cons 10 d ds, List.length_cons, hsplit, Nat.mul_add_div (by decide), divide, hcarry]
    dsimp only
    rw [Radix.value_cons, length_divide, ih (Nat.mod_lt _ (by decide))]

-- The zeros in front are cleared.
theorem cleared_divide (hle : cleared ≤ i) (ds : List Nat) : (divide i cleared carry ds).2 =
    if i = cleared then cleared + ((divide i cleared carry ds).1.takeWhile (· = 0)).length else cleared := by
  induction ds generalizing i cleared carry with
  | nil => simp [divide]
  | cons d ds ih =>
    rw [divide]
    dsimp only
    by_cases hi : i = cleared
    case neg =>
      rw [if_neg (fun h => hi h.1), if_neg hi, ih (Nat.le_succ_of_le hle), if_neg (by omega)]
    case pos =>
      by_cases hhalf : d / 2 + carry = 0
      case pos =>
        rw [if_pos ⟨hi, hhalf⟩, if_pos hi, ih (by omega), if_pos (by omega), List.takeWhile_cons_of_pos (by simpa using hhalf),
          List.length_cons]
        omega
      case neg =>
        rw [if_neg (fun h => hhalf h.2), if_pos hi, ih (by omega), if_neg (by omega),
          List.takeWhile_cons_of_neg (by simpa using hhalf)]
        rfl

theorem or_bit {c : UInt8} {b a : Nat} (ha : a < 8) (hb : b < 2) (hc : c.toNat < 2 ^ a) :
    (c ||| UInt8.ofNat (b <<< a)).toNat = c.toNat + b * 2 ^ a := by
  have hall : ∀ (c : Fin 256) (a : Fin 8) (b : Fin 2), c.val < 2 ^ a.val →
      (UInt8.ofNat c.val ||| UInt8.ofNat (b.val <<< a.val)).toNat = c.val + b.val * 2 ^ a.val := by decide +kernel
  simpa using hall ⟨c.toNat, c.toNat_lt⟩ ⟨a, ha⟩ ⟨b, hb⟩ hc

theorem modify_replicate {α : Type*} (m : Nat) (z c : α) (rest : List α) (f : α → α) :
    (List.replicate m z ++ c :: rest).modify m f = List.replicate m z ++ f c :: rest := by
  induction m with
  | zero      => rfl
  | succ m ih => simpa [List.replicate_succ] using ih

-- The digits that are not cleared.
def Bits.remaining (s : Bits) : List Nat :=
  s.digits.drop s.cleared

def bytesValue (s : Bytes) : Nat :=
  Radix.value 256 (s.map UInt8.toNat)

-- The number that is divided, of at most `n` digits: the low bits are at the end of the buffer.
structure Divided (N n : Nat) (s : Bits) (m : Nat) (c : UInt8) (rest : Bytes) : Prop where
  digits  : ∀ d ∈ s.digits, d < 10
  cleared : s.cleared ≤ s.digits.length
  head    : s.remaining.head? ≠ some 0
  usg     : s.usg = List.replicate m 0 ++ c :: rest
  atByte  : s.atByte = m
  atBit   : s.atBit < 8
  low     : c.toNat < 2 ^ s.atBit
  size    : m + 1 + rest.length = n
  number  : N = (Radix.value 10 s.remaining * 2 ^ s.atBit + c.toNat) * 256 ^ rest.length + bytesValue rest
  minimal : 8 * rest.length + s.atBit = 0 ∨ 2 ^ (8 * rest.length + s.atBit - 1) ≤ N

variable {m : Nat} {c : UInt8} {rest : Bytes}

theorem drop_takeWhile_length (ds : List Nat) : ds.drop (ds.takeWhile (· = 0)).length = ds.dropWhile (· = 0) := by
  induction ds with
  | nil => rfl
  | cons d ds ih =>
    by_cases hd : d = 0
    case pos => simpa [hd] using ih
    case neg => simp [hd]

theorem value_pos (hne : ds ≠ []) (hhead : ds.head? ≠ some 0) : 0 < Radix.value 10 ds := by
  obtain ⟨d, ds, rfl⟩ := List.exists_cons_of_ne_nil hne
  have hd : 0 < d := Nat.pos_of_ne_zero fun h => hhead (by rw [h]; rfl)
  rw [Radix.value_cons]
  exact Nat.add_pos_left (Nat.mul_pos hd (Nat.pow_pos (by decide))) _

theorem value_mod_two (ds : List Nat) : Radix.value 10 ds % 2 = ds.getLast?.getD 0 % 2 := by
  induction ds using List.reverseRecOn with
  | nil                    => rfl
  | append_singleton ds d _ => rw [Radix.value_concat]; simp; omega

theorem bytesValue_cons (c : UInt8) (rest : Bytes) : bytesValue (c :: rest) = c.toNat * 256 ^ rest.length + bytesValue rest := by
  simp [bytesValue, Radix.value_cons]

theorem two_pow_bits (l a : Nat) : 2 ^ (8 * l + a) = 2 ^ a * 256 ^ l := by
  rw [Nat.pow_add, Nat.pow_mul, Nat.mul_comm]

-- As long as there are digits, the number has more bits than were stored.
theorem Divided.two_pow_le (h : Divided N n s m c rest) (hmore : s.remaining ≠ []) :
    2 ^ (8 * rest.length + s.atBit) ≤ N := by
  have hpos := value_pos hmore h.head
  rw [two_pow_bits, h.number]
  refine Nat.le_trans (Nat.mul_le_mul_right _ ?_) (Nat.le_add_right _ _)
  exact Nat.le_trans (Nat.le_mul_of_pos_left _ hpos) (Nat.le_add_right _ _)

-- A byte for each digit is more than enough.
theorem Divided.room (h : Divided N n s m c rest) (hlt : N < 10 ^ n) (hmore : s.remaining ≠ []) (hbit : s.atBit = 7) :
    m ≠ 0 := by
  rintro rfl
  have hle := h.two_pow_le hmore
  have hsize : n = rest.length + 1 := by have := h.size; omega
  rw [hbit] at hle
  rw [hsize, Nat.pow_succ] at hlt
  have hpow : 10 ^ rest.length * 10 ≤ 256 ^ rest.length * 2 ^ 7 :=
    Nat.mul_le_mul (Nat.pow_le_pow_left (by decide) _) (by decide)
  rw [two_pow_bits, Nat.mul_comm] at hle
  omega

theorem last_mod_two (hmore : s.remaining ≠ []) : s.digits.getLast?.getD 0 % 2 = Radix.value 10 s.remaining % 2 := by
  rw [value_mod_two, Bits.remaining, List.getLast?_drop, if_neg]
  exact fun hle => hmore (List.drop_eq_nil_of_le hle)

-- What a round does to the digits.
structure Halved (s t : Bits) : Prop where
  digits  : ∀ d ∈ t.digits, d < 10
  cleared : t.cleared ≤ t.digits.length
  head    : t.remaining.head? ≠ some 0
  value   : Radix.value 10 t.remaining = Radix.value 10 s.remaining / 2

theorem Divided.halved (h : Divided N n s m c rest) (usg : Bytes) (atByte : Int) (atBit : Nat) :
    Halved s ⟨s.digits.take s.cleared ++ (divide s.cleared s.cleared 0 s.remaining).1,
      (divide s.cleared s.cleared 0 s.remaining).2, usg, atByte, atBit⟩ := by
  have hremaining : ∀ d ∈ s.remaining, d < 10 := fun d hd => h.digits d (List.mem_of_mem_drop hd)
  have hvalue := @value_divide s.cleared s.cleared 0 (by decide) s.remaining
  have hdigits := @lt_of_mem_divide s.remaining s.cleared s.cleared 0 hremaining (by decide)
  have hcleared := @cleared_divide s.cleared s.cleared 0 (Nat.le_refl _) s.remaining
  have htake : (s.digits.take s.cleared).length = s.cleared := List.length_take_of_le h.cleared
  rw [Nat.mul_zero, Nat.zero_mul, Nat.zero_add] at hvalue
  rw [if_pos rfl] at hcleared
  rw [hcleared]
  generalize (divide s.cleared s.cleared 0 s.remaining).1 = ds at hvalue hdigits
  have hdrop : (s.digits.take s.cleared ++ ds).drop (s.cleared + (ds.takeWhile (· = 0)).length) = ds.dropWhile (· = 0) := by
    rw [← drop_takeWhile_length, ← List.drop_drop, List.drop_left' htake]
  constructor
  case digits =>
    exact List.forall_mem_append.mpr ⟨fun d hd => h.digits d (List.mem_of_mem_take hd), hdigits⟩
  case cleared =>
    rw [List.length_append, htake]
    exact Nat.add_le_add_left (List.takeWhile_prefix _).length_le _
  case head =>
    rw [Bits.remaining, hdrop]
    exact head_dropWhile ds
  case value =>
    rw [Bits.remaining, hdrop, value_dropWhile, hvalue]

-- A round that stores a bit inside of the buffer.
theorem Divided.stored (h : Divided N n s m c rest) (hmore : s.remaining ≠ []) (hroom : s.atBit = 7 → m ≠ 0) :
    ∃ t c', Next bitRound s t ∧ Halved s t ∧ t.usg = List.replicate m 0 ++ c' :: rest ∧
      c'.toNat = c.toNat + Radix.value 10 s.remaining % 2 * 2 ^ s.atBit ∧
      t.atByte = (if s.atBit = 7 then s.atByte - 1 else s.atByte) ∧ t.atBit = (if s.atBit = 7 then 0 else s.atBit + 1) := by
  have hcont : ¬s.digits.length ≤ s.cleared := fun hle => hmore (List.drop_eq_nil_of_le hle)
  have hinside : ¬(s.atByte < 0 ∨ s.usg.length ≤ s.atByte) := by
    rw [h.atByte, h.usg, List.length_append, List.length_replicate, List.length_cons]
    omega
  have hassert : ¬(s.atBit = 7 ∧ s.atByte - 1 < 0) := by
    rintro ⟨hbit, hneg⟩
    have hne := hroom hbit
    rw [h.atByte] at hneg
    omega
  have hnext : Next bitRound s ⟨s.digits.take s.cleared ++ (divide s.cleared s.cleared 0 s.remaining).1,
      (divide s.cleared s.cleared 0 s.remaining).2,
      s.usg.modify s.atByte.toNat (· ||| UInt8.ofNat ((s.digits.getLast?.getD 0 % 2) <<< s.atBit)),
      if s.atBit = 7 then s.atByte - 1 else s.atByte, if s.atBit = 7 then 0 else s.atBit + 1⟩ := by
    unfold Next bitRound
    rw [if_neg hcont]
    dsimp only
    rw [if_neg hinside, if_neg hassert]
    rfl
  refine ⟨_, _, hnext, h.halved _ _ _, ?_, or_bit h.atBit (Nat.mod_lt _ (by decide)) h.low, rfl, rfl⟩
  rw [h.usg, h.atByte, last_mod_two hmore]
  exact modify_replicate m 0 c rest _

theorem Divided.next (h : Divided N n s m c rest) (hlt : N < 10 ^ n) (hmore : s.remaining ≠ []) :
    ∃ t m' c' rest', Next bitRound s t ∧ Divided N n t m' c' rest' ∧
      Radix.value 10 t.remaining = Radix.value 10 s.remaining / 2 := by
  obtain ⟨t, c', hnext, hhalved, husg, hc', hatByte, hatBit⟩ := h.stored hmore (h.room hlt hmore)
  have hle := h.two_pow_le hmore
  have hnumber : Radix.value 10 s.remaining * 2 ^ s.atBit + c.toNat =
      Radix.value 10 t.remaining * 2 ^ (s.atBit + 1) + c'.toNat := by
    rw [hc', hhalved.value, Nat.pow_succ]
    generalize Radix.value 10 s.remaining = v
    have hv : v = v / 2 * 2 + v % 2 := by omega
    generalize v / 2 = half, v % 2 = odd at hv
    subst hv
    ring
  have hlow : c'.toNat < 2 ^ (s.atBit + 1) := by
    have hbit : Radix.value 10 s.remaining % 2 * 2 ^ s.atBit ≤ 1 * 2 ^ s.atBit := Nat.mul_le_mul_right _ (by omega)
    have hc := h.low
    rw [hc', Nat.pow_succ]
    omega
  have hnumber' := h.number
  rw [hnumber] at hnumber'
  by_cases hbit : s.atBit = 7
  case neg =>
    rw [if_neg hbit] at hatByte hatBit
    refine ⟨t, m, c', rest, hnext, ⟨hhalved.digits, hhalved.cleared, hhalved.head, husg, hatByte.trans h.atByte, ?_, ?_,
      h.size, ?_, .inr ?_⟩, hhalved.value⟩
    · have hlt8 := h.atBit
      omega
    · rwa [hatBit]
    · rwa [hatBit]
    · rwa [hatBit, ← Nat.add_assoc, Nat.add_sub_cancel]
  case pos =>
    -- The byte is full.
    obtain ⟨m, rfl⟩ := Nat.exists_eq_succ_of_ne_zero (h.room hlt hmore hbit)
    rw [if_pos hbit] at hatByte hatBit
    rw [hbit] at hnumber' hle
    refine ⟨t, m, 0, c' :: rest, hnext, ⟨hhalved.digits, hhalved.cleared, hhalved.head, ?_, ?_, ?_, ?_, ?_, ?_, .inr ?_⟩,
      hhalved.value⟩
    · rw [husg, List.replicate_succ', List.append_assoc]
      rfl
    · rw [hatByte, h.atByte]
      simp
    · rw [hatBit]
      decide
    · rw [hatBit]
      decide
    · rw [List.length_cons, ← h.size]
      omega
    · rw [hnumber', hatBit, bytesValue_cons, List.length_cons, Nat.pow_succ]
      simp
      ring
    · rw [hatBit, List.length_cons]
      exact hle

theorem Divided.reaches (h : Divided N n s m c rest) (hlt : N < 10 ^ n) :
    ∃ t m' c' rest', ReflTransGen (Next bitRound) s t ∧ Divided N n t m' c' rest' ∧ t.remaining = [] := by
  generalize hv : Radix.value 10 s.remaining = v
  induction v using Nat.strong_induction_on generalizing s m c rest with
  | h v ih =>
    by_cases hmore : s.remaining = []
    case pos => exact ⟨s, m, c, rest, .refl, h, hmore⟩
    case neg =>
      obtain ⟨t, m', c', rest', hnext, ht, hvalue⟩ := h.next hlt hmore
      have hpos := value_pos hmore h.head
      obtain ⟨u, hu⟩ := ih _ (by omega) ht rfl
      obtain ⟨m'', c'', rest'', hreach, hdone⟩ := hu
      exact ⟨u, m'', c'', rest'', hreach.head hnext, hdone⟩

-- A number as large as this has a byte in front that is not zero.
theorem head_ne_zero {bytes : Bytes} (hne : bytes ≠ []) (h : 256 ^ (bytes.length - 1) ≤ bytesValue bytes) :
    (bytes.map UInt8.toNat).head? ≠ some 0 := by
  obtain ⟨c, rest, rfl⟩ := List.exists_cons_of_ne_nil hne
  have hlt : bytesValue rest < 256 ^ rest.length := by
    have hrest := @Radix.value_lt 256 (rest.map UInt8.toNat)
      (fun d hd => by obtain ⟨c, -, rfl⟩ := List.mem_map.mp hd; exact c.toNat_lt) (by decide)
    rwa [List.length_map] at hrest
  rw [bytesValue_cons, List.length_cons, Nat.add_sub_cancel] at h
  intro hzero
  rw [List.map_cons, List.head?_cons, Option.some.injEq] at hzero
  rw [hzero] at h
  omega

theorem digits_bytesValue {bytes : Bytes} (h : bytes ≠ [] → 256 ^ (bytes.length - 1) ≤ bytesValue bytes) :
    bytes.map UInt8.toNat = Radix.digits 256 (bytesValue bytes) := by
  refine (Radix.digits_value (by decide) ?_ ?_).symm
  case refine_1 =>
    intro d hd
    obtain ⟨c, -, rfl⟩ := List.mem_map.mp hd
    exact c.toNat_lt
  case refine_2 =>
    by_cases hne : bytes = []
    case pos => simp [hne]
    case neg => exact head_ne_zero hne (h hne)

-- Where no digit is left, the number is in the buffer, without a zero in front.
theorem Divided.finished (h : Divided N n s m c rest) (hdone : s.remaining = []) :
    ∃ bytes, finish s = some bytes ∧ bytes.map UInt8.toNat = Radix.digits 256 N := by
  have hne : s.usg ≠ [] := by rw [h.usg]; simp
  have hnumber := h.number
  rw [hdone, Radix.value_nil, Nat.zero_mul, Nat.zero_add, ← bytesValue_cons] at hnumber
  rw [finish, if_neg hne, h.usg, h.atByte, hnumber]
  by_cases hbit : s.atBit = 0
  case pos =>
    have hc : c.toNat = 0 := by have := h.low; rw [hbit] at this; omega
    have hrest : bytesValue (c :: rest) = bytesValue rest := by rw [bytesValue_cons, hc, Nat.zero_mul, Nat.zero_add]
    rw [if_pos hbit, hrest]
    refine ⟨rest, ?_, digits_bytesValue fun hne => ?_⟩
    · rw [show ((m : Int) + 1).toNat = m + 1 by omega, ← List.drop_drop, List.drop_left' List.length_replicate]
      rfl
    · have hpos := List.length_pos_iff.mpr hne
      have hmin := h.minimal.resolve_left (by omega)
      rw [hnumber, hrest, hbit, show 8 * rest.length + 0 - 1 = 8 * (rest.length - 1) + 7 by omega, two_pow_bits] at hmin
      exact Nat.le_trans (Nat.le_mul_of_pos_left _ (by decide)) hmin
  case neg =>
    rw [if_neg hbit]
    refine ⟨c :: rest, ?_, digits_bytesValue fun _ => ?_⟩
    · rw [Int.toNat_natCast, List.drop_left' List.length_replicate]
    · have hmin := h.minimal.resolve_left (by omega)
      rw [hnumber, show 8 * rest.length + s.atBit - 1 = 8 * rest.length + (s.atBit - 1) by omega, two_pow_bits] at hmin
      rw [List.length_cons, Nat.add_sub_cancel]
      exact Nat.le_trans (Nat.le_mul_of_pos_left _ (Nat.two_pow_pos _)) hmin

theorem Scanned.divided {s : Scan} (h : Scanned data data.length s) (hdigits : ∀ c ∈ data, isdigit c) (hne : data ≠ []) :
    Divided (decimal data) data.length (startBits data s) (data.length - 1) 0 [] := by
  have hpos := List.length_pos_iff.mpr hne
  have hds : (startBits data s).digits = significant data := h.digits.trans (by rw [List.take_length])
  have hremaining : (startBits data s).remaining = significant data := hds
  constructor
  case digits =>
    rw [hds]
    intro d hd
    obtain ⟨c, hc, rfl⟩ := List.mem_map.mp ((List.dropWhile_suffix _).subset hd)
    exact (digit_of_isdigit (hdigits c hc)).1
  case cleared => exact Nat.zero_le _
  case head =>
    rw [hremaining]
    exact head_dropWhile _
  case usg =>
    rw [show data.length = data.length - 1 + 1 by omega, ← List.replicate_one, List.replicate_append_replicate]
    exact congrArg (List.replicate · 0) (by simp; omega)
  case atByte => exact (Int.natCast_sub hpos).symm
  case atBit  => exact Nat.succ_pos 7
  case low    => exact Nat.one_pos
  case size   => simp; omega
  case number => rw [hremaining, value_significant]; simp [startBits, bytesValue]
  case minimal => exact .inl rfl

-- What is promised of a call: it returns, with the bytes of the number, or with NULL if some character is not a digit.
structure Decoded (data : Bytes) (nData : Int) (result : Option Bytes) : Prop where
  returns : ∃ fuel, eggDecimalDecode fuel data nData = some (.returned result)
  number  : (∀ c ∈ characters data nData, isdigit c) →
    ∃ bytes, result = some bytes ∧ bytes.map UInt8.toNat = Radix.digits 256 (decimal (characters data nData))
  refused : (∃ c ∈ characters data nData, ¬isdigit c) → result = none

-- Both loops end with a result.
theorem eggDecimalDecode_digits (hdigits : ∀ c ∈ characters data nData, isdigit c) (hne : characters data nData ≠ [])
    (hlen : (characters data nData).length < 2 ^ 32) : ∃ result, Decoded data nData result := by
  generalize hs : characters data nData = s at hdigits hne hlen
  obtain ⟨fuel, scan, hrun, hscan⟩ := scan_digits hdigits hlen
  obtain ⟨t, m, c, rest, hreach, ht, hdone⟩ := (hscan.divided hdigits hne).reaches (decimal_lt hdigits)
  obtain ⟨bytes, hfinish, hbytes⟩ := ht.finished hdone
  have hstop : bitRound t = .inl (.ok t) := if_pos (List.drop_eq_nil_iff.mp hdone)
  obtain ⟨fuel', hrun'⟩ := run_eq_some_iff.mpr ⟨t, hreach, hstop⟩
  refine ⟨some bytes, ⟨max fuel fuel', ?_⟩, fun _ => ⟨bytes, rfl, hs ▸ hbytes⟩, ?_⟩
  · rw [eggDecimalDecode, hs, run_mono (Nat.le_max_left _ _) hrun, Option.bind_some]
    dsimp only
    rw [run_mono (Nat.le_max_right _ _) hrun', Option.map_some]
    exact congrArg (fun r => some (Outcome.returned r)) hfinish
  · rintro ⟨c, hc, hnot⟩
    exact absurd (hdigits c (hs ▸ hc)) hnot

theorem eggDecimalDecode_nonDigit (h : ∃ c ∈ (characters data nData).take (2 ^ 32), ¬isdigit c) :
    ∃ result, Decoded data nData result := by
  generalize hs : characters data nData = s at h
  have hfirst : ∃ k : Nat, ∃ c : UInt8, (s.take (2 ^ 32))[k]? = some c ∧ ¬isdigit c := by
    obtain ⟨c, hc, hnot⟩ := h
    obtain ⟨k, hget⟩ := List.mem_iff_getElem?.mp hc
    exact ⟨k, c, hget, hnot⟩
  obtain ⟨c, hget, hnot⟩ := Nat.find_spec hfirst
  have hmin := fun j => @Nat.find_min _ _ hfirst j
  generalize Nat.find hfirst = k at hget hmin
  have hk : k < 2 ^ 32 := by
    have hlt := (List.getElem?_eq_some_iff.mp hget).1
    rw [List.length_take] at hlt
    exact lt_of_lt_of_le hlt (min_le_left _ _)
  rw [List.getElem?_take_of_lt hk] at hget
  have hbefore : ∀ d ∈ s.take k, isdigit d := by
    intro d hd
    obtain ⟨j, hj⟩ := List.mem_iff_getElem?.mp hd
    have hlt : j < k := by
      have hlt := (List.getElem?_eq_some_iff.mp hj).1
      rw [List.length_take] at hlt
      exact lt_of_lt_of_le hlt (min_le_left _ _)
    rw [List.getElem?_take_of_lt hlt] at hj
    by_contra hd
    exact hmin j hlt ⟨d, by rwa [List.getElem?_take_of_lt (Nat.lt_trans hlt hk)], hd⟩
  obtain ⟨fuel, hrun⟩ := scan_nonDigit hbefore hget hnot hk
  refine ⟨none, ⟨fuel, ?_⟩, fun hdigits => ?_, fun _ => rfl⟩
  · rw [eggDecimalDecode, hs, hrun]
    rfl
  · exact absurd (hdigits c (hs ▸ List.mem_of_getElem? hget)) hnot

theorem eggDecimalDecode_empty (h : characters data nData = []) {fuel : Nat} {outcome : Outcome}
    (hresult : eggDecimalDecode fuel data nData = some outcome) : outcome = .returned none := by
  rw [eggDecimalDecode, h] at hresult
  have hscan : scanRound [] (startScan []) = .inl (.ok (startScan [])) := rfl
  have hbits : bitRound (startBits [] (startScan [])) = .inl (.ok (startBits [] (startScan []))) := rfl
  cases fuel with
  | zero => cases hresult
  | succ fuel =>
    rw [run_of_stop hscan, Option.bind_some] at hresult
    dsimp only at hresult
    rw [run_of_stop hbits] at hresult
    exact (Option.some.inj hresult).symm

theorem ne_nil_of_decoded {result : Option Bytes} (h : Decoded data nData result) : characters data nData ≠ [] := by
  intro hnil
  obtain ⟨fuel, hresult⟩ := h.returns
  obtain ⟨bytes, heq, -⟩ := h.number (by simp [hnil])
  cases eggDecimalDecode_empty hnil hresult
  cases heq

-- The number is computed from one digit or more, as many as a `guint` counts.
theorem decoded_iff (data : Bytes) (nData : Int) :
    (∃ result, Decoded data nData result) ↔
      (∃ c ∈ (characters data nData).take (2 ^ 32), ¬isdigit c) ∨
        characters data nData ≠ [] ∧ (characters data nData).length < 2 ^ 32 := by
  by_cases hnot : ∃ c ∈ (characters data nData).take (2 ^ 32), ¬isdigit c
  case pos => exact ⟨fun _ => .inl hnot, fun _ => eggDecimalDecode_nonDigit hnot⟩
  case neg =>
    have hdigits : ∀ c ∈ (characters data nData).take (2 ^ 32), isdigit c := by
      intro c hc
      by_contra hd
      exact hnot ⟨c, hc, hd⟩
    rw [or_iff_right hnot]
    constructor
    case mpr =>
      rintro ⟨hne, hlen⟩
      rw [List.take_of_length_le (Nat.le_of_lt hlen)] at hdigits
      exact eggDecimalDecode_digits hdigits hne hlen
    case mp =>
      rintro ⟨result, h⟩
      refine ⟨ne_nil_of_decoded h, ?_⟩
      obtain ⟨fuel, hresult⟩ := h.returns
      by_contra hlen
      rw [eggDecimalDecode, Option.bind_eq_some_iff] at hresult
      obtain ⟨scan, hrun, -⟩ := hresult
      exact scan_endless hdigits (Nat.not_lt.mp hlen) ⟨fuel, scan, hrun⟩

-- The empty text has no character that is not a digit.
theorem not_decoded_empty : ¬∃ result, Decoded [] 0 result :=
  fun ⟨_, h⟩ => ne_nil_of_decoded h rfl

end Decimal
