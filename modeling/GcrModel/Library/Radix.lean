import Mathlib.Data.List.Induction
import Mathlib.Data.Nat.Digits.Defs

-- Numbers as digits in a base, the most significant one first, and how they are read into a register.
namespace Radix

variable {b d m n v w : Nat} {ds es : List Nat}

def value (b : Nat) (ds : List Nat) : Nat :=
  Nat.ofDigits b ds.reverse

@[simp]
theorem value_nil : value b [] = 0 :=
  rfl

theorem value_append : value b (ds ++ es) = value b ds * b ^ es.length + value b es := by
  rw [value, List.reverse_append, Nat.ofDigits_append, List.length_reverse, Nat.add_comm, Nat.mul_comm]
  rfl

theorem value_concat : value b (ds ++ [d]) = value b ds * b + d := by
  simp [value, Nat.ofDigits_cons, Nat.mul_comm, Nat.add_comm]

theorem value_cons : value b (d :: ds) = d * b ^ ds.length + value b ds := by
  have h := @value_append b [d] ds
  simpa [value] using h

theorem value_lt (h : ∀ d ∈ ds, d < b) (hb : 1 < b) : value b ds < b ^ ds.length := by
  have hlt := Nat.ofDigits_lt_base_pow_length (b := b) (l := ds.reverse) hb (by simpa using h)
  simpa [value] using hlt

theorem le_value_append (hb : 0 < b) : value b ds ≤ value b (ds ++ es) := by
  rw [value_append]
  exact Nat.le_add_right_of_le (Nat.le_mul_of_pos_right _ (Nat.pow_pos hb))

-- The digits of a number, none for zero.
def digits (b n : Nat) : List Nat :=
  (Nat.digits b n).reverse

theorem value_digits : value b (digits b n) = n := by
  simp [value, digits, Nat.ofDigits_digits]

theorem lt_of_mem_digits (hb : 1 < b) (h : d ∈ digits b n) : d < b :=
  Nat.digits_lt_base hb (by simpa [digits] using h)

-- There is just one way to write a number without a zero in front.
theorem digits_value (hb : 1 < b) (h : ∀ d ∈ ds, d < b) (hzero : ds.head? ≠ some 0) : digits b (value b ds) = ds := by
  rw [digits, value, Nat.digits_ofDigits b hb, List.reverse_reverse]
  · simpa using h
  · intro hne heq
    rw [List.getLast_reverse] at heq
    cases ds
    case nil      => simp at hne
    case cons d ds => simp_all

-- Exactly so many digits of a number.
def fixed (b : Nat) : Nat → Nat → List Nat
  | 0,     _ => []
  | k + 1, n => fixed b k (n / b) ++ [n % b]

theorem length_fixed (b k n : Nat) : (fixed b k n).length = k := by
  induction k generalizing n with
  | zero      => rfl
  | succ k ih => simp [fixed, ih]

theorem fixed_eq_map (b k n : Nat) : fixed b k n = (List.range k).map fun i => n / b ^ (k - (i + 1)) % b := by
  induction k generalizing n with
  | zero      => rfl
  | succ k ih =>
    rw [fixed, ih, List.range_succ, List.map_append]
    congr 1
    · apply List.map_congr_left
      intro i hi
      have hlt := List.mem_range.mp hi
      rw [Nat.div_div_eq_div_mul, ← Nat.pow_succ', show (k - (i + 1)).succ = k + 1 - (i + 1) by omega]
    · simp

theorem value_fixed (b k n : Nat) : value b (fixed b k n) = n % b ^ k := by
  induction k generalizing n with
  | zero      => simp [fixed, Nat.mod_one]
  | succ k ih =>
    rw [fixed, value_concat, ih, Nat.pow_succ', Nat.mod_mul, Nat.add_comm, Nat.mul_comm]

theorem lt_of_mem_fixed {k : Nat} (hb : 0 < b) (h : d ∈ fixed b k n) : d < b := by
  rw [fixed_eq_map] at h
  obtain ⟨i, -, rfl⟩ := List.mem_map.mp h
  exact Nat.mod_lt _ hb

theorem fixed_eq_digits {k : Nat} (hb : 1 < b) (h : n < b ^ k) :
    fixed b k n = List.replicate (k - (digits b n).length) 0 ++ digits b n := by
  induction k generalizing n with
  | zero =>
    obtain rfl : n = 0 := by simpa using h
    simp [fixed, digits]
  | succ k ih =>
    have hdiv : n / b < b ^ k := Nat.div_lt_of_lt_mul (by rwa [← Nat.pow_succ'])
    rw [fixed, ih hdiv]
    cases n with
    | zero =>
      have hnil : digits b 0 = [] := by simp [digits]
      rw [Nat.zero_div, hnil]
      simp [List.replicate_succ']
    | succ n =>
      have hdigits : digits b (n + 1) = digits b ((n + 1) / b) ++ [(n + 1) % b] := by
        rw [digits, Nat.digits_def' hb (Nat.succ_pos n), List.reverse_cons]
        rfl
      rw [hdigits, List.length_append, List.length_singleton, Nat.add_sub_add_right, List.append_assoc]

-- A register holds the numbers below `m`. A digit more is read into it, unless it gets smaller on the way.
def shift (m b v d : Nat) : Option Nat :=
  let v' := v * b % m
  if v' < v then none
  else
    let w := (v' + d) % m
    if w < v' then none else some w

def read (m b v : Nat) (ds : List Nat) : Option Nat :=
  ds.foldlM (shift m b) v

@[simp]
theorem read_nil : read m b v [] = some v :=
  rfl

theorem read_cons : read m b v (d :: ds) = (shift m b v d).bind fun w => read m b w ds :=
  rfl

theorem read_append : read m b v (ds ++ es) = (read m b v ds).bind fun w => read m b w es :=
  List.foldlM_append

theorem shift_of_lt (h : v * b + d < m) (hb : 0 < b) : shift m b v d = some (v * b + d) := by
  have hle : v ≤ v * b := Nat.le_mul_of_pos_right v hb
  have hmod : v * b % m = v * b := Nat.mod_eq_of_lt (Nat.lt_of_le_of_lt (Nat.le_add_right _ _) h)
  simp only [shift, hmod, Nat.mod_eq_of_lt h]
  rw [if_neg (by omega), if_neg (by omega)]

theorem eq_of_shift (h : shift m b v d = some w) : w = (v * b + d) % m := by
  simp only [shift] at h
  split at h
  case isTrue => simp at h
  case isFalse =>
    split at h
    case isTrue => simp at h
    case isFalse => rw [← Option.some.inj h, Nat.mod_add_mod]

-- A number that fits is read.
theorem read_of_lt (hb : 0 < b) (h : value b ds < m) : read m b 0 ds = some (value b ds) := by
  induction ds using List.reverseRecOn with
  | nil => rfl
  | append_singleton ds d ih =>
    have hds : value b ds < m := Nat.lt_of_le_of_lt (le_value_append hb) h
    rw [value_concat] at h ⊢
    rw [read_append, ih hds]
    simp [read_cons, shift_of_lt h hb]

theorem eq_of_read (h : read m b 0 ds = some w) : w = value b ds % m := by
  induction ds using List.reverseRecOn generalizing w with
  | nil =>
    cases h
    rw [value_nil, Nat.zero_mod]
  | append_singleton ds d ih =>
    rw [read_append, Option.bind_eq_some_iff] at h
    obtain ⟨v, hv, h⟩ := h
    have hw : shift m b v d = some w := by simpa [read_cons] using h
    rw [value_concat, eq_of_shift hw, ih hv]
    simp [Nat.add_mod, Nat.mul_mod]

end Radix

-- The bits of a byte.
namespace Octet

variable {c : UInt8}

theorem toNat_and_127 : (c &&& 0x7F).toNat = c.toNat % 128 := by
  rw [UInt8.toNat_and]
  exact Nat.and_two_pow_sub_one_eq_mod c.toNat 7

theorem and_127_eq_iff : c &&& 0x7F = c ↔ c < 128 := by
  rw [← UInt8.toNat_inj, toNat_and_127, UInt8.lt_iff_toNat_lt]
  exact Nat.mod_eq_iff_lt (by decide)

theorem and_128_eq_zero_iff : c &&& 128 = 0 ↔ c < 128 := by
  have h : ∀ n : Fin 256, n.val &&& 128 = 0 ↔ n.val < 128 := by decide +kernel
  rw [← UInt8.toNat_inj, UInt8.toNat_and, UInt8.lt_iff_toNat_lt]
  exact h ⟨c.toNat, c.toNat_lt⟩

end Octet

-- Numbers in bytes of seven bits each, the most significant ones first. All but the last byte have the high bit.
namespace Septets

def digits (g : List UInt8) : List Nat :=
  g.map fun c => c.toNat % 128

def value (g : List UInt8) : Nat :=
  Radix.value 128 (digits g)

inductive Terminated : List UInt8 → Prop
  | mk {more : List UInt8} {last : UInt8} : (∀ d ∈ more, 128 ≤ d) → last < 128 → Terminated (more ++ [last])

-- A number as short as it can be.
structure Canonical (g : List UInt8) : Prop where
  terminated : Terminated g
  head       : g.head? ≠ some 0x80

variable {c d last : UInt8} {g g' more s : List UInt8} {n : Nat}

@[simp]
theorem digits_append : digits (g ++ g') = digits g ++ digits g' :=
  List.map_append

@[simp]
theorem length_digits : (digits g).length = g.length :=
  List.length_map _

theorem value_concat : value (g ++ [c]) = value g * 128 + c.toNat % 128 := by
  rw [value, digits_append]
  exact Radix.value_concat

theorem value_cons : value (c :: g) = c.toNat % 128 * 128 ^ g.length + value g := by
  simp [value, digits, Radix.value_cons]

theorem value_singleton (c : UInt8) : value [c] = c.toNat % 128 := by
  simp [value, digits, Radix.value_cons]

theorem le_value_append (g s : List UInt8) : value g ≤ value (g ++ s) := by
  rw [value, value, digits_append]
  exact Radix.le_value_append (by decide)

theorem Terminated.ne_nil (h : Terminated g) : g ≠ [] := by
  cases h
  simp

theorem Terminated.cons (h : Terminated g) (hc : 128 ≤ c) : Terminated (c :: g) := by
  obtain @⟨more, last, hmore, hlast⟩ := h
  exact @Terminated.mk (c :: more) last (by simpa [hc] using hmore) hlast

theorem terminated_singleton (hc : c < 128) : Terminated [c] :=
  @Terminated.mk [] c (by simp) hc

theorem terminated_cons_iff (hc : 128 ≤ c) : Terminated (c :: g) ↔ Terminated g := by
  refine ⟨fun h => ?_, fun h => h.cons hc⟩
  generalize hs : c :: g = s at h
  obtain @⟨more, last, hmore, hlast⟩ := h
  cases more with
  | nil =>
    obtain ⟨rfl, -⟩ := List.cons.inj hs
    exact absurd hlast (UInt8.not_lt.mpr hc)
  | cons d more =>
    obtain ⟨-, rfl⟩ := List.cons.inj hs
    exact .mk (fun d hd => hmore d (List.mem_cons_of_mem _ hd)) hlast

theorem terminated_cons_of_lt (hc : c < 128) : Terminated (c :: g) ↔ g = [] := by
  constructor
  case mp =>
    intro h
    generalize hs : c :: g = s at h
    obtain @⟨more, last, hmore, hlast⟩ := h
    cases more with
    | nil         => exact (List.cons.inj hs).2
    | cons d more =>
      obtain ⟨rfl, -⟩ := List.cons.inj hs
      exact absurd hc (UInt8.not_lt.mpr (hmore c List.mem_cons_self))
  case mpr =>
    rintro rfl
    exact terminated_singleton hc

theorem toNat_inj_of_mod (h : c.toNat % 128 = d.toNat % 128) (hiff : c < 128 ↔ d < 128) : c = d := by
  rw [UInt8.lt_iff_toNat_lt, UInt8.lt_iff_toNat_lt] at hiff
  have hc := c.toNat_lt
  have hd := d.toNat_lt
  have h128 : (128 : UInt8).toNat = 128 := rfl
  rw [← UInt8.toNat_inj]
  omega

-- The bytes are told by their digits.
theorem Terminated.eq_of_digits (h : Terminated g) (h' : Terminated g') (heq : digits g = digits g') : g = g' := by
  induction g generalizing g' with
  | nil => exact absurd rfl h.ne_nil
  | cons c g ih =>
    cases g' with
    | nil => exact absurd rfl h'.ne_nil
    | cons d g' =>
      obtain ⟨hhead, htail⟩ := List.cons.inj heq
      have hlen : g.length = g'.length := by simpa using congrArg List.length htail
      by_cases hc : c < 128
      case pos =>
        obtain rfl := (terminated_cons_of_lt hc).mp h
        obtain rfl := List.length_eq_zero_iff.mp hlen.symm
        have hd : d < 128 := by
          by_contra hd
          exact ((terminated_cons_iff (UInt8.not_lt.mp hd)).mp h').ne_nil rfl
        rw [toNat_inj_of_mod hhead (iff_of_true hc hd)]
      case neg =>
        have hg := (terminated_cons_iff (UInt8.not_lt.mp hc)).mp h
        have hd : ¬d < 128 := by
          intro hd
          obtain rfl := (terminated_cons_of_lt hd).mp h'
          exact hg.ne_nil (List.length_eq_zero_iff.mp hlen)
        rw [toNat_inj_of_mod hhead (iff_of_false hc hd),
          ih hg ((terminated_cons_iff (UInt8.not_lt.mp hd)).mp h') htail]

theorem digits_lt (h : n ∈ digits g) : n < 128 := by
  obtain ⟨c, -, rfl⟩ := List.mem_map.mp h
  exact Nat.mod_lt _ (by decide)

-- The digits of a number, one for zero.
theorem Canonical.digits_eq (h : Canonical g) :
    digits g = if value g = 0 then [0] else Radix.digits 128 (value g) := by
  obtain ⟨c, s, rfl⟩ := List.exists_cons_of_ne_nil h.terminated.ne_nil
  by_cases hzero : c.toNat % 128 = 0
  case pos =>
    have hc : c < 128 := by
      by_contra hc
      have hge := UInt8.le_iff_toNat_le.mp (UInt8.not_lt.mp hc)
      have h128 : (128 : UInt8).toNat = 128 := rfl
      have hlt := c.toNat_lt
      refine h.head (congrArg some (UInt8.toNat_inj.mp ?_))
      change c.toNat = 128
      omega
    obtain rfl := (terminated_cons_of_lt hc).mp h.terminated
    simp [value, digits, hzero, Radix.value_cons]
  case neg =>
    have hdigits : Radix.digits 128 (value (c :: s)) = digits (c :: s) :=
      Radix.digits_value (by decide) (fun d hd => digits_lt hd) (by simpa [digits] using hzero)
    have hpos : value (c :: s) ≠ 0 := by
      intro h
      rw [h] at hdigits
      simp [Radix.digits, digits] at hdigits
    rw [if_neg hpos, hdigits]

-- There is one way to write a number.
theorem Canonical.unique (h : Canonical g) (h' : Canonical g') (heq : value g = value g') : g = g' := by
  refine h.terminated.eq_of_digits h'.terminated ?_
  rw [h.digits_eq, h'.digits_eq, heq]

-- Bytes are numbers one after the other, and the last one may lack its end.
theorem exists_split (s : List UInt8) :
    ∃ (gs : List (List UInt8)) (rest : List UInt8), s = gs.flatten ++ rest ∧ (∀ g ∈ gs, Terminated g) ∧ ∀ d ∈ rest, 128 ≤ d := by
  induction s with
  | nil => exact ⟨[], [], rfl, by simp, by simp⟩
  | cons c s ih =>
    obtain ⟨gs, rest, rfl, hgs, hrest⟩ := ih
    by_cases hc : c < 128
    case pos => exact ⟨[c] :: gs, rest, rfl, by simpa [terminated_singleton hc] using hgs, hrest⟩
    case neg =>
      have hge := UInt8.not_lt.mp hc
      cases gs with
      | nil       => exact ⟨[], c :: rest, rfl, by simp, by simpa [hge] using hrest⟩
      | cons g gs =>
        obtain ⟨hg, hgs⟩ := List.forall_mem_cons.mp hgs
        exact ⟨(c :: g) :: gs, rest, rfl, by simpa [hg.cons hge] using hgs, hrest⟩

end Septets
