import GcrModel.Egg.Asn1x.Tlv
import GcrModel.GLib.Convert

-- `atoin` in egg-asn1x.c.
namespace Asn1x

open GLib

def mulGint (a b : Int) : Option Int :=
  if -2 ^ 31 ≤ a * b ∧ a * b < 2 ^ 31 then some (a * b) else none

-- The loop, over the digits from the last one on. A base that got too large does no harm unless it is used.
def atoinFrom (ret : Int) (base : Option Int) : Bytes → Option Int
  | []     => some ret
  | c :: s =>
    if ¬isdigit c then some (-1)
    else do
      let base ← base
      let digit ← mulGint (c.toNat - 48 : Nat) base
      let ret ← addGint ret digit
      atoinFrom ret (mulGint base 10) s

def atoin (p : Bytes) (digits : Nat) : Option Int :=
  if p.length < digits then none else atoinFrom 0 (some 1) (p.take digits).reverse

variable {s t : Bytes} {c : UInt8} {m : Nat}

-- The base, as long as it is a `gint`.
def power (m : Nat) : Option Int :=
  if 10 ^ m < 2 ^ 31 then some ((10 ^ m : Nat) : Int) else none

theorem mulGint_power : mulGint ((10 ^ m : Nat) : Int) 10 = power (m + 1) := by
  have heq : ((10 ^ m : Nat) : Int) * 10 = ((10 ^ (m + 1) : Nat) : Int) := by
    rw [Nat.pow_succ, Nat.cast_mul]
    rfl
  rw [mulGint, power, heq]
  generalize 10 ^ (m + 1) = base
  by_cases hlt : base < 2 ^ 31
  case pos => rw [if_pos hlt, if_pos (by omega)]
  case neg => rw [if_neg hlt, if_neg (by omega)]

theorem pow_lt_of_lt (h : m < 10) : 10 ^ m < 2 ^ 31 :=
  Nat.lt_of_le_of_lt (Nat.pow_le_pow_right (by decide) (Nat.le_of_lt_succ h)) (by decide)

theorem decimal_concat : decimal (s ++ [c]) = decimal s * 10 + (c.toNat - 48) := by
  simp [decimal, Radix.value_concat]

-- The digits at the end are read, if the number is a `gint`. What is in front of them has the next base.
theorem atoinFrom_append (hs : ∀ c ∈ s, isdigit c) (ret : Nat) (hlen : m + s.length ≤ 10)
    (hlt : ret + decimal s * 10 ^ m < 2 ^ 31) (t : Bytes) :
    atoinFrom ret (power m) (s.reverse ++ t) =
      atoinFrom ((ret + decimal s * 10 ^ m : Nat) : Int) (power (m + s.length)) t := by
  induction s using List.reverseRecOn generalizing ret m with
  | nil => simp [decimal]
  | append_singleton s c ih =>
    rw [List.length_append, List.length_singleton] at hlen
    have hpow : 10 ^ m < 2 ^ 31 := pow_lt_of_lt (by omega)
    have hc : isdigit c := hs c (by simp)
    have htotal : ret + decimal (s ++ [c]) * 10 ^ m = ret + (c.toNat - 48) * 10 ^ m + decimal s * 10 ^ (m + 1) := by
      rw [decimal_concat, Nat.add_mul, Nat.mul_assoc, ← Nat.pow_succ', Nat.add_assoc ret, Nat.add_comm (decimal s * _)]
    rw [htotal] at hlt ⊢
    have hmul : mulGint ((c.toNat - 48 : Nat) : Int) ((10 ^ m : Nat) : Int) = some (((c.toNat - 48) * 10 ^ m : Nat) : Int) := by
      rw [mulGint, ← Nat.cast_mul, if_pos (by omega)]
    have hadd : addGint (ret : Int) (((c.toNat - 48) * 10 ^ m : Nat) : Int) =
        some ((ret + (c.toNat - 48) * 10 ^ m : Nat) : Int) := by
      rw [addGint, ← Nat.cast_add, if_pos (by omega)]
    rw [List.reverse_append, List.reverse_singleton, List.append_assoc, List.singleton_append, atoinFrom,
      if_neg (not_not.mpr hc), power, if_pos hpow]
    rw [Option.bind_eq_bind, Option.bind_some, hmul, Option.bind_some, hadd, Option.bind_some, mulGint_power]
    rw [ih (fun d hd => hs d (by simp [hd])) _ (by omega) hlt, List.length_append, List.length_singleton, Nat.add_assoc m,
      Nat.add_comm 1]

theorem atoin_append (s t : Bytes) : atoin (s ++ t) s.length = atoinFrom 0 (power 0) s.reverse := by
  rw [atoin, if_neg (by simp), List.take_left]
  rfl

-- Up to ten digits are read, if the number is a `gint`.
theorem atoin_eq (hs : ∀ c ∈ s, isdigit c) (hlen : s.length ≤ 10) (hlt : decimal s < 2 ^ 31) (t : Bytes) :
    atoin (s ++ t) s.length = some (decimal s : Int) := by
  have heq := atoinFrom_append (m := 0) hs 0 (by omega) (by omega) []
  rw [List.append_nil] at heq
  rw [atoin_append]
  simpa [atoinFrom] using heq

-- Two characters are read as a number, or they are not both digits.
theorem atoin_two (c d : UInt8) (t : Bytes) :
    atoin (c :: d :: t) 2 = some (if isdigit c ∧ isdigit d then (decimal [c, d] : Int) else -1) := by
  have happend := atoin_append [c, d] t
  by_cases hd : isdigit d
  case pos =>
    by_cases hc : isdigit c
    case pos =>
      have hs : ∀ e ∈ [c, d], isdigit e := by simp [hc, hd]
      rw [if_pos ⟨hc, hd⟩]
      exact atoin_eq hs (by simp) (Nat.lt_trans (decimal_lt hs) (by simp)) t
    case neg =>
      have hs : ∀ e ∈ [d], isdigit e := by simp [hd]
      have hlt := decimal_lt hs
      rw [List.length_singleton] at hlt
      have heq := atoinFrom_append (m := 0) hs 0 (by simp) (by omega) [c]
      rw [if_neg fun h => hc h.1]
      rw [atoinFrom, if_pos hc] at heq
      exact happend.trans heq
  case neg =>
    rw [if_neg fun h => hd h.2]
    exact happend.trans (if_pos hd)

theorem decimal_printUnsigned {n : Nat} (h : n ≤ maxUint64) : decimal (printUnsigned n) = n := by
  have hparse := parseDigits_ascii (Nat.toDigits 10 n) 0
    (fun d hd => Nat.isDigit_of_mem_toDigits (by decide) (by decide) hd) (by simpa using h)
  obtain ⟨w, o, heq, hwhat⟩ := parseDigits_spec (fun c => @isdigit_of_mem_printUnsigned n c) 0 false (by decide)
  rw [printUnsigned, hparse, Nat.ofDigitChars_ten_toDigits] at heq
  cases heq
  simp only [Nat.zero_mul, Nat.zero_add, Bool.false_eq_true, false_and, or_false, true_and] at hwhat
  exact hwhat.1.symm

theorem length_printUnsigned_le {n k : Nat} (hk : 0 < k) (h : n < 10 ^ k) : (printUnsigned n).length ≤ k := by
  rw [printUnsigned, ascii, List.length_map]
  exact (Nat.length_toDigits_le_iff (by decide) hk).mpr h

theorem atoin_printUnsigned {n : Nat} (h : n < 2 ^ 31) : atoin (printUnsigned n) (printUnsigned n).length = some (n : Int) := by
  have hdecimal := @decimal_printUnsigned n (Nat.le_trans (Nat.le_of_lt h) (by decide))
  have heq := atoin_eq (fun c => @isdigit_of_mem_printUnsigned n c)
    (length_printUnsigned_le (by decide) (Nat.lt_trans h (by decide))) (by rwa [hdecimal]) []
  rwa [List.append_nil, hdecimal] at heq

-- Ten digits that are too large for a `gint`.
theorem atoin_overflow (hs : ∀ c ∈ s, isdigit c) (hlen : s.length = 10) (hge : 2 ^ 31 ≤ decimal s) :
    atoin s s.length = none := by
  obtain ⟨c, s, rfl⟩ := List.exists_cons_of_length_eq_add_one hlen
  obtain ⟨hc, hs⟩ := List.forall_mem_cons.mp hs
  rw [List.length_cons, Nat.add_right_cancel_iff] at hlen
  have hlt := decimal_lt hs
  rw [hlen] at hlt
  have hvalue : decimal (c :: s) = (c.toNat - 48) * 10 ^ 9 + decimal s := by
    simp [decimal, Radix.value_cons, hlen]
  have hnine : power 9 = some ((10 ^ 9 : Nat) : Int) := rfl
  have hrest := atoinFrom_append (m := 0) hs 0 (by omega) (by omega) [c]
  have happend := atoin_append (c :: s) []
  rw [List.append_nil] at happend
  rw [happend, List.reverse_cons]
  refine hrest.trans ?_
  rw [hlen, Nat.zero_add, Nat.zero_add, Nat.pow_zero, Nat.mul_one, atoinFrom, if_neg (not_not.mpr hc), hnine,
    Option.bind_eq_bind, Option.bind_some, mulGint, ← Nat.cast_mul]
  split
  case isFalse => rfl
  case isTrue hmul =>
    rw [Option.bind_some, addGint, if_neg (by omega)]
    rfl

theorem atoin_printUnsigned_overflow {n : Nat} (hge : 2 ^ 31 ≤ n) (hlt : n < 2 ^ 32) :
    atoin (printUnsigned n) (printUnsigned n).length = none := by
  have hdigits : ∀ c ∈ printUnsigned n, isdigit c := fun c => @isdigit_of_mem_printUnsigned n c
  have hdecimal := @decimal_printUnsigned n (Nat.le_trans (Nat.le_of_lt hlt) (by decide))
  have hle : (printUnsigned n).length ≤ 10 := length_printUnsigned_le (by decide) (Nat.lt_trans hlt (by decide))
  have hlow := decimal_lt hdigits
  rw [hdecimal] at hlow
  refine atoin_overflow hdigits ?_ (by rwa [hdecimal])
  by_contra hne
  have hpow : 10 ^ (printUnsigned n).length ≤ 10 ^ 9 := Nat.pow_le_pow_right (by decide) (by omega)
  omega

end Asn1x
