import Mathlib.Data.List.Basic

-- Base64 with the standard alphabet. The decoder is one that skips all other characters.
namespace Base64

abbrev Bytes := List UInt8

def pad : UInt8 := 61

-- The characters A-Z, a-z, 0-9, + and / in this order.
def alphabet (n : Nat) : UInt8 :=
  if n < 26 then UInt8.ofNat (n + 65)
  else if n < 52 then UInt8.ofNat (n + 71)
  else if n < 62 then UInt8.ofNat (n - 4)
  else if n = 62 then 43
  else 47

-- The number of a character. The padding counts as zero.
def rank (c : UInt8) : Option Nat :=
  if 65 ≤ c ∧ c ≤ 90 then some (c.toNat - 65)
  else if 97 ≤ c ∧ c ≤ 122 then some (c.toNat - 71)
  else if 48 ≤ c ∧ c ≤ 57 then some (c.toNat + 4)
  else if c = 43 then some 62
  else if c = 47 then some 63
  else if c = pad then some 0
  else none

@[grind =]
def encode : Bytes → Bytes
  | []               => []
  | [a]              => [alphabet (a.toNat / 4), alphabet (a.toNat % 4 * 16), pad, pad]
  | [a, b]           => [alphabet (a.toNat / 4), alphabet (a.toNat % 4 * 16 + b.toNat / 16),
    alphabet (b.toNat % 16 * 4), pad]
  | a :: b :: c :: l => [alphabet (a.toNat / 4), alphabet (a.toNat % 4 * 16 + b.toNat / 16),
    alphabet (b.toNat % 16 * 4 + c.toNat / 64), alphabet (c.toNat % 64)] ++ encode l
termination_by structural l => l

-- The decoder between two characters: the bits so far, the number of characters of the current group
-- and the last character.
structure Decoder where
  bits  : Nat := 0
  count : Nat := 0
  last  : UInt8 := 0

def Decoder.step (d : Decoder) (c : UInt8) : Decoder × Bytes :=
  match rank c with
  | none   => (d, [])
  | some r =>
    let bits := (d.bits * 64 + r) % 4294967296
    if d.count + 1 = 4 then
      (⟨bits, 0, c⟩, UInt8.ofNat (bits / 65536) ::
        ((if d.last = pad then [] else [UInt8.ofNat (bits / 256)]) ++
          if c = pad then [] else [UInt8.ofNat bits]))
    else
      (⟨bits, d.count + 1, c⟩, [])

@[grind =]
def decodeFrom (d : Decoder) : Bytes → Bytes
  | []     => []
  | c :: l => (d.step c).2 ++ decodeFrom (d.step c).1 l

def decode : Bytes → Bytes :=
  decodeFrom {}

theorem rank_alphabet : ∀ n < 64, rank (alphabet n) = some n ∧ alphabet n ≠ pad := by
  decide

theorem decodeFrom_filter (d : Decoder) (l : Bytes) :
    decodeFrom d (l.filter fun c => (rank c).isSome) = decodeFrom d l := by
  induction l generalizing d with
  | nil => rfl
  | cons c l ih =>
    cases hc : rank c with
    | none   => simp [hc, ih, decodeFrom, Decoder.step]
    | some r => simp [hc, ih, decodeFrom]

-- Only what the characters of the alphabet are matters.
theorem decode_congr {l l' : Bytes}
    (h : (l.filter fun c => (rank c).isSome) = l'.filter fun c => (rank c).isSome) :
    decode l = decode l' := by
  rw [decode, ← decodeFrom_filter, h, decodeFrom_filter]

theorem ofNat_congr {m n : Nat} (h : m % 256 = n % 256) : UInt8.ofNat m = UInt8.ofNat n :=
  UInt8.toNat_inj.mp (by simpa using h)

theorem ofNat_eq {n : Nat} {a : UInt8} (h : n % 256 = a.toNat) : UInt8.ofNat n = a :=
  UInt8.toNat_inj.mp (by simpa using h)

-- What a group of four characters stands for.
theorem decodeFrom_group {c₁ c₂ c₃ c₄ : UInt8} {r₁ r₂ r₃ r₄ : Nat} (h₁ : rank c₁ = some r₁)
    (h₂ : rank c₂ = some r₂) (h₃ : rank c₃ = some r₃) (h₄ : rank c₄ = some r₄) (hr₃ : r₃ < 64)
    (hr₄ : r₄ < 64) (bits : Nat) (last : UInt8) (l : Bytes) :
    ∃ bits', decodeFrom ⟨bits, 0, last⟩ (c₁ :: c₂ :: c₃ :: c₄ :: l) =
      UInt8.ofNat (r₁ * 4 + r₂ / 16) :: ((if c₃ = pad then [] else [UInt8.ofNat (r₂ * 16 + r₃ / 4)]) ++
        ((if c₄ = pad then [] else [UInt8.ofNat (r₃ * 64 + r₄)]) ++ decodeFrom ⟨bits', 0, c₄⟩ l)) := by
  let bits' := ((((bits * 64 + r₁) % 4294967296 * 64 + r₂) % 4294967296 * 64 + r₃) % 4294967296 * 64 + r₄) % 4294967296
  have hbits : bits' % 2 ^ 24 = ((r₁ * 64 + r₂) * 64 + r₃) * 64 % 2 ^ 24 + r₄ := by omega
  have hb₁ : UInt8.ofNat (bits' / 65536) = UInt8.ofNat (r₁ * 4 + r₂ / 16) := ofNat_congr (by omega)
  have hb₂ : UInt8.ofNat (bits' / 256) = UInt8.ofNat (r₂ * 16 + r₃ / 4) := ofNat_congr (by omega)
  have hb₃ : UInt8.ofNat bits' = UInt8.ofNat (r₃ * 64 + r₄) := ofNat_congr (by omega)
  refine ⟨bits', ?_⟩
  rw [← hb₁, ← hb₂, ← hb₃]
  simp [decodeFrom, Decoder.step, h₁, h₂, h₃, h₄, bits']

-- Decoding what was encoded gives the bytes back.
theorem decodeFrom_encode (bits : Nat) (last : UInt8) (l : Bytes) : decodeFrom ⟨bits, 0, last⟩ (encode l) = l := by
  have hpad : rank pad = some 0 := by decide
  induction l using encode.induct generalizing bits last with
  | case1 => rfl
  | case2 a =>
    have ha := a.toNat_lt
    obtain ⟨h₁, hp₁⟩ := rank_alphabet (a.toNat / 4) (by omega)
    obtain ⟨h₂, hp₂⟩ := rank_alphabet (a.toNat % 4 * 16) (by omega)
    obtain ⟨bits', h⟩ := decodeFrom_group h₁ h₂ hpad hpad (by omega) (by omega) bits last []
    rw [encode, h, ofNat_eq (a := a) (by omega)]
    simp [decodeFrom]
  | case3 a b =>
    have ha := a.toNat_lt
    have hb := b.toNat_lt
    obtain ⟨h₁, hp₁⟩ := rank_alphabet (a.toNat / 4) (by omega)
    obtain ⟨h₂, hp₂⟩ := rank_alphabet (a.toNat % 4 * 16 + b.toNat / 16) (by omega)
    obtain ⟨h₃, hp₃⟩ := rank_alphabet (b.toNat % 16 * 4) (by omega)
    obtain ⟨bits', h⟩ := decodeFrom_group h₁ h₂ h₃ hpad (by omega) (by omega) bits last []
    rw [encode, h, ofNat_eq (a := a) (by omega), ofNat_eq (a := b) (by omega)]
    simp [decodeFrom, hp₃]
  | case4 a b c l ih =>
    have ha := a.toNat_lt
    have hb := b.toNat_lt
    have hc := c.toNat_lt
    obtain ⟨h₁, hp₁⟩ := rank_alphabet (a.toNat / 4) (by omega)
    obtain ⟨h₂, hp₂⟩ := rank_alphabet (a.toNat % 4 * 16 + b.toNat / 16) (by omega)
    obtain ⟨h₃, hp₃⟩ := rank_alphabet (b.toNat % 16 * 4 + c.toNat / 64) (by omega)
    obtain ⟨h₄, hp₄⟩ := rank_alphabet (c.toNat % 64) (by omega)
    obtain ⟨bits', h⟩ := decodeFrom_group h₁ h₂ h₃ h₄ (by omega) (by omega) bits last (encode l)
    rw [encode, List.cons_append, List.cons_append, List.cons_append, List.cons_append, List.nil_append, h,
      ih, ofNat_eq (a := a) (by omega), ofNat_eq (a := b) (by omega), ofNat_eq (a := c) (by omega)]
    simp [hp₃, hp₄]

theorem length_encode (l : Bytes) : (encode l).length = 4 * ((l.length + 2) / 3) := by
  induction l using encode.induct with
  | case1             => rfl
  | case2 a           => simp [encode]
  | case3 a b         => simp [encode]
  | case4 a b c l ih =>
    rw [encode, List.length_append, ih]
    simp only [List.length_cons, List.length_nil]
    omega

theorem isSome_rank_of_mem_encode {l : Bytes} {c : UInt8} (hc : c ∈ encode l) : (rank c).isSome := by
  have hpad : (rank pad).isSome := by decide
  have halphabet : ∀ n < 64, (rank (alphabet n)).isSome := fun n hn => by simp [rank_alphabet n hn]
  induction l using encode.induct with
  | case1 => simp [encode] at hc
  | case2 a =>
    have ha := a.toNat_lt
    simp only [encode, List.mem_cons, List.not_mem_nil, or_false] at hc
    rcases hc with rfl | rfl | rfl | rfl <;> first | exact hpad | exact halphabet _ (by omega)
  | case3 a b =>
    have ha := a.toNat_lt
    have hb := b.toNat_lt
    simp only [encode, List.mem_cons, List.not_mem_nil, or_false] at hc
    rcases hc with rfl | rfl | rfl | rfl <;> first | exact hpad | exact halphabet _ (by omega)
  | case4 a b c l ih =>
    have ha := a.toNat_lt
    have hb := b.toNat_lt
    have hc' := c.toNat_lt
    simp only [encode, List.mem_append, List.mem_cons, List.not_mem_nil, or_false] at hc
    rcases hc with (rfl | rfl | rfl | rfl) | hc
    all_goals first | exact ih hc | exact halphabet _ (by omega)

theorem rank_ofNat : ∀ n < 43, rank (UInt8.ofNat n) = none := by
  decide

-- The characters of the alphabet are visible ones.
theorem lt_of_isSome_rank {c : UInt8} (h : (rank c).isSome) : 42 < c := by
  by_contra hle
  have hrank := rank_ofNat c.toNat (Nat.lt_succ_of_le (UInt8.not_lt.mp hle))
  rw [UInt8.ofNat_toNat] at hrank
  simp [hrank] at h

-- No group starts with the padding.
theorem getElem?_encode_ne_pad (l : Bytes) (k : Nat) : (encode l)[4 * k]? ≠ some pad := by
  have hne : ∀ a : UInt8, alphabet (a.toNat / 4) ≠ pad := fun a => by
    have ha := a.toNat_lt
    exact (rank_alphabet (a.toNat / 4) (by omega)).right
  induction l using encode.induct generalizing k with
  | case1 => simp [encode]
  | case2 a =>
    cases k with
    | zero   => simpa [encode] using hne a
    | succ k => simp [encode, Nat.mul_add]
  | case3 a b =>
    cases k with
    | zero   => simpa [encode] using hne a
    | succ k => simp [encode, Nat.mul_add]
  | case4 a b c l ih =>
    cases k with
    | zero   => simpa [encode] using hne a
    | succ k => simpa [encode, Nat.mul_add] using ih k

end Base64
