import GcrModel.GLib.Strings
import GcrModel.Library.Radix

-- Numbers in decimal and the encodings of text.
namespace GLib

-- `%u` and `%lu`
def printUnsigned (n : Nat) : Bytes :=
  ascii (Nat.toDigits 10 n)

def isdigit (c : UInt8) : Bool :=
  48 ≤ c ∧ c ≤ 57

def maxUint64 : Nat := 18446744073709551615

def maxInt64 : Nat := 9223372036854775807

-- The digits that a string starts with: the number, whether it got too large, and what is left.
def parseDigits (value : Nat) (overflow : Bool) : Bytes → Nat × Bool × Bytes
  | []     => (value, overflow, [])
  | c :: s =>
    if isdigit c then
      let digit := c.toNat - 48
      if maxUint64 / 10 < value ∨ value = maxUint64 / 10 ∧ maxUint64 % 10 < digit then
        parseDigits value true s
      else
        parseDigits (value * 10 + digit) overflow s
    else
      (value, overflow, c :: s)

structure Number where
  negative : Bool
  value    : Nat
  rest     : Bytes

-- `g_parse_long_long` with base 10. Nothing of the string is used when there are no digits.
def parseLongLong (s : Bytes) : Number :=
  let t := s.dropWhile isspace
  let negative := t.head? = some 45
  let digits := if t.head? = some 45 ∨ t.head? = some 43 then t.drop 1 else t
  match parseDigits 0 false digits with
  | (value, overflow, rest) =>
    if rest.length = digits.length then ⟨negative, 0, s⟩
    else ⟨negative, if overflow then maxUint64 else value, rest⟩

-- The result and the end pointer.
def asciiStrtoull (s : Bytes) : Nat × Bytes :=
  let n := parseLongLong s
  (if n.negative ∧ n.value ≠ 0 then maxUint64 + 1 - n.value else n.value, n.rest)

def asciiStrtoll (s : Bytes) : Int × Bytes :=
  let n := parseLongLong s
  (if n.negative then -(min n.value (maxInt64 + 1) : Nat) else (min n.value maxInt64 : Nat), n.rest)

-- `strtoul` with base 10 and a `gulong` of 64 bits: the result and the end pointer.
def strtoul (s : Bytes) : Nat × Bytes :=
  let t := s.dropWhile isspace
  let negative := t.head? = some 45
  let digits := if t.head? = some 45 ∨ t.head? = some 43 then t.drop 1 else t
  match parseDigits 0 false digits with
  | (value, overflow, rest) =>
    if rest.length = digits.length then (0, s)
    else if overflow then (maxUint64, rest)
    else (if negative ∧ value ≠ 0 then maxUint64 + 1 - value else value, rest)

-- A cast from guint64 to gint64.
def toGint64 (n : Nat) : Int :=
  if n ≤ maxInt64 then n else n - (maxUint64 + 1 : Nat)

-- The first byte of a character in UTF-8: how many bytes follow, and in which range the next is.
def utf8Start (c : UInt8) : Option (Nat × UInt8 × UInt8) :=
  if c < 128 then some (0, 128, 191)
  else if c < 194 then none
  else if c < 224 then some (1, 128, 191)
  else if c = 224 then some (2, 160, 191)
  else if c = 237 then some (2, 128, 159)
  else if c < 240 then some (2, 128, 191)
  else if c = 240 then some (3, 144, 191)
  else if c < 244 then some (3, 128, 191)
  else if c = 244 then some (3, 128, 143)
  else none

def utf8ValidateFrom (following : Nat) (low high : UInt8) : Bytes → Bool
  | []     => following = 0
  | c :: s =>
    match following with
    | n + 1 => low ≤ c && c ≤ high && utf8ValidateFrom n 128 191 s
    | 0     =>
      match utf8Start c with
      | some (n, low, high) => utf8ValidateFrom n low high s
      | none                => false

-- `g_utf8_validate`
def utf8Validate (s : Bytes) : Bool :=
  utf8ValidateFrom 0 128 191 s

-- `g_convert` from ISO-8859-1 to UTF-8
def latin1ToUtf8 (s : Bytes) : Bytes :=
  s.flatMap fun c => if c < 128 then [c] else [192 + c / 64, 128 + c % 64]

theorem length_le_latin1ToUtf8 (s : Bytes) : s.length ≤ (latin1ToUtf8 s).length := by
  induction s with
  | nil         => exact Nat.le_refl 0
  | cons c s ih =>
    rw [latin1ToUtf8, List.flatMap_cons, List.length_append, ← latin1ToUtf8, List.length_cons]
    split
    case isTrue  => simpa [Nat.add_comm] using ih
    case isFalse => simpa [Nat.add_comm] using Nat.le_succ_of_le ih

variable {n : Nat} {ds : List Char}

theorem isdigit_ofNat {d : Char} (hd : d.isDigit) :
    isdigit (UInt8.ofNat d.toNat) ∧ (UInt8.ofNat d.toNat).toNat - 48 = d.toNat - 48 := by
  obtain ⟨hlow, hhigh⟩ := Char.isDigit_iff_toNat.mp hd
  have hval : (UInt8.ofNat d.toNat).toNat = d.toNat := by
    rw [UInt8.toNat_ofNat']
    exact Nat.mod_eq_of_lt (Nat.lt_of_le_of_lt hhigh (by decide))
  refine ⟨?_, congrArg (· - 48) hval⟩
  simp only [isdigit, UInt8.le_iff_toNat_le, hval, decide_eq_true_eq]
  exact ⟨hlow, hhigh⟩

theorem le_ofDigitChars (ds : List Char) (value : Nat) : value ≤ Nat.ofDigitChars 10 ds value := by
  induction ds generalizing value with
  | nil          => simp
  | cons d ds ih =>
    rw [Nat.ofDigitChars_cons]
    have hle := ih (10 * value + (d.toNat - '0'.toNat))
    omega

theorem parseDigits_ascii (ds : List Char) (value : Nat) (hdigits : ∀ d ∈ ds, d.isDigit)
    (h : Nat.ofDigitChars 10 ds value ≤ maxUint64) :
    parseDigits value false (ascii ds) = (Nat.ofDigitChars 10 ds value, false, []) := by
  induction ds generalizing value with
  | nil          => simp [ascii, parseDigits]
  | cons d ds ih =>
    obtain ⟨hd, hds⟩ := List.forall_mem_cons.mp hdigits
    obtain ⟨hdigit, hval⟩ := isdigit_ofNat hd
    rw [Nat.ofDigitChars_cons] at h ⊢
    have hle := Nat.le_trans (le_ofDigitChars ds _) h
    have hzero : '0'.toNat = 48 := rfl
    rw [ascii, List.map_cons, ← ascii, parseDigits, if_pos hdigit, hval, if_neg, ← ih _ hds h, hzero,
      Nat.mul_comm]
    simp only [maxUint64, hzero] at hle ⊢
    omega

theorem isdigit_of_mem_printUnsigned {c : UInt8} (h : c ∈ printUnsigned n) : isdigit c := by
  obtain ⟨d, hd, rfl⟩ := List.mem_map.mp h
  exact (isdigit_ofNat (Nat.isDigit_of_mem_toDigits (by decide) (by decide) hd)).1

theorem printUnsigned_ne_nil (n : Nat) : printUnsigned n ≠ [] := by
  simp [printUnsigned, ascii, Nat.toDigits_ne_nil]

-- A printed number starts with no space and no sign.
theorem parseLongLong_printUnsigned (h : n ≤ maxUint64) :
    parseLongLong (printUnsigned n) = ⟨false, n, []⟩ := by
  have hparse : parseDigits 0 false (printUnsigned n) = (n, false, []) := by
    have hdigit : ∀ d ∈ Nat.toDigits 10 n, d.isDigit := fun d hd =>
      Nat.isDigit_of_mem_toDigits (by decide) (by decide) hd
    have hdigits := parseDigits_ascii (Nat.toDigits 10 n) 0 hdigit (by simpa using h)
    simpa [printUnsigned] using hdigits
  obtain ⟨c, s, hs⟩ := List.exists_cons_of_ne_nil (printUnsigned_ne_nil n)
  have hc : isdigit c := isdigit_of_mem_printUnsigned (n := n) (by simp [hs])
  rw [hs] at hparse ⊢
  have hle : 48 ≤ c := by simp only [isdigit, decide_eq_true_eq] at hc; exact hc.1
  have hspace : isspace c = false := by
    simp only [isspace, decide_eq_false_iff_not, UInt8.le_iff_toNat_le, ← UInt8.toNat_inj] at hle ⊢
    simp at hle ⊢
    omega
  have hminus : c ≠ 45 := by rintro rfl; exact absurd hle (by decide)
  have hplus : c ≠ 43 := by rintro rfl; exact absurd hle (by decide)
  simp [parseLongLong, hspace, hminus, hplus, hparse]

theorem asciiStrtoull_printUnsigned (h : n ≤ maxUint64) : asciiStrtoull (printUnsigned n) = (n, []) := by
  simp [asciiStrtoull, parseLongLong_printUnsigned h]

theorem asciiStrtoll_printUnsigned (h : n ≤ maxInt64) : asciiStrtoll (printUnsigned n) = ((n : Int), []) := by
  have hmax : n ≤ maxUint64 := Nat.le_trans h (by decide)
  simp [asciiStrtoll, parseLongLong_printUnsigned hmax, h]

-- The number that digits are.
def decimal (s : Bytes) : Nat :=
  Radix.value 10 (s.map fun c => c.toNat - 48)

theorem sub_lt_of_isdigit {c : UInt8} (h : isdigit c) : c.toNat - 48 < 10 := by
  simp only [isdigit, decide_eq_true_eq, UInt8.le_iff_toNat_le] at h
  have hhigh : c.toNat ≤ 57 := h.2
  omega

theorem decimal_lt {s : Bytes} (hs : ∀ c ∈ s, isdigit c) : decimal s < 10 ^ s.length := by
  have h := @Radix.value_lt 10 (s.map fun c => c.toNat - 48) ?_ (by decide)
  · simpa [decimal] using h
  · intro d hd
    obtain ⟨c, hc, rfl⟩ := List.mem_map.mp hd
    exact sub_lt_of_isdigit (hs c hc)

theorem parseDigits_spec {s : Bytes} (hs : ∀ c ∈ s, isdigit c) (value : Nat) (overflow : Bool) (h : value ≤ maxUint64) :
    ∃ w o, parseDigits value overflow s = (w, o, []) ∧
      (o = false ∧ overflow = false ∧ w = value * 10 ^ s.length + decimal s ∧ w ≤ maxUint64 ∨
        o = true ∧ (overflow = true ∨ maxUint64 < value * 10 ^ s.length + decimal s)) := by
  induction s generalizing value overflow with
  | nil =>
    refine ⟨value, overflow, rfl, ?_⟩
    cases overflow
    case false => simp [decimal, h]
    case true  => simp
  | cons c s ih =>
    obtain ⟨hc, hs⟩ := List.forall_mem_cons.mp hs
    have hdecimal : value * 10 ^ (s.length + 1) + decimal (c :: s) =
        (value * 10 + (c.toNat - 48)) * 10 ^ s.length + decimal s := by
      rw [decimal, List.map_cons, Radix.value_cons, List.length_map, ← decimal, Nat.pow_succ', Nat.add_mul, Nat.mul_assoc,
        Nat.add_assoc]
    rw [parseDigits, if_pos hc, List.length_cons, hdecimal]
    have hmax : maxUint64 = maxUint64 / 10 * 10 + maxUint64 % 10 := by decide
    dsimp only
    by_cases hover : maxUint64 / 10 < value ∨ value = maxUint64 / 10 ∧ maxUint64 % 10 < c.toNat - 48
    case pos =>
      obtain ⟨w, o, heq, hwhat⟩ := ih hs value true h
      refine ⟨w, o, (if_pos hover).trans heq, .inr ⟨?_, .inr ?_⟩⟩
      · simpa using hwhat
      · have hlt : maxUint64 < value * 10 + (c.toNat - 48) := by omega
        have hle := Nat.le_mul_of_pos_right (value * 10 + (c.toNat - 48)) (Nat.pow_pos (n := s.length) (show 0 < 10 by decide))
        omega
    case neg =>
      have hdigit := sub_lt_of_isdigit hc
      rw [if_neg hover]
      exact ih hs _ overflow (by omega)

theorem not_isspace_of_isdigit {c : UInt8} (hc : isdigit c) : isspace c = false ∧ c ≠ 45 ∧ c ≠ 43 := by
  have hle : 48 ≤ c := by simp only [isdigit, decide_eq_true_eq] at hc; exact hc.1
  refine ⟨?_, by rintro rfl; exact absurd hle (by decide), by rintro rfl; exact absurd hle (by decide)⟩
  simp only [isspace, decide_eq_false_iff_not, UInt8.le_iff_toNat_le, ← UInt8.toNat_inj] at hle ⊢
  simp at hle ⊢
  omega

-- A number in decimal is read, or the largest one where it does not fit.
theorem strtoul_decimal {s : Bytes} (hne : s ≠ []) (hs : ∀ c ∈ s, isdigit c) :
    strtoul s = (min (decimal s) maxUint64, []) := by
  obtain ⟨c, t, rfl⟩ := List.exists_cons_of_ne_nil hne
  obtain ⟨hspace, hminus, hplus⟩ := not_isspace_of_isdigit (hs c List.mem_cons_self)
  obtain ⟨w, o, heq, hwhat⟩ := parseDigits_spec hs 0 false (by decide)
  simp only [Nat.zero_mul, Nat.zero_add, Bool.false_eq_true, false_or, true_and] at hwhat
  simp only [strtoul, List.dropWhile_cons, hspace, Bool.false_eq_true, ↓reduceIte, List.head?_cons, Option.some.injEq,
    hminus, hplus, or_self, heq, List.length_nil, List.length_cons, Nat.add_one_ne_zero, false_and, eq_comm (a := 0)]
  obtain ⟨rfl, rfl, hle⟩ | ⟨rfl, hlt⟩ := hwhat
  · simp [hle]
  · simp [Nat.min_eq_right (Nat.le_of_lt hlt)]

end GLib
