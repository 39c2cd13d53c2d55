import Mathlib.Data.List.DropRight
import GcrModel.Library.Search

-- The functions of the C library and of GLib on bytes and strings. A string that ends with a NUL is
-- the list of the bytes before it.
namespace GLib

abbrev Bytes := List UInt8

def ascii (s : List Char) : Bytes :=
  s.map fun c => UInt8.ofNat c.toNat

def newline : UInt8 := 10

-- `egg_secure_alloc` and `egg_secure_realloc` give no more bytes.
def secureLimit : Nat := 0x7fffffff

-- The bytes from a pointer on up to the first NUL.
def cstr (s : Bytes) : Bytes :=
  s.takeWhile (· ≠ 0)

theorem nul_notMem_cstr (s : Bytes) : 0 ∉ cstr s :=
  fun h => by simpa using List.mem_takeWhile_imp h

-- A string that ends with a NUL.
structure CString where
  bytes : Bytes
  nul   : 0 ∉ bytes
  deriving DecidableEq, Repr

-- The string that the bytes from a pointer on are.
def CString.of (s : Bytes) : CString :=
  ⟨cstr s, nul_notMem_cstr s⟩

-- The C locale is assumed.
def isspace (c : UInt8) : Bool :=
  c = 32 ∨ 9 ≤ c ∧ c ≤ 13

def asciiIsspace (c : UInt8) : Bool :=
  c = 32 ∨ c = 9 ∨ c = 10 ∨ c = 12 ∨ c = 13

def asciiTolower (c : UInt8) : UInt8 :=
  if 65 ≤ c ∧ c ≤ 90 then c + 32 else c

def compareTolower : Bytes → Bytes → Int
  | [],     []     => 0
  | [],     c :: _ => -c.toNat
  | c :: _, []     => c.toNat
  | c :: s, d :: t =>
    if asciiTolower c ≠ asciiTolower d then (asciiTolower c).toNat - (asciiTolower d).toNat else compareTolower s t

-- `g_ascii_strcasecmp`, which is 0 where the first string is `NULL`.
def asciiStrcasecmp (s : Option Bytes) (t : Bytes) : Int :=
  match s with
  | none   => 0
  | some s => compareTolower s t

def strstrip (s : Bytes) : Bytes :=
  (s.dropWhile asciiIsspace).rdropWhile asciiIsspace

-- `g_strstr_len`. The pattern is not empty.
def strstrLen (needle : Bytes) : Bytes → Option Nat
  | []     => none
  | c :: s => if c = 0 then none else if needle <+: c :: s then some 0 else (strstrLen needle s).map (· + 1)

-- `g_strrstr`
def strrstr (needle : Bytes) : Bytes → Option Nat
  | []     => none
  | c :: s =>
    match strrstr needle s with
    | some i => some (i + 1)
    | none   => if needle <+: c :: s then some 0 else none

-- The pattern occurs for the first time behind `pre`, where there is no NUL.
structure Marker (p s pre post : Bytes) : Prop extends Search.First p s pre post where
  nul : 0 ∉ pre

variable {p s pre post : Bytes} {i : Nat}

theorem Marker.cons {c : UInt8} (h : ¬p <+: c :: s) (hc : c ≠ 0) (m : Marker p s pre post) :
    Marker p (c :: s) (c :: pre) post where
  toFirst := m.toFirst.cons h
  nul     := by simpa [hc.symm] using m.nul

theorem exists_marker_of_strstrLen (h : strstrLen p s = some i) :
    ∃ pre post, Marker p s pre post ∧ pre.length = i := by
  induction s generalizing i with
  | nil => simp [strstrLen] at h
  | cons c s ih =>
    rw [strstrLen] at h
    split at h
    case isTrue => simp at h
    case isFalse hc =>
      split at h
      case isTrue hp =>
        obtain ⟨post, hpost⟩ := hp
        cases h
        exact ⟨[], post, ⟨hpost ▸ .nil p post, by simp⟩, rfl⟩
      case isFalse hp =>
        obtain ⟨j, hj, rfl⟩ := Option.map_eq_some_iff.mp h
        obtain ⟨pre, post, m, rfl⟩ := ih hj
        exact ⟨c :: pre, post, m.cons hp hc, rfl⟩

theorem Marker.strstrLen_eq (m : Marker p s pre post) (hp : 0 ∉ p) (hne : p ≠ []) :
    strstrLen p s = some pre.length := by
  induction pre generalizing s with
  | nil =>
    obtain ⟨d, q, rfl⟩ := List.exists_cons_of_ne_nil hne
    have hd : d ≠ 0 := fun he => hp (by simp [he])
    rw [m.eq, List.nil_append, List.cons_append, strstrLen, if_neg hd,
      if_pos (show d :: q <+: d :: (q ++ post) from ⟨post, rfl⟩)]
    rfl
  | cons c pre ih =>
    have hc : c ≠ 0 := fun he => m.nul (by simp [he])
    have hfirst := m.first 0 (Nat.succ_pos _)
    have heq := m.eq
    rw [List.drop_zero] at hfirst
    cases s with
    | nil => simp at heq
    | cons d s =>
      obtain ⟨rfl, hs⟩ := List.cons.inj heq
      have m' : Marker p s pre post := by
        refine ⟨⟨hs, fun i hi => ?_⟩, fun h => m.nul (List.mem_cons_of_mem _ h)⟩
        exact m.first (i + 1) (Nat.succ_lt_succ hi)
      rw [strstrLen, if_neg hc, if_neg hfirst, ih m']
      rfl

-- The last occurrence is one in the string.
theorem prefix_of_strrstr (h : strrstr p s = some i) : i < s.length ∧ p <+: s.drop i := by
  induction s generalizing i with
  | nil => simp [strrstr] at h
  | cons c s ih =>
    rw [strrstr] at h
    cases hs : strrstr p s with
    | some j =>
      simp only [hs, Option.some.injEq] at h
      obtain ⟨hj, hp⟩ := ih hs
      exact h ▸ ⟨Nat.succ_lt_succ hj, hp⟩
    | none =>
      simp only [hs] at h
      split at h
      case isTrue hp =>
        cases h
        exact ⟨Nat.succ_pos _, hp⟩
      case isFalse => simp at h

theorem le_strrstr (h : p <+: s.drop i) (hp : p ≠ []) : ∃ j, strrstr p s = some j ∧ i ≤ j := by
  induction s generalizing i with
  | nil =>
    rw [List.drop_nil] at h
    exact absurd (List.prefix_nil.mp h) hp
  | cons c s ih =>
    rw [strrstr]
    cases i with
    | zero =>
      rw [List.drop_zero] at h
      cases strrstr p s with
      | none   => exact ⟨0, if_pos h, le_refl 0⟩
      | some j => exact ⟨j + 1, rfl, Nat.zero_le _⟩
    | succ i =>
      obtain ⟨j, hj, hij⟩ := ih h
      exact ⟨j + 1, by rw [hj], Nat.succ_le_succ hij⟩

theorem cstr_eq (h : 0 ∉ s) : cstr s = s :=
  List.takeWhile_eq_self_iff.mpr fun c hc => by
    have : c ≠ 0 := fun he => h (he ▸ hc)
    simpa using this

theorem CString.of_bytes (s : CString) : CString.of s.bytes = s := by
  simp [CString.of, cstr_eq s.nul]

theorem CString.bytes_of (h : 0 ∉ s) : (CString.of s).bytes = s :=
  cstr_eq h

theorem CString.mem_of {c : UInt8} (h : c ∈ (CString.of s).bytes) : c ∈ s :=
  (List.takeWhile_prefix _).subset h

-- The first occurrence of a character cuts a string.
theorem idxOf?_append_cons {c : UInt8} {t : Bytes} (h : c ∉ s) : (s ++ c :: t).idxOf? c = some s.length := by
  induction s with
  | nil => simp [List.idxOf?_cons]
  | cons d s ih =>
    have hd : d ≠ c := fun he => h (by simp [he])
    have hs : c ∉ s := fun hc => h (List.mem_cons_of_mem _ hc)
    simp [List.idxOf?_cons, hd, ih hs]

theorem notMem_take_idxOf? {c : UInt8} {i : Nat} (h : s.idxOf? c = some i) : i < s.length ∧ c ∉ s.take i := by
  induction s generalizing i with
  | nil => simp at h
  | cons d s ih =>
    rw [List.idxOf?_cons] at h
    split at h
    case isTrue =>
      cases h
      simp
    case isFalse hd =>
      obtain ⟨j, hj, rfl⟩ := Option.map_eq_some_iff.mp h
      obtain ⟨hlt, hc⟩ := ih hj
      have hne : c ≠ d := fun he => hd (by simp [he])
      refine ⟨Nat.succ_lt_succ hlt, ?_⟩
      simpa [hne] using hc

-- A string in the memory is followed by a NUL.
theorem exists_cstr (h : 0 ∈ s) : ∃ t, s = cstr s ++ 0 :: t := by
  induction s with
  | nil => simp at h
  | cons c s ih =>
    by_cases hc : c = 0
    case pos => exact ⟨s, by simp [cstr, hc]⟩
    case neg =>
      obtain ⟨t, ht⟩ := ih ((List.mem_cons.mp h).resolve_left (Ne.symm hc))
      refine ⟨t, ?_⟩
      rw [cstr, List.takeWhile_cons_of_pos (by simpa using hc), List.cons_append, ← cstr, ← ht]

-- Strings are compared but for the case of letters.
theorem compareTolower_eq_zero {s t : Bytes} (hs : 0 ∉ s) (ht : 0 ∉ t) :
    compareTolower s t = 0 ↔ s.map asciiTolower = t.map asciiTolower := by
  induction s generalizing t with
  | nil =>
    cases t with
    | nil => simp [compareTolower]
    | cons c t =>
      have hc : c ≠ 0 := fun h => ht (by simp [h])
      simpa [compareTolower, ← UInt8.toNat_inj] using hc
  | cons c s ih =>
    have hc : c ≠ 0 := fun h => hs (by simp [h])
    cases t with
    | nil => simpa [compareTolower, ← UInt8.toNat_inj] using hc
    | cons d t =>
      rw [compareTolower, List.map_cons, List.map_cons, List.cons.injEq]
      split
      case isTrue hne =>
        have hdiff : (asciiTolower c).toNat ≠ (asciiTolower d).toNat := by simpa [UInt8.toNat_inj] using hne
        constructor
        case mp =>
          intro h
          omega
        case mpr =>
          rintro ⟨h, -⟩
          exact absurd h hne
      case isFalse heq =>
        rw [ih (List.not_mem_of_not_mem_cons hs) (List.not_mem_of_not_mem_cons ht)]
        simp [not_not.mp heq]

end GLib
