import GcrModel.GLib.Strings
import GcrModel.Library.Radix

-- The octets of an element with a definite length.
namespace Der

open GLib

-- The octets behind the first one of an identifier, and what follows the identifier.
inductive Identifier : Bytes → Bytes → Bytes → Prop
  | short {c : UInt8} {rest : Bytes} : c &&& 0x1F ≠ 0x1F → Identifier (c :: rest) [] rest
  | long {c last : UInt8} {more rest : Bytes} : c &&& 0x1F = 0x1F → (∀ d ∈ more, 128 ≤ d) → last < 128 →
    Identifier (c :: (more ++ last :: rest)) (more ++ [last]) rest

-- How many octets a length has, the length, and what follows it.
inductive Length : Bytes → Nat → Nat → Bytes → Prop
  | short {c : UInt8} {rest : Bytes} : c < 128 → Length (c :: rest) 1 c.toNat rest
  | long {c : UInt8} {octets rest : Bytes} : 128 < c → octets.length = c.toNat - 128 →
    Length (c :: (octets ++ rest)) (1 + octets.length) (Radix.value 256 (octets.map UInt8.toNat)) rest

-- The bytes are an identifier with the octets `tag` behind the first one, the octets of a length and a content of
-- `len` bytes, which is at `off`.
def Element (data tag : Bytes) (off len : Nat) : Prop :=
  ∃ rest n content, Identifier data tag rest ∧ Length rest n len content ∧ content.length = len ∧
    off = 1 + tag.length + n

-- The content of an INTEGER is a number in two's complement.
def number (content : Bytes) : Nat :=
  Radix.value 256 (content.map UInt8.toNat)

def integer (content : Bytes) : Int :=
  if content.head?.any (128 ≤ ·) then number content - 256 ^ content.length else number content

-- As few octets as possible: the first nine bits are not all the same.
structure Minimal (content : Bytes) : Prop where
  ne_nil : content ≠ []
  first  : ∀ c d s, content = c :: d :: s → ¬(c = 0 ∧ d < 128) ∧ ¬(c = 255 ∧ 128 ≤ d)

variable {data tag tag' rest rest' content content' : Bytes} {n n' len len' off off' k : Nat}

theorem Identifier.eq (h : Identifier data tag rest) : ∃ c, data = c :: (tag ++ rest) := by
  cases h
  case short c _            => exact ⟨c, rfl⟩
  case long c last more _ _ _ => exact ⟨c, by simp⟩

-- What is behind an identifier is not looked at.
theorem Identifier.behind (h : Identifier data tag rest) (rest' : Bytes) :
    ∃ c, data = c :: (tag ++ rest) ∧ Identifier (c :: (tag ++ rest')) tag rest' := by
  cases h
  case short c h => exact ⟨c, rfl, .short h⟩
  case long c last more hc hmore hlast =>
    have h : Identifier (c :: (more ++ last :: rest')) _ _ := .long hc hmore hlast
    exact ⟨c, by simp, by simpa using h⟩

theorem Identifier.append (h : Identifier data tag rest) (s : Bytes) : Identifier (data ++ s) tag (rest ++ s) := by
  cases h
  case short c h => exact .short h
  case long c last more hc hmore hlast =>
    have h : Identifier (c :: (more ++ last :: (rest ++ s))) _ _ := .long hc hmore hlast
    simpa using h

theorem Identifier.take (h : Identifier data tag rest) (hk : 1 + tag.length ≤ k) :
    Identifier (data.take k) tag (rest.take (k - (1 + tag.length))) := by
  obtain ⟨k, rfl⟩ := Nat.exists_eq_add_of_le hk
  rw [Nat.add_sub_cancel_left]
  cases h
  case short c h =>
    rw [List.length_nil, Nat.add_zero, Nat.add_comm, List.take_succ_cons]
    exact .short h
  case long c last more hc hmore hlast =>
    have htake : (c :: (more ++ last :: rest)).take (1 + (more ++ [last]).length + k) = c :: (more ++ last :: rest.take k) := by
      have heq : c :: (more ++ last :: rest) = c :: (more ++ [last]) ++ rest := by simp
      rw [heq, List.take_append, List.take_of_length_le (by simp; omega)]
      simp
      omega
    rw [htake]
    exact .long hc hmore hlast

-- The octets of a tag in the long form end with the first one that is below 128.
theorem long_unique {more more' : Bytes} {last last' : UInt8} (hmore : ∀ d ∈ more, 128 ≤ d) (hlast : last < 128)
    (hmore' : ∀ d ∈ more', 128 ≤ d) (hlast' : last' < 128) (h : more ++ last :: rest = more' ++ last' :: rest') :
    more = more' ∧ last = last' ∧ rest = rest' := by
  induction more generalizing more' with
  | nil =>
    cases more' with
    | nil => simpa using h
    | cons d more' =>
      obtain ⟨rfl, -⟩ := List.cons.inj h
      exact absurd hlast (UInt8.not_lt.mpr (hmore' last List.mem_cons_self))
  | cons c more ih =>
    cases more' with
    | nil =>
      obtain ⟨rfl, -⟩ := List.cons.inj h
      exact absurd hlast' (UInt8.not_lt.mpr (hmore c List.mem_cons_self))
    | cons d more' =>
      rw [List.cons_append, List.cons_append] at h
      obtain ⟨rfl, hs⟩ := List.cons.inj h
      obtain ⟨rfl, rfl, rfl⟩ := ih (fun d hd => hmore d (List.mem_cons_of_mem _ hd))
        (fun d hd => hmore' d (List.mem_cons_of_mem _ hd)) hs
      exact ⟨rfl, rfl, rfl⟩

theorem Identifier.unique (h : Identifier data tag rest) (h' : Identifier data tag' rest') :
    tag = tag' ∧ rest = rest' := by
  cases h
  case short c hc =>
    cases h' with
    | short _      => exact ⟨rfl, rfl⟩
    | long hc' _ _ => exact absurd hc' hc
  case long c last more hc hmore hlast =>
    generalize hs : more ++ last :: rest = s at h'
    cases h'
    case short hc' => exact absurd hc hc'
    case long last' more' hmore' hlast' _ =>
      obtain ⟨rfl, rfl, rfl⟩ := long_unique hmore hlast hmore' hlast' hs
      exact ⟨rfl, rfl⟩

theorem Length.append (h : Length data n len rest) (s : Bytes) : Length (data ++ s) n len (rest ++ s) := by
  cases h
  case short c h => exact .short h
  case long c octets hc hlen =>
    have h : Length (c :: (octets ++ (rest ++ s))) _ _ _ := .long hc hlen
    simpa using h

theorem Length.length_eq (h : Length data n len rest) : data.length = n + rest.length := by
  cases h
  case short => simp [Nat.add_comm]
  case long  => simp; omega

theorem Element.length_eq (h : Element data tag off len) : data.length = off + len := by
  obtain ⟨rest, n, content, hi, hl, rfl, rfl⟩ := h
  obtain ⟨c, rfl⟩ := hi.eq
  simp [hl.length_eq]
  omega

end Der
