import Mathlib.Data.Nat.Digits.Defs

-- Flat memories: a map from addresses to values. The operations are those of the C library, and
-- each of them comes with what it does inside of its range and that it does nothing outside of it.
abbrev Memory (β : Type*) := Nat → β

namespace Memory

variable {β : Type*} {m m₁ m₂ : Memory β} {a b n dst src : Nat} {v : β}

-- The `n` addresses from `a` on.
def range (a n : Nat) : Set Nat :=
  { x | a ≤ x ∧ x < a + n }

@[simp]
theorem mem_range : b ∈ range a n ↔ a ≤ b ∧ b < a + n :=
  Iff.rfl

-- `memset`
def fill (m : Memory β) (a n : Nat) (v : β) : Memory β :=
  fun x => if a ≤ x ∧ x < a + n then v else m x

theorem fill_eq (h : b ∈ range a n) : m.fill a n v b = v :=
  if_pos h

theorem fill_frame (h : b ∉ range a n) : m.fill a n v b = m b :=
  if_neg h

-- `memcpy`
def copy (m : Memory β) (dst src n : Nat) : Memory β :=
  fun x => if dst ≤ x ∧ x < dst + n then m (src + (x - dst)) else m x

theorem copy_eq (h : b < n) : m.copy dst src n (dst + b) = m (src + b) := by
  simp [copy, h]

theorem copy_frame (h : b ∉ range dst n) : m.copy dst src n b = m b :=
  if_neg h

-- Stores the values `f 0`, ..., `f (n - 1)`.
def store (m : Memory β) (a n : Nat) (f : Nat → β) : Memory β :=
  fun x => if a ≤ x ∧ x < a + n then f (x - a) else m x

theorem store_eq (h : b < n) {f : Nat → β} : m.store a n f (a + b) = f b := by
  simp [store, h]

theorem store_frame (h : b ∉ range a n) {f : Nat → β} : m.store a n f b = m b :=
  if_neg h

-- The little-endian number in the `n` bytes from `a` on, for a memory whose values have a byte.
def load (m : Memory β) (byte : β → Nat) (a n : Nat) : Nat :=
  Nat.ofDigits 256 ((List.range n).map fun i => byte (m (a + i)))

theorem load_congr {byte : β → Nat} (h : Set.EqOn m₁ m₂ (range a n)) :
    m₁.load byte a n = m₂.load byte a n := by
  unfold load
  congr 1
  apply List.map_congr_left
  intro i hi
  rw [h ⟨Nat.le_add_right a i, Nat.add_lt_add_left (List.mem_range.mp hi) a⟩]

theorem ofDigits_bytes (w n : Nat) :
    Nat.ofDigits 256 ((List.range n).map fun i => w / 256 ^ i % 256) = w % 256 ^ n := by
  induction n generalizing w with
  | zero => simp [Nat.mod_one]
  | succ n ih =>
    rw [List.range_succ_eq_map, List.map_cons, List.map_map, Nat.ofDigits_cons]
    have h : ((fun i => w / 256 ^ i % 256) ∘ Nat.succ) = fun i => w / 256 / 256 ^ i % 256 := by
      funext i
      simp [Nat.pow_succ', Nat.div_div_eq_div_mul]
    rw [h, ih, Nat.pow_succ', Nat.mod_mul]
    simp

-- Loading what was stored gives the number back if it fits.
theorem load_store {byte : β → Nat} {f : Nat → β} {w : Nat} (hw : w < 256 ^ n)
    (hf : ∀ i, byte (f i) = w / 256 ^ i % 256) : (m.store a n f).load byte a n = w := by
  unfold load
  refine Eq.trans ?_ ((ofDigits_bytes w n).trans (Nat.mod_eq_of_lt hw))
  congr 1
  apply List.map_congr_left
  intro i hi
  rw [store_eq (List.mem_range.mp hi), hf]

end Memory
