import GcrModel.Gcr.Openpgp.Theorems.Failures
import GcrModel.Gcr.Openpgp.Theorems.Safety

-- What the parser reads behind the data.
namespace Openpgp

open GLib Format

-- The same in a longer memory, unless something is missing in the shorter one.
def Extends {α : Type} (x y : Parse α) : Prop :=
  ∀ s, Scan.Extends .outOfBounds (x s) (y s)

section Extends

variable {α β : Type} {x y : Parse α} {f g : α → Parse β} {s : State}

theorem bind_extends (hx : Scan.Extends .outOfBounds (x s) (y s))
    (hf : ∀ a s', x s = .ok (some a, s') → Scan.Extends .outOfBounds (f a s') (g a s')) :
    Scan.Extends .outOfBounds ((x >>= f) s) ((y >>= g) s) := by
  obtain herror | heq := hx
  · exact .inl (Scan.bind_error herror)
  · cases hrun : x s with
    | error e => exact .inr (by rw [Scan.bind_error hrun, Scan.bind_error (heq.trans hrun)])
    | ok r    =>
      obtain ⟨_ | a, s'⟩ := r
      · exact .inr (by rw [Scan.bind_none hrun, Scan.bind_none (heq.trans hrun)])
      · rw [Scan.bind_some hrun, Scan.bind_some (heq.trans hrun)]
        exact hf a s' hrun

theorem Extends.refl (x : Parse α) : Extends x x :=
  fun s => .refl (x s)

theorem Extends.bind (hx : Extends x y) (hf : ∀ a, Extends (f a) (g a)) : Extends (x >>= f) (y >>= g) :=
  fun s => bind_extends (hx s) fun a s' _ => hf a s'

theorem Extends.read (hx : Extends x y) : Extends (x >>= f) (y >>= f) :=
  hx.bind fun _ => .refl _

theorem Extends.ite {c : Prop} [Decidable c] {x' y' : Parse α} (h : Extends x y) (h' : Extends x' y') :
    Extends (if c then x else x') (if c then y else y') := by
  split
  · exact h
  · exact h'

theorem Extends.lift {u v : Result α} (h : Scan.Extends .outOfBounds u v) : Extends (Scan.lift u) (Scan.lift v) := by
  obtain rfl | rfl := h
  · exact fun _ => .inl rfl
  · exact .refl _

end Extends

section Packets

variable (hashes : Hashes) (flags : Flags) (m t : Bytes) (stop : Nat) {s s' : State}

end Packets

section Whole

variable {hashes : Hashes} {now : Nat → UInt64} {flags : Flags} {data : Bytes}

end Whole

end Openpgp
