import Mathlib.Data.List.Nodup
import Mathlib.Data.List.Perm.Basic

-- An array from which an element is removed by moving the last one to its place, and the elements that are then found in front
-- of the next one, if those of a list are removed in their order.
namespace SwapRemove

open scoped List

variable {α : Type*} {l cs A : List α} {a c : α} {i k : Nat} {p : α → Bool}

def remove (l : List α) (i : Nat) : List α :=
  match l.getLast? with
  | none      => []
  | some last => (l.set i last).dropLast

theorem remove_concat (l : List α) (a : α) (i : Nat) : remove (l ++ [a]) i = ((l ++ [a]).set i a).dropLast := by
  rw [remove, List.getLast?_concat]

theorem remove_last (l : List α) (a : α) : remove (l ++ [a]) l.length = l := by
  rw [remove_concat, List.set_append_right _ _ (Nat.le_refl _), Nat.sub_self, List.set_cons_zero, List.dropLast_concat]

-- The last element comes to the place of the one that is removed.
theorem remove_middle (front back : List α) (a last : α) :
    remove (front ++ a :: (back ++ [last])) front.length = front ++ last :: back := by
  rw [← List.cons_append, ← List.append_assoc, remove_concat, List.append_assoc, List.set_append_right _ _ (Nat.le_refl _),
    Nat.sub_self, List.cons_append, List.set_cons_zero, ← List.cons_append, ← List.append_assoc, List.dropLast_concat]

theorem remove_perm (h : l[i]? = some a) : l ~ a :: remove l i := by
  obtain ⟨hi, heq⟩ := List.getElem?_eq_some_iff.mp h
  have hsplit : l = l.take i ++ a :: l.drop (i + 1) := by
    rw [← heq, ← List.drop_eq_getElem_cons hi, List.take_append_drop]
  have hlen : (l.take i).length = i := List.length_take_of_le (Nat.le_of_lt hi)
  generalize l.take i = front at hsplit hlen
  generalize l.drop (i + 1) = back at hsplit
  subst hlen hsplit
  rcases List.eq_nil_or_concat back with rfl | ⟨back, last, rfl⟩
  · rw [remove_last]
    exact List.perm_append_singleton a front
  · rw [List.concat_eq_append, remove_middle]
    calc front ++ a :: (back ++ [last])
      _ ~ a :: (front ++ (back ++ [last])) := List.perm_middle
      _ ~ a :: (front ++ last :: back) := ((List.perm_append_singleton last back).append_left front).cons a

theorem drop_eq_cons (hc : cs[k]? = some c) : cs.drop k = c :: cs.drop (k + 1) := by
  obtain ⟨hk, rfl⟩ := List.getElem?_eq_some_iff.mp hc
  exact List.drop_eq_getElem_cons hk

section Leftover

variable [DecidableEq α]

-- What is left of a list after so many of its elements were removed in order.
def leftover (cs : List α) : Nat → List α
  | 0     => cs
  | k + 1 =>
    match cs[k]? with
    | none   => []
    | some c => remove (leftover cs k) ((leftover cs k).idxOf c)

-- The elements that are found before the next one.
def inFront (cs : List α) (k : Nat) : List α :=
  match cs[k]? with
  | none   => []
  | some c => (leftover cs k).take ((leftover cs k).idxOf c)

theorem leftover_succ (hc : cs[k]? = some c) :
    leftover cs (k + 1) = remove (leftover cs k) ((leftover cs k).idxOf c) := by
  rw [leftover, hc]

theorem inFront_eq (hc : cs[k]? = some c) : inFront cs k = (leftover cs k).take ((leftover cs k).idxOf c) := by
  rw [inFront, hc]

theorem getElem?_idxOf (h : c ∈ A) : A[A.idxOf c]? = some c := by
  have hlt := List.idxOf_lt_length_of_mem h
  rw [List.getElem?_eq_getElem hlt, List.getElem_idxOf hlt]

theorem leftover_perm (cs : List α) (k : Nat) : leftover cs k ~ cs.drop k := by
  induction k with
  | zero => rw [leftover, List.drop_zero]
  | succ k ih =>
    cases hc : cs[k]? with
    | none =>
      have hle := List.getElem?_eq_none_iff.mp hc
      rw [leftover, hc, List.drop_eq_nil_of_le (Nat.le_succ_of_le hle)]
    | some c =>
      rw [drop_eq_cons hc] at ih
      have hget := getElem?_idxOf (ih.mem_iff.mpr List.mem_cons_self)
      rw [leftover_succ hc]
      exact ((remove_perm hget).symm.trans ih).cons_inv

theorem mem_leftover (hc : cs[k]? = some c) : c ∈ leftover cs k := by
  rw [(leftover_perm cs k).mem_iff, drop_eq_cons hc]
  exact List.mem_cons_self

-- The element that is found first is the next one just if no other is wanted in front of it.
theorem findIdx?_eq_idxOf_iff (hc : c ∈ A) (hp : p c) :
    A.findIdx? p = some (A.idxOf c) ↔ ∀ d ∈ A.take (A.idxOf c), ¬p d := by
  have hlt := List.idxOf_lt_length_of_mem hc
  rw [List.findIdx?_eq_some_iff_getElem]
  constructor
  · rintro ⟨_, _, hfirst⟩ d hd
    obtain ⟨j, hj, rfl⟩ := List.mem_take_iff_getElem.mp hd
    exact hfirst j (Nat.lt_of_lt_of_le hj (Nat.min_le_left _ _))
  · intro h
    refine ⟨hlt, by rwa [List.getElem_idxOf hlt], fun j hj => h _ ?_⟩
    exact List.mem_take_iff_getElem.mpr ⟨j, by omega, rfl⟩

theorem eq_idxOf (hi : A.findIdx? p = some i) (hget : A[i]? = some c) : i = A.idxOf c := by
  obtain ⟨hlt, hpi, hfirst⟩ := List.findIdx?_eq_some_iff_getElem.mp hi
  obtain ⟨_, rfl⟩ := List.getElem?_eq_some_iff.mp hget
  have hmem : A[i] ∈ A := List.getElem_mem hlt
  refine Nat.le_antisymm ?_ ?_
  · by_contra hnot
    have hnext := hfirst _ (Nat.not_le.mp hnot)
    rw [List.getElem_idxOf] at hnext
    exact hnext hpi
  · by_contra hnot
    have htake : A[i] ∈ A.take (A.idxOf A[i]) := List.mem_take_iff_getElem.mpr ⟨i, by omega, rfl⟩
    exact Nat.lt_irrefl _ ((List.mem_take_iff_idxOf_lt hmem).mp htake)

end Leftover

end SwapRemove
