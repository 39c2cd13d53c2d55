import Mathlib.Data.List.Chain
import Mathlib.Data.List.Nodup
import Mathlib.Data.List.Perm.Basic

-- Lists of cells that point to the next one, as a table of these pointers. A cell is told by its index.
structure Chain where
  head : Option Nat
  next : List (Option Nat)
  deriving DecidableEq, Repr

namespace Chain

variable {c : Chain} {next : List (Option Nat)} {order : List Nat} {n i last fuel : Nat} {p : Option Nat}

-- The cells from a pointer on, unless there are more of them than `fuel`.
@[grind =]
def walk (next : List (Option Nat)) : Nat → Option Nat → Option (List Nat)
  | _,        none   => some []
  | 0,        some _ => none
  | fuel + 1, some i => next[i]?.bind fun p => (walk next fuel p).map (i :: ·)

-- A list that goes through more cells than there are has no end.
def cells (c : Chain) : Option (List Nat) :=
  walk c.next c.next.length c.head

-- One cell after the other.
def inOrder (n : Nat) : Chain where
  head := if n = 0 then none else some 0
  next := (List.range n).map fun i => if i + 1 < n then some (i + 1) else none

-- The cells are chained up behind `last`. Where the last one of them points to stays as it was.
@[grind =]
def relink : Chain → Option Nat → List Nat → Chain
  | c, _,         []         => c
  | c, none,      i :: order => relink { c with head := some i } (some i) order
  | c, some last, i :: order => relink { c with next := c.next.set last (some i) } (some i) order

-- A cell points to another one.
def Points (next : List (Option Nat)) (i j : Nat) : Prop :=
  next[i]? = some (some j)

theorem walk_none : walk next fuel none = some [] := by
  cases fuel
  all_goals rfl

theorem walk_chain (h : (i :: order).IsChain (Points next)) (hlast : (i :: order).getLast? = some last) (m : Nat) :
    walk next ((i :: order).length + m) (some i) = next[last]?.bind fun p => (walk next m p).map (i :: order ++ ·) := by
  induction order generalizing i with
  | nil =>
    obtain rfl : i = last := by simpa using hlast
    rw [List.length_singleton, Nat.add_comm, walk]
    rfl
  | cons j order ih =>
    obtain ⟨hij, h⟩ := List.isChain_cons_cons.mp h
    rw [List.getLast?_cons_cons] at hlast
    rw [List.length_cons, Nat.add_right_comm, walk, hij, Option.bind_some, ih h hlast, Option.map_bind]
    congr 1
    funext p
    simp [Function.comp_def]

-- There is no end where each cell points to another one.
theorem walk_endless (h : ∀ i < n, ∃ j < n, Points next i j) (fuel : Nat) (hi : i < n) : walk next fuel (some i) = none := by
  induction fuel generalizing i with
  | zero => rfl
  | succ fuel ih =>
    obtain ⟨j, hj, hij⟩ := h i hi
    rw [walk, hij, Option.bind_some, ih hj]
    rfl

@[simp]
theorem length_relink : (relink c p order).next.length = c.next.length := by
  induction order generalizing c p with
  | nil => cases p <;> rfl
  | cons i order ih =>
    cases p
    all_goals simp [relink, ih]

@[simp]
theorem head_relink : (relink c (some last) order).head = c.head := by
  induction order generalizing c last with
  | nil          => rfl
  | cons i _ ih => rw [relink, ih]

theorem relink_frame (h : i ∉ (last :: order).dropLast) : (relink c (some last) order).next[i]? = c.next[i]? := by
  induction order generalizing c last with
  | nil => rfl
  | cons j order ih =>
    rw [List.dropLast_cons_cons, List.mem_cons, not_or] at h
    rw [relink, ih h.2, List.getElem?_set_ne fun heq => h.1 heq.symm]

theorem relink_points (hnodup : (last :: order).Nodup) (hlt : ∀ i ∈ last :: order, i < c.next.length) :
    (last :: order).IsChain (Points (relink c (some last) order).next) := by
  induction order generalizing c last with
  | nil => exact .singleton _
  | cons j order ih =>
    obtain ⟨hlast, hnodup⟩ := List.nodup_cons.mp hnodup
    obtain ⟨hlt, hlts⟩ := List.forall_mem_cons.mp hlt
    rw [relink]
    refine .cons_cons ?_ (ih hnodup (by simpa using hlts))
    rw [Points, relink_frame fun h => hlast (List.dropLast_subset _ h), List.getElem?_set_self hlt]

theorem inOrder_points (n : Nat) : (List.range n).IsChain (Points (inOrder n).next) := by
  rw [List.isChain_iff_getElem]
  intro i hi
  rw [List.length_range] at hi
  simp [Points, inOrder, hi, Nat.lt_of_succ_lt hi]

theorem length_inOrder : (inOrder n).next.length = n := by
  simp [inOrder]

theorem cells_inOrder (n : Nat) : (inOrder n).cells = some (List.range n) := by
  cases n with
  | zero => rfl
  | succ n =>
    have hpoints := inOrder_points (n + 1)
    have hlast : (List.range (n + 1)).getLast? = some n := by simp [List.getLast?_range]
    have hlen : (inOrder (n + 1)).next.length = (List.range (n + 1)).length + 0 := by simp [inOrder]
    have hend : (inOrder (n + 1)).next[n]? = some none := by simp [inOrder]
    have hhead : (inOrder (n + 1)).head = some 0 := rfl
    rw [cells, hlen, hhead]
    obtain ⟨order, horder⟩ : ∃ order, List.range (n + 1) = 0 :: order := ⟨_, List.range_succ_eq_map⟩
    rw [horder] at hpoints hlast ⊢
    rw [walk_chain hpoints hlast, hend, Option.bind_some, walk_none]
    simp

section Relinked

variable (hperm : order.Perm (List.range (n + 1)))

include hperm

-- All cells are chained up. The last one points to what it pointed to before.
theorem relink_spec : ∃ i others, order = i :: others ∧ (relink (inOrder (n + 1)) none order).head = some i ∧
    order.IsChain (Points (relink (inOrder (n + 1)) none order).next) ∧
    (∀ last, order.getLast? = some last →
      (relink (inOrder (n + 1)) none order).next[last]? = some (if last < n then some (last + 1) else none)) := by
  have hlt : ∀ i ∈ order, i < n + 1 := fun i hi => List.mem_range.mp (hperm.mem_iff.mp hi)
  have hnodup : order.Nodup := hperm.nodup_iff.mpr List.nodup_range
  cases order with
  | nil => simp at hperm
  | cons i others =>
    refine ⟨i, others, rfl, ?_, ?_, ?_⟩
    · rw [relink, head_relink]
    · refine relink_points hnodup ?_
      simpa [length_inOrder] using hlt
    · intro last hlast
      have hsplit := List.dropLast_append_getLast? last hlast
      have hfresh : last ∉ (i :: others).dropLast := by
        intro hmem
        rw [← hsplit, List.nodup_append] at hnodup
        exact hnodup.2.2 last hmem last (by simp) rfl
      have hn := hlt last (List.mem_of_getLast? hlast)
      rw [relink, relink_frame hfresh]
      simp [inOrder, hn]

theorem cells_relink (hlast : order.getLast? = some n) : (relink (inOrder (n + 1)) none order).cells = some order := by
  obtain ⟨i, others, rfl, hhead, hpoints, hend⟩ := relink_spec hperm
  have hlen : (relink (inOrder (n + 1)) none (i :: others)).next.length = (i :: others).length + 0 := by
    rw [length_relink, length_inOrder, hperm.length_eq, List.length_range, Nat.add_zero]
  rw [cells, hhead, hlen, walk_chain hpoints hlast, hend n hlast, if_neg (Nat.lt_irrefl n), Option.bind_some, walk_none]
  simp

-- Where the last cell was not the last one before, the list goes on for ever.
theorem relink_endless (hlast : order.getLast? ≠ some n) (fuel : Nat) :
    walk (relink (inOrder (n + 1)) none order).next fuel (relink (inOrder (n + 1)) none order).head = none := by
  obtain ⟨i, others, horder, hhead, hpoints, hend⟩ := relink_spec hperm
  have hmem : ∀ j, j ∈ order ↔ j < n + 1 := fun j => hperm.mem_iff.trans List.mem_range
  rw [hhead]
  refine walk_endless (n := n + 1) (fun j hj => ?_) fuel ((hmem i).mp (horder ▸ List.mem_cons_self))
  obtain ⟨last, hsome⟩ : ∃ last, order.getLast? = some last := ⟨_, List.getLast?_eq_some_getLast (by simp [horder])⟩
  have hlt : last < n := by
    have hle := (hmem last).mp (List.mem_of_getLast? hsome)
    have hne : last ≠ n := fun h => hlast (h ▸ hsome)
    omega
  by_cases heq : j = last
  case pos =>
    refine ⟨last + 1, by omega, ?_⟩
    rw [heq, Points, hend last hsome, if_pos hlt]
  case neg =>
    -- The cell is in front of another one.
    obtain ⟨front, back, hsplit⟩ := List.append_of_mem ((hmem j).mpr hj)
    cases back with
    | nil =>
      rw [hsplit] at hsome
      exact absurd (by simpa using hsome) heq
    | cons k back =>
      refine ⟨k, (hmem k).mp (hsplit ▸ by simp), ?_⟩
      generalize (relink (inOrder (n + 1)) none order).next = next at hpoints
      rw [hsplit, List.isChain_append] at hpoints
      exact (List.isChain_cons_cons.mp hpoints.2.1).1

end Relinked

end Chain
