import Mathlib.Data.List.Cycle

-- Circular doubly linked lists, given by the two pointer maps of their nodes. Nothing here depends
-- on what a node is: the maps may be the fields of records in a heap or plain functions.
namespace Ring

variable {α : Type*} {next prev next' prev' : α → Option α} {a b c h : α} {l l' : List α}

-- Two nodes are linked if following `next` from the first and `prev` from the second lead to each
-- other.
def Linked (next prev : α → Option α) (a b : α) : Prop :=
  next a = some b ∧ prev b = some a

-- The ring of a list consists of its elements, each linked to its successor and the last one linked
-- to the first. An owner holds the ring by the first element of the list.
structure IsRing (next prev : α → Option α) (head : Option α) (l : List α) : Prop where
  nodup : l.Nodup
  head  : head = l.head?
  chain : Cycle.Chain (Linked next prev) (l : Cycle α)

theorem IsRing.nil : IsRing next prev none ([] : List α) where
  nodup := List.nodup_nil
  head  := rfl
  chain := trivial

theorem IsRing.eq_nil (r : IsRing next prev none l) : l = [] :=
  List.head?_eq_none_iff.mp r.head.symm

theorem IsRing.exists_cons (r : IsRing next prev (some h) l) : ∃ t, l = h :: t :=
  List.head?_eq_some_iff.mp r.head.symm

theorem isChain_congr {R S : α → α → Prop} (hc : List.IsChain R l)
    (h : ∀ x ∈ l.dropLast, ∀ y ∈ l.tail, R x y → S x y) : List.IsChain S l := by
  induction hc
  case nil       => exact .nil
  case singleton => exact .singleton _
  case cons_cons a b t hr _ ih =>
    refine .cons_cons (h a (by simp) b (by simp) hr) (ih fun x hx y hy => h x ?_ y ?_)
    · simp [hx]
    · simp only [List.tail_cons] at hy ⊢
      exact List.mem_cons_of_mem _ hy

-- A ring only depends on the pointers of its own nodes.
theorem IsRing.congr {head : Option α} (r : IsRing next prev head l)
    (hn : ∀ x ∈ l, next' x = next x) (hp : ∀ x ∈ l, prev' x = prev x) :
    IsRing next' prev' head l where
  nodup := r.nodup
  head  := r.head
  chain := by
    cases l with
    | nil => trivial
    | cons a t =>
      have hc := Cycle.chain_coe_cons _ _ _ |>.mp r.chain
      refine Cycle.chain_coe_cons _ _ _ |>.mpr (isChain_congr hc ?_)
      rintro x hx y hy ⟨h₁, h₂⟩
      have hx : x ∈ a :: t := by simpa [or_comm] using List.mem_of_mem_dropLast hx
      have hy : y ∈ a :: t := by simpa [or_comm] using hy
      exact ⟨hn x hx ▸ h₁, hp y hy ▸ h₂⟩

theorem IsRing.next_eq {head : Option α} (r : IsRing next prev head (a :: b :: l)) :
    next a = some b ∧ prev b = some a := by
  have hc := Cycle.chain_coe_cons _ _ _ |>.mp r.chain
  simp only [List.cons_append, List.isChain_cons_cons] at hc
  exact hc.left

-- The successor of a node is the next one in the list, or the head.
theorem IsRing.next_append {l₁ l₂ : List α} (r : IsRing next prev (some h) l)
    (hl : l = l₁ ++ c :: l₂) : next c = some (l₂.head?.getD h) := by
  obtain ⟨t, rfl⟩ := r.exists_cons
  have hc := Cycle.chain_coe_cons _ _ _ |>.mp r.chain
  rw [← List.cons_append, hl] at hc
  cases l₂ with
  | nil =>
    rw [List.append_assoc, List.singleton_append, List.isChain_append_cons_cons] at hc
    exact hc.right.left.left
  | cons d l₂ =>
    rw [List.append_assoc, List.cons_append, List.cons_append,
      List.isChain_append_cons_cons] at hc
    exact hc.right.left.left

-- The head comes first, so it does not come again before the end of the list.
theorem IsRing.ne_head {l₁ l₂ : List α} (r : IsRing next prev (some h) l)
    (hl : l = l₁ ++ c :: a :: l₂) : a ≠ h := by
  obtain ⟨t, ht⟩ := r.exists_cons
  have hd := r.nodup
  rintro rfl
  rw [hl] at ht hd
  cases l₁ with
  | nil =>
    cases ht
    simp at hd
  | cons b l₁ =>
    cases ht
    simp at hd

-- The ring seen from one of its nodes.
theorem exists_rotation (hc : Cycle.Chain (Linked next prev) (l : Cycle α)) (ha : a ∈ l) :
    ∃ t, l ~r (a :: t) ∧ List.IsChain (Linked next prev) (a :: (t ++ [a])) := by
  obtain ⟨l₁, l₂, rfl⟩ := List.append_of_mem ha
  have hr : (l₁ ++ a :: l₂) ~r (a :: (l₂ ++ l₁)) := ⟨l₁.length, by simp⟩
  refine ⟨l₂ ++ l₁, hr, ?_⟩
  rwa [Cycle.coe_eq_coe.mpr hr, Cycle.chain_coe_cons] at hc

-- Every node of a ring has a successor in it, which points back.
theorem exists_next (hc : Cycle.Chain (Linked next prev) (l : Cycle α)) (ha : a ∈ l) :
    ∃ n ∈ l, Linked next prev a n := by
  obtain ⟨t, hr, hc⟩ := exists_rotation hc ha
  cases t with
  | nil => exact ⟨a, ha, by simpa using hc⟩
  | cons n t => exact ⟨n, hr.mem_iff.mpr (by simp), by simpa using (List.isChain_cons_cons.mp hc).left⟩

-- Every node of a ring has a predecessor in it, which points forward.
theorem exists_prev (hc : Cycle.Chain (Linked next prev) (l : Cycle α)) (ha : a ∈ l) :
    ∃ p ∈ l, Linked next prev p a := by
  obtain ⟨t, hr, hc⟩ := exists_rotation hc ha
  rcases List.eq_nil_or_concat t with rfl | ⟨t, p, rfl⟩
  · exact ⟨a, ha, by simpa using hc⟩
  · rw [List.concat_eq_append, List.append_assoc, ← List.cons_append, List.singleton_append,
      List.isChain_append_cons_cons] at hc
    exact ⟨p, hr.mem_iff.mpr (by simp), hc.right.left⟩

-- Inserting a node right behind the head, with the owner then pointing to the new node.
theorem IsRing.insert [DecidableEq α] {n : α} (r : IsRing next prev (some h) (h :: l))
    (hc : c ∉ h :: l) (hn : next h = some n)
    (hn' : ∀ x, next' x = if x = h then some c else if x = c then some n else next x)
    (hp' : ∀ x, prev' x = if x = n then some c else if x = c then some h else prev x) :
    IsRing next' prev' (some c) (c :: (l ++ [h])) where
  nodup := by
    have hd := (List.perm_append_singleton h l).nodup_iff.mpr r.nodup
    exact List.nodup_cons.mpr ⟨by simpa [or_comm] using hc, hd⟩
  head  := rfl
  chain := by
    have hr : ((c :: (l ++ [h]) : List α) : Cycle α) = (h :: c :: l : List α) := by
      apply Cycle.coe_eq_coe.mpr
      exact (List.IsRotated.symm ⟨1, by simp⟩)
    have hl := Cycle.chain_coe_cons _ _ _ |>.mp r.chain
    obtain ⟨t, ht⟩ : ∃ t, l ++ [h] = n :: t := by
      cases hx : l ++ [h] with
      | nil => simp at hx
      | cons m t =>
        rw [hx, List.isChain_cons_cons] at hl
        exact ⟨t, by rw [Option.some.inj (hn.symm.trans hl.left.left)]⟩
    have hd : (n :: t).Nodup := by
      rw [← ht]
      exact (List.perm_append_singleton h l).nodup_iff.mpr r.nodup
    have hm : ∀ x, x ∈ n :: t → x ≠ c := by
      rintro x hx rfl
      rw [← ht] at hx
      exact hc (by simpa [or_comm] using hx)
    have hch : c ≠ h := fun he => hc (by simp [he])
    rw [hr, Cycle.chain_coe_cons, List.cons_append, ht, List.isChain_cons_cons,
      List.isChain_cons_cons]
    refine ⟨⟨by simp [hn'], ?_⟩, ⟨by simp [hn', hch], by simp [hp']⟩, ?_⟩
    · simp [hp', (hm n (by simp)).symm]
    · rw [ht, List.isChain_cons_cons] at hl
      refine isChain_congr hl.right ?_
      rintro x hx y hy ⟨h₁, h₂⟩
      have hxh : x ≠ h := by
        rintro rfl
        have hlast : (n :: t).dropLast = l := by rw [← ht, List.dropLast_concat]
        exact (List.nodup_cons.mp r.nodup).left (hlast ▸ hx)
      have hyn : y ≠ n := fun he => (List.nodup_cons.mp hd).left (he ▸ hy)
      have hxc := hm x (List.mem_of_mem_dropLast hx)
      have hyc := hm y (List.mem_of_mem_tail hy)
      exact ⟨by simp [hn', hxh, hxc, h₁], by simp [hp', hyn, hyc, h₂]⟩

theorem IsRing.singleton (hn : next c = some c) (hp : prev c = some c) :
    IsRing next prev (some c) [c] where
  nodup := List.nodup_singleton c
  head  := rfl
  chain := by simp [Linked, hn, hp]

-- Taking a node out by linking its predecessor to its successor.
theorem IsRing.remove [DecidableEq α] {head : Option α} {p n : α} (r : IsRing next prev head l)
    (hc : c ∈ l) (hp : Linked next prev p c) (hn : Linked next prev c n)
    (hn' : ∀ x, x ≠ c → next' x = if x = p then some n else next x)
    (hp' : ∀ x, x ≠ c → prev' x = if x = n then some p else prev x) :
    IsRing next' prev' (l.erase c).head? (l.erase c) where
  nodup := r.nodup.erase c
  head  := rfl
  chain := by
    obtain ⟨l₁, l₂, hl₁, rfl, he⟩ := List.exists_erase_eq hc
    have hr : ((l₁ ++ l₂ : List α) : Cycle α) = (l₂ ++ l₁ : List α) :=
      Cycle.coe_eq_coe.mpr List.isRotated_append
    have hrot : (l₁ ++ c :: l₂) ~r (c :: (l₂ ++ l₁)) := ⟨l₁.length, by simp⟩
    have hl := r.chain
    have hd := hrot.nodup_iff.mp r.nodup
    rw [Cycle.coe_eq_coe.mpr hrot, Cycle.chain_coe_cons] at hl
    rw [he, hr]
    cases ht : l₂ ++ l₁ with
    | nil => trivial
    | cons m t =>
      rw [ht] at hl hd
      rw [Cycle.chain_coe_cons]
      rw [List.cons_append, List.isChain_cons_cons] at hl
      cases Option.some.inj (hn.left.symm.trans hl.left.left)
      obtain ⟨s, q, hs⟩ := (List.eq_nil_or_concat (n :: t)).resolve_left (by simp)
      rw [List.concat_eq_append] at hs
      have hl' := hl.right
      rw [← List.cons_append, hs, List.append_assoc, List.singleton_append,
        List.isChain_append_cons_cons] at hl'
      cases Option.some.inj (hp.right.symm.trans hl'.right.left.right)
      have hpc : p ≠ c := by
        rintro rfl
        exact (List.nodup_cons.mp hd).left (by simp [hs])
      have hnc : n ≠ c := by
        rintro rfl
        exact (List.nodup_cons.mp hd).left (by simp)
      have hd' := (List.nodup_cons.mp hd).right
      rw [← List.cons_append, hs, List.append_assoc, List.singleton_append,
        List.isChain_append_cons_cons]
      refine ⟨?_, ⟨by simp [hn' p hpc], by simp [hp' n hnc]⟩, .singleton _⟩
      rw [← hs] at hl' ⊢
      refine isChain_congr hl'.left ?_
      rintro x hx y hy ⟨h₁, h₂⟩
      have hxm := List.mem_of_mem_dropLast hx
      have hym := List.mem_of_mem_tail hy
      have hxp : x ≠ p := by
        rintro rfl
        rw [hs, List.dropLast_concat] at hx
        rw [hs] at hd'
        exact (List.nodup_append.mp hd').right.right x hx x (by simp) rfl
      have hyn : y ≠ n := fun he => (List.nodup_cons.mp hd').left (he ▸ hy)
      have hxc : x ≠ c := fun he => (List.nodup_cons.mp hd).left (he ▸ hxm)
      have hyc : y ≠ c := fun he => (List.nodup_cons.mp hd).left (he ▸ hym)
      exact ⟨by simp [hn' x hxc, hxp, h₁], by simp [hp' y hyc, hyn, h₂]⟩

-- The pointer that the owner has to hold after `IsRing.remove`.
theorem IsRing.head?_erase [DecidableEq α] {head : Option α} {n : α}
    (r : IsRing next prev head l) (hc : c ∈ l) (hn : next c = some n) :
    (l.erase c).head? = if head = some c then (if n = c then none else some n) else head := by
  cases l with
  | nil => simp at hc
  | cons a t =>
    rw [r.head, List.head?_cons]
    by_cases ha : a = c
    case neg => simp [ha]
    case pos =>
      subst ha
      cases t with
      | nil =>
        have hl := Cycle.chain_coe_cons _ _ _ |>.mp r.chain
        simp only [List.nil_append, List.isChain_cons_cons, List.isChain_singleton, and_true] at hl
        simp [Option.some.inj (hn.symm.trans hl.left)]
      | cons b t =>
        cases Option.some.inj (hn.symm.trans r.next_eq.left)
        have hd := (List.nodup_cons.mp r.nodup).left
        have : n ≠ a := by
          rintro rfl
          simp at hd
        simp [this]

end Ring
