import Mathlib.Data.List.Infix

-- The first occurrence of a pattern in a list, and when a pattern occurs in a list that is put
-- together from several parts.
namespace Search

variable {α : Type*} {p l a b pre pre' post post' : List α} {c : α}

-- The list is cut in two by the pattern, which does not occur before that.
structure First (p l pre post : List α) : Prop where
  eq    : l = pre ++ (p ++ post)
  first : ∀ i < pre.length, ¬p <+: l.drop i

theorem First.prefix_drop (f : First p l pre post) : p <+: l.drop pre.length := by
  rw [f.eq, List.drop_left]
  exact List.prefix_append p post

theorem First.unique (f : First p l pre post) (f' : First p l pre' post') :
    pre = pre' ∧ post = post' := by
  have hlen : pre.length = pre'.length := by
    rcases Nat.lt_trichotomy pre.length pre'.length with h | h | h
    · exact absurd f.prefix_drop (f'.first _ h)
    · exact h
    · exact absurd f'.prefix_drop (f.first _ h)
  obtain ⟨hpre, hpost⟩ := List.append_inj (f.eq.symm.trans f'.eq) hlen
  exact ⟨hpre, List.append_cancel_left hpost⟩

theorem First.nil (p post : List α) : First p (p ++ post) [] post where
  eq    := rfl
  first := by simp

theorem First.cons (h : ¬p <+: c :: l) (f : First p l pre post) : First p (c :: l) (c :: pre) post where
  eq    := congrArg (c :: ·) f.eq
  first := by
    intro i hi
    cases i with
    | zero   => exact h
    | succ i => exact f.first i (Nat.lt_of_succ_lt_succ hi)

theorem First.length_le (f : First p l pre post) : pre.length + p.length + post.length = l.length := by
  rw [f.eq, List.length_append, List.length_append, Nat.add_assoc]

-- The pattern does not occur in front of its first occurrence.
theorem First.not_infix (f : First p l pre post) (hp : p ≠ []) : ¬p <:+: pre := by
  rintro ⟨s, t, rfl⟩
  refine f.first s.length ?_ ?_
  · have := List.length_pos_iff.mpr hp
    simp only [List.length_append]
    omega
  · rw [f.eq, List.append_assoc, List.append_assoc, List.drop_left]
    exact List.prefix_append ..

-- A pattern that crosses the end of a list contains its last element.
theorem First.of_getLast (h : ¬p <:+: pre) (hl : ∀ c ∈ pre.getLast?, c ∉ p) (post : List α) :
    First p (pre ++ (p ++ post)) pre post where
  eq    := rfl
  first := by
    intro i hi hp
    rw [List.drop_append_of_le_length hi.le] at hp
    by_cases hlen : p.length ≤ (pre.drop i).length
    case pos =>
      exact h ((List.prefix_of_prefix_length_le hp (List.prefix_append ..) hlen).isInfix.trans
        (List.drop_suffix i pre).isInfix)
    case neg =>
      have hpre := List.prefix_of_prefix_length_le (List.prefix_append (pre.drop i) _) hp (Nat.le_of_not_le hlen)
      have hne : pre.drop i ≠ [] := by simpa using hi
      have hlast := List.getLast?_eq_some_getLast (List.ne_nil_of_length_pos (Nat.zero_lt_of_lt hi))
      refine hl _ hlast (hpre.subset ?_)
      rw [← List.getLast_drop hne]
      exact List.getLast_mem hne

-- A pattern without the separator is on one side of it.
theorem infix_append_cons_iff (hc : c ∉ p) : p <:+: a ++ c :: b ↔ p <:+: a ∨ p <:+: b := by
  have hpre : ∀ q, q <+: c :: b → c ∉ q → q = [] := by
    intro q hq hcq
    cases q with
    | nil => rfl
    | cons d q =>
      obtain ⟨rfl, -⟩ := List.cons_prefix_cons.mp hq
      simp at hcq
  constructor
  · intro h
    rcases List.infix_append_iff.mp h with h | h | ⟨q, q', rfl, hq, hq'⟩
    · exact .inl h
    · rcases List.infix_cons_iff.mp h with h | h
      · rw [hpre p h hc]
        exact .inl List.nil_infix
      · exact .inr h
    · have hnil := hpre q' hq' fun hm => hc (List.mem_append_right _ hm)
      rw [hnil, List.append_nil]
      exact .inl hq.isInfix
  · rintro (h | h)
    · exact h.trans ⟨[], c :: b, by simp⟩
    · exact h.trans ⟨a ++ [c], [], by simp⟩

-- A pattern whose last element is not in the second part is in the first one.
theorem infix_of_getLast (hp : p ≠ []) (hc : p.getLast hp ∉ b) (h : p <:+: a ++ b) : p <:+: a := by
  have hnot : ∀ q, q <:+ p → q <:+: b → q = [] := by
    intro q hq hqb
    by_contra hne
    have hlast := List.mem_of_getLast? (List.getLast?_eq_some_getLast hne)
    obtain ⟨s, rfl⟩ := hq
    rw [List.getLast_append_of_ne_nil hp hne] at hc
    exact hc (hqb.subset hlast)
  rcases List.infix_append_iff.mp h with h | h | ⟨q, q', rfl, hq, hq'⟩
  · exact h
  · exact absurd (hnot p (List.suffix_refl p) h) hp
  · rw [hnot q' (List.suffix_append q q') hq'.isInfix, List.append_nil]
    exact hq.isInfix

-- Something else is found first if and only if it is in front of what is looked for.
theorem find?_or_eq_iff {p q : α → Bool} {l : List α} :
    l.find? (fun a => p a || q a) = l.find? p ↔ ∀ a ∈ l.takeWhile (!p ·), q a = false := by
  induction l with
  | nil => simp
  | cons a l ih =>
    cases hp : p a with
    | true  => simp [hp]
    | false =>
      cases hq : q a with
      | false => simpa [hp, hq] using ih
      | true  =>
        have hne : l.find? p ≠ some a := fun h => by simp [List.find?_some h] at hp
        simpa [hp, hq] using hne.symm

end Search

-- Lists cut at a separator: the parts that it ends, and what comes after the last one.
namespace Lines

variable {α : Type*} [DecidableEq α] (sep : α)

def cut : List α → List (List α) × List α
  | []     => ([], [])
  | a :: l =>
    if a = sep then ([] :: (cut l).1, (cut l).2)
    else match (cut l).1 with
      | []         => ([], a :: (cut l).2)
      | x :: parts => ((a :: x) :: parts, (cut l).2)

variable {sep} {a : α} {l l' x : List α}

theorem cut_of_notMem (h : sep ∉ l) : cut sep l = ([], l) := by
  induction l
  case nil => rfl
  case cons a l ih =>
    obtain ⟨hne, h⟩ := not_or.mp (List.mem_cons.not.mp h)
    rw [cut, if_neg (Ne.symm hne), ih h]

theorem cut_append_sep (h : sep ∉ x) : cut sep (x ++ sep :: l) = (x :: (cut sep l).1, (cut sep l).2) := by
  induction x
  case nil => rw [List.nil_append, cut, if_pos rfl]
  case cons a x ih =>
    obtain ⟨hne, h⟩ := not_or.mp (List.mem_cons.not.mp h)
    rw [List.cons_append, cut, if_neg (Ne.symm hne), ih h]

-- Either there is no separator or there is a first one.
theorem notMem_or_split (sep : α) (l : List α) : sep ∉ l ∨ ∃ x l', sep ∉ x ∧ l = x ++ sep :: l' := by
  by_cases h : sep ∈ l
  · obtain ⟨x, l', rfl, hx⟩ := List.eq_append_cons_of_mem h
    exact .inr ⟨x, l', hx, rfl⟩
  · exact .inl h

-- Induction on the parts.
theorem cut_induction (sep : α) {p : List α → Prop} (hlast : ∀ l, sep ∉ l → p l)
    (hcut : ∀ x l, sep ∉ x → p l → p (x ++ sep :: l)) (l : List α) : p l := by
  suffices ∀ n l, l.length ≤ n → p l from this _ l (Nat.le_refl _)
  intro n
  induction n
  case zero =>
    intro l hl
    rw [List.length_eq_zero_iff.mp (Nat.le_zero.mp hl)]
    exact hlast [] List.not_mem_nil
  case succ n ih =>
    intro l hl
    obtain h | ⟨x, l', hx, rfl⟩ := notMem_or_split sep l
    · exact hlast l h
    · refine hcut x l' hx (ih l' ?_)
      rw [List.length_append, List.length_cons] at hl
      omega

theorem notMem_rest : sep ∉ (cut sep l).2 := by
  induction l using cut_induction sep
  case hlast l h      => rwa [cut_of_notMem h]
  case hcut x l hx ih => rwa [cut_append_sep hx]

-- What is after the last separator is cut with what follows.
theorem cut_append (l l' : List α) :
    cut sep (l ++ l') =
      ((cut sep l).1 ++ (cut sep ((cut sep l).2 ++ l')).1, (cut sep ((cut sep l).2 ++ l')).2) := by
  induction l using cut_induction sep
  case hlast l h      => rw [cut_of_notMem h, List.nil_append]
  case hcut x l hx ih => rw [List.append_assoc, List.cons_append, cut_append_sep hx, cut_append_sep hx, ih, List.cons_append]

theorem length_cut (l : List α) : (cut sep l).1.length = l.count sep := by
  induction l using cut_induction sep
  case hlast l h      => rw [cut_of_notMem h, List.count_eq_zero.mpr h, List.length_nil]
  case hcut x l hx ih =>
    rw [cut_append_sep hx, List.length_cons, ih, List.count_append, List.count_eq_zero.mpr hx, List.count_cons_self, Nat.zero_add]

theorem mem_of_mem_rest (ha : a ∈ (cut sep l).2) : a ∈ l := by
  induction l using cut_induction sep
  case hlast l h => rwa [cut_of_notMem h] at ha
  case hcut y l hy ih =>
    rw [cut_append_sep hy] at ha
    exact List.mem_append_right _ (List.mem_cons_of_mem _ (ih ha))

theorem mem_cut (ha : a ∈ l) (hne : a ≠ sep) : (∃ x ∈ (cut sep l).1, a ∈ x) ∨ a ∈ (cut sep l).2 := by
  induction l using cut_induction sep
  case hlast l h => exact .inr (by rwa [cut_of_notMem h])
  case hcut y l hy ih =>
    rw [cut_append_sep hy]
    obtain h | h := List.mem_append.mp ha
    · exact .inl ⟨y, List.mem_cons_self, h⟩
    · obtain ⟨x, hx, hax⟩ | hr := ih ((List.mem_cons.mp h).resolve_left hne)
      · exact .inl ⟨x, List.mem_cons_of_mem _ hx, hax⟩
      · exact .inr hr

end Lines
