import GcrModel.Gcr.Pkcs11Importer.Theorems.Supplement

namespace Pkcs11Importer

open Gck

variable {env : Env} {s s' : State} {e : Event} {i : Nat} {item : Item} {f : Prop} {w : Waiting → Prop}

-- An import that has not been started is as it was made.
structure Inv (s : State) : Prop where
  nodup     : (s.requested ++ ids s.queue).Nodup
  below     : ∀ id ∈ s.requested ++ ids s.queue, id < s.queued
  objects   : (ids s.objects).Nodup
  created   : ∀ id ∈ ids s.objects, id ∈ s.requested
  creating  : ∀ i id, (s.tasks i).creates id → id ∈ s.requested ∧ id ∉ ids s.objects
  distinct  : ∀ i j id, (s.tasks i).creates id → (s.tasks j).creates id → i = j
  unstarted : ∀ i, s.started ≤ i → s.tasks i = {}
  completed : ∀ i < s.started, (s.tasks i).returned.length = if (s.tasks i).waiting.isSome then 0 else 1

-- The same of all imports but `i`.
structure Others (s : State) (i : Nat) : Prop where
  nodup     : (s.requested ++ ids s.queue).Nodup
  below     : ∀ id ∈ s.requested ++ ids s.queue, id < s.queued
  objects   : (ids s.objects).Nodup
  created   : ∀ id ∈ ids s.objects, id ∈ s.requested
  creating  : ∀ j id, j ≠ i → (s.tasks j).creates id → id ∈ s.requested ∧ id ∉ ids s.objects
  distinct  : ∀ j k id, j ≠ i → k ≠ i → (s.tasks j).creates id → (s.tasks k).creates id → j = k
  unstarted : ∀ j, s.started ≤ j → s.tasks j = {}
  started   : i < s.started
  completed : ∀ j < s.started, j ≠ i →
    (s.tasks j).returned.length = if (s.tasks j).waiting.isSome then 0 else 1

-- The import `i` has been called back.
structure Handling (s : State) (i : Nat) : Prop extends Others s i where
  pending : (s.tasks i).returned = []

def KeptBut (s : State) (i : Nat) : Prop :=
  ∀ id < s.queued, id ∈ ids s.objects ∨ id ∈ ids s.queue ∨ ∃ j, j ≠ i ∧ (s.tasks j).creates id

-- What the functions do that end with `i` waiting or completed: it fails for the reason `f`, and what else it may wait for
-- is `w`.
structure Handled (f : Prop) (w : Waiting → Prop) (s s' : State) (i : Nat) : Prop where
  inv     : Inv s'
  takes   : ∃ new, ids s.queue = new ++ ids s'.queue ∧ s'.requested = s.requested ++ new
  kept    : KeptBut s i → Kept s'
  others  : ∀ j, j ≠ i → s'.tasks j = s.tasks j
  success : true ∈ (s'.tasks i).returned → s'.queue = []
  failure : false ∈ (s'.tasks i).returned → f
  onward  : ∀ waiting, (s'.tasks i).waiting = some waiting →
    w waiting ∨ ∃ item, waiting = .createObject item none ∧ s'.requested = s.requested ++ [item.id]

theorem Inv.others (v : Inv s) (h : i < s.started) : Others s i where
  nodup     := v.nodup
  below     := v.below
  objects   := v.objects
  created   := v.created
  creating  := fun j id _ => v.creating j id
  distinct  := fun j k id _ _ => v.distinct j k id
  unstarted := v.unstarted
  started   := h
  completed := fun j hj _ => v.completed j hj

theorem Inv.started_of_waiting (v : Inv s) (h : (s.tasks i).waiting.isSome) : i < s.started := by
  by_contra hle
  rw [v.unstarted i (Nat.le_of_not_lt hle)] at h
  cases h

theorem Inv.handling (v : Inv s) (h : (s.tasks i).waiting.isSome) : Handling s i where
  toOthers := v.others (v.started_of_waiting h)
  pending  := by
    have hcompleted := v.completed i (v.started_of_waiting h)
    rw [if_pos h] at hcompleted
    exact List.eq_nil_of_length_eq_zero hcompleted

@[simp] theorem setTask_self (task : Task) : (s.setTask i task).tasks i = task :=
  Function.update_self ..

theorem setTask_of_ne {j : Nat} (h : j ≠ i) (task : Task) : (s.setTask i task).tasks j = s.tasks j :=
  Function.update_of_ne h ..

-- The task of `i` gets another value.
theorem Others.setTask (g : Others s i) {task : Task}
    (hcompleted : task.returned.length = if task.waiting.isSome then 0 else 1)
    (hcreating : ∀ id, task.creates id → id ∈ s.requested ∧ id ∉ ids s.objects ∧
      ∀ j, j ≠ i → ¬(s.tasks j).creates id) : Inv (s.setTask i task) where
  nodup    := g.nodup
  below    := g.below
  objects  := g.objects
  created  := g.created
  creating := by
    intro j id h
    by_cases hj : j = i
    · subst hj
      rw [setTask_self] at h
      exact ⟨(hcreating id h).left, (hcreating id h).right.left⟩
    · rw [setTask_of_ne hj] at h
      exact g.creating j id hj h
  distinct := by
    intro j k id hj hk
    by_cases hji : j = i <;> by_cases hki : k = i
    · rw [hji, hki]
    · subst hji
      rw [setTask_self] at hj
      rw [setTask_of_ne hki] at hk
      exact absurd hk ((hcreating id hj).right.right k hki)
    · subst hki
      rw [setTask_self] at hk
      rw [setTask_of_ne hji] at hj
      exact absurd hj ((hcreating id hk).right.right j hji)
    · rw [setTask_of_ne hji] at hj
      rw [setTask_of_ne hki] at hk
      exact g.distinct j k id hji hki hj hk
  unstarted := by
    intro j hj
    have hne : j ≠ i := fun h => absurd g.started (Nat.not_lt.mpr (h ▸ hj))
    rw [setTask_of_ne hne]
    exact g.unstarted j hj
  completed := by
    intro j hj
    by_cases hji : j = i
    · subst hji
      rwa [setTask_self]
    · rw [setTask_of_ne hji]
      exact g.completed j hj hji

namespace Handling

theorem kept_setTask {task : Task} (h : KeptBut s i) : Kept (s.setTask i task) := by
  intro id hid
  rcases h id hid with h | h | ⟨j, hj, h⟩
  · exact .inl h
  · exact .inr (.inl h)
  · refine .inr (.inr ⟨j, ?_⟩)
    rwa [setTask_of_ne hj]

theorem returns (g : Handling s i) {result : Bool} (h : result = true → s.queue = []) (hf : result = false → f) :
    Handled f w s (s.returns i result) i where
  inv   := by
    apply g.setTask
    · rw [g.pending]
      rfl
    · rintro id ⟨item, _, hwaiting, -⟩
      cases hwaiting
  takes   := ⟨[], rfl, (List.append_nil _).symm⟩
  kept    := kept_setTask
  others  := fun j hj => setTask_of_ne hj _
  success := by
    intro htrue
    rw [State.returns, setTask_self, g.pending, List.nil_append, List.mem_singleton] at htrue
    exact h htrue.symm
  failure := by
    intro hfalse
    rw [State.returns, setTask_self, g.pending, List.nil_append, List.mem_singleton] at hfalse
    exact hf hfalse.symm
  onward  := by
    intro waiting hwaiting
    rw [State.returns, setTask_self] at hwaiting
    cases hwaiting

theorem fails (g : Handling s i) (hf : f) : Handled f w s (s.returns i false) i :=
  g.returns (fun h => absurd h (by decide)) fun _ => hf

theorem wait (g : Handling s i) {waiting : Waiting} (h : ∀ item result, waiting ≠ .createObject item result) (hw : w waiting) :
    Handled f w s (s.wait i waiting) i where
  inv   := by
    apply g.setTask
    · rw [g.pending]
      rfl
    · rintro id ⟨item, result, hwaiting, -⟩
      exact absurd (Option.some.inj hwaiting) (h item result)
  takes   := ⟨[], rfl, (List.append_nil _).symm⟩
  kept    := kept_setTask
  others  := fun j hj => setTask_of_ne hj _
  success := by
    intro htrue
    rw [State.wait, setTask_self, g.pending] at htrue
    cases htrue
  failure := by
    intro hfalse
    rw [State.wait, setTask_self, g.pending] at hfalse
    cases hfalse
  onward  := by
    intro waiting' hwaiting
    rw [State.wait, setTask_self] at hwaiting
    exact .inl (Option.some.inj hwaiting ▸ hw)

theorem stateCreateObject (g : Handling s i) : Handled f w s (stateCreateObject s i) i := by
  rw [Pkcs11Importer.stateCreateObject]
  cases hqueue : s.queue
  case nil => exact g.returns (fun _ => hqueue) nofun
  case cons item queue =>
    have hids : ids s.queue = item.id :: ids queue := congrArg ids hqueue
    have happend : (s.requested ++ [item.id]) ++ ids queue = s.requested ++ ids s.queue := by
      rw [hids, List.append_assoc, List.singleton_append]
    have hnew : item.id ∉ s.requested := by
      have hnodup := g.nodup
      rw [hids] at hnodup
      exact fun hmem => (List.disjoint_of_nodup_append hnodup) hmem List.mem_cons_self
    let t : State := { s with queue := queue, requested := s.requested ++ [item.id] }
    have ht : Handling t i := {
      nodup     := happend ▸ g.nodup
      below     := happend ▸ g.below
      objects   := g.objects
      created   := fun id hid => List.mem_append_left _ (g.created id hid)
      creating  := fun j id hj h => ⟨List.mem_append_left _ (g.creating j id hj h).left, (g.creating j id hj h).right⟩
      distinct  := g.distinct
      unstarted := g.unstarted
      started   := g.started
      completed := g.completed
      pending   := g.pending
    }
    have hself : (t.wait i (.createObject item none)).tasks i = { t.tasks i with waiting := some (.createObject item none) } :=
      setTask_self _
    have hpending : (t.tasks i).returned = [] := g.pending
    change Handled f w s (t.wait i (.createObject item none)) i
    refine ⟨?_, ⟨[item.id], hids, rfl⟩, ?_, fun j hj => setTask_of_ne hj _, ?_, ?_, ?_⟩
    · apply ht.setTask
      · exact congrArg List.length g.pending
      · rintro id ⟨item', result, hwaiting, rfl⟩
        cases hwaiting
        refine ⟨List.mem_append_right _ List.mem_cons_self, fun hid => hnew (g.created _ hid), fun j hj h => ?_⟩
        exact hnew (g.creating j _ hj h).left
    · intro hkept id hid
      rcases hkept id hid with h | h | ⟨j, hj, h⟩
      · exact .inl h
      · rw [hids] at h
        rcases List.mem_cons.mp h with rfl | h
        · refine .inr (.inr ⟨i, item, none, ?_, rfl⟩)
          rw [State.wait, setTask_self]
        · exact .inr (.inl h)
      · refine .inr (.inr ⟨j, ?_⟩)
        rwa [State.wait, setTask_of_ne hj]
    · intro htrue
      rw [hself, hpending] at htrue
      cases htrue
    · intro hfalse
      rw [hself, hpending] at hfalse
      cases hfalse
    · intro waiting hwaiting
      rw [hself] at hwaiting
      exact .inr ⟨item, (Option.some.inj hwaiting).symm, rfl⟩

theorem nextState (g : Handling s i) {state : State → Nat → State} (h : Handled f w s (state s i) i)
    (hf : (s.tasks i).cancelled = true → f) : Handled f w s (nextState s i state) i := by
  rw [Pkcs11Importer.nextState]
  split
  case isTrue hc => exact g.fails (hf hc)
  case isFalse => exact h

theorem completeCreateObject (g : Handling s i) (hrequested : item.id ∈ s.requested)
    (hnew : item.id ∉ ids s.objects) (hothers : ∀ j, j ≠ i → ¬(s.tasks j).creates item.id)
    (hf : (s.tasks i).cancelled = true → f) :
    Handled f w { s with objects := s.objects ++ [item] } (completeCreateObject s i (some item)) i := by
  have hids : ids (s.objects ++ [item]) = ids s.objects ++ [item.id] := List.map_append
  have ht : Handling { s with objects := s.objects ++ [item] } i := {
    nodup     := g.nodup
    below     := g.below
    objects   := by
      rw [hids]
      exact List.nodup_append_comm.mp (List.nodup_cons.mpr ⟨hnew, g.objects⟩)
    created   := by
      intro id hid
      rw [hids] at hid
      rcases List.mem_append.mp hid with hid | hid
      · exact g.created id hid
      · exact List.mem_singleton.mp hid ▸ hrequested
    creating  := by
      intro j id hj h
      refine ⟨(g.creating j id hj h).left, fun hid => ?_⟩
      rw [hids] at hid
      rcases List.mem_append.mp hid with hid | hid
      · exact (g.creating j id hj h).right hid
      · exact hothers j hj (List.mem_singleton.mp hid ▸ h)
    distinct  := g.distinct
    unstarted := g.unstarted
    started   := g.started
    completed := g.completed
    pending   := g.pending
  }
  exact ht.nextState ht.stateCreateObject hf

-- The queue is arranged anew before items are taken from it.
theorem supplemented (g : Handling s i) {queue : List Item} (h : (ids queue).Perm (ids s.queue)) :
    Handling { s with queue := queue } i := {
  nodup     := (h.append_left s.requested).nodup_iff.mpr g.nodup
  below     := fun id hid => g.below id ((h.append_left s.requested).mem_iff.mp hid)
  objects   := g.objects
  created   := g.created
  creating  := g.creating
  distinct  := g.distinct
  unstarted := g.unstarted
  started   := g.started
  completed := g.completed
  pending   := g.pending
}

end Handling

theorem Inv.start : Inv {} where
  nodup     := List.nodup_nil
  below     := fun _ hid => absurd hid List.not_mem_nil
  objects   := List.nodup_nil
  created   := fun _ hid => absurd hid List.not_mem_nil
  creating  := by
    rintro i id ⟨item, result, hwaiting, -⟩
    cases hwaiting
  distinct  := by
    rintro i j id ⟨item, result, hwaiting, -⟩
    cases hwaiting
  unstarted := fun _ _ => rfl
  completed := fun _ hi => absurd hi (Nat.not_lt_zero _)

theorem Inv.queueItem (v : Inv s) (attrs : Attributes) : Inv (queueItem s attrs) := by
  have hids : ids (s.queue ++ [⟨s.queued, attrs⟩]) = ids s.queue ++ [s.queued] := List.map_append
  have hrequested : s.requested ++ ids (s.queue ++ [⟨s.queued, attrs⟩]) = (s.requested ++ ids s.queue) ++ [s.queued] := by
    rw [hids, List.append_assoc]
  exact {
    nodup     := by
      change (s.requested ++ ids (s.queue ++ [⟨s.queued, attrs⟩])).Nodup
      rw [hrequested]
      apply List.nodup_append_comm.mp
      exact List.nodup_cons.mpr ⟨fun hmem => lt_irrefl _ (v.below _ hmem), v.nodup⟩
    below     := by
      intro id hid
      change id ∈ s.requested ++ ids (s.queue ++ [⟨s.queued, attrs⟩]) at hid
      rw [hrequested] at hid
      rcases List.mem_append.mp hid with hid | hid
      · exact Nat.lt_succ_of_lt (v.below id hid)
      · exact List.mem_singleton.mp hid ▸ Nat.lt_succ_self _
    objects   := v.objects
    created   := v.created
    creating  := v.creating
    distinct  := v.distinct
    unstarted := v.unstarted
    completed := v.completed
  }

-- An import that goes on waiting for the same.
theorem Inv.setTask (v : Inv s) (h : i < s.started) (task : Task) (hreturned : task.returned = (s.tasks i).returned)
    (hwaiting : task.waiting.isSome = (s.tasks i).waiting.isSome)
    (hcreates : ∀ id, task.creates id → (s.tasks i).creates id) : Inv (s.setTask i task) := by
  apply (v.others h).setTask
  · rw [hreturned, hwaiting]
    exact v.completed i h
  · intro id hid
    have hcreating := v.creating i id (hcreates id hid)
    exact ⟨hcreating.left, hcreating.right, fun j hj h => hj (v.distinct j i id h (hcreates id hid))⟩

-- A new import.
theorem Inv.started (v : Inv s) (task : Task) (h : task.returned = []) :
    Handling { s.setTask s.started task with started := s.started + 1 } s.started := {
  nodup     := v.nodup
  below     := v.below
  objects   := v.objects
  created   := v.created
  creating  := by
    intro j id hj hcreates
    change ((s.setTask s.started task).tasks j).creates id at hcreates
    rw [setTask_of_ne hj] at hcreates
    exact v.creating j id hcreates
  distinct  := by
    intro j k id hj hk hjc hkc
    change ((s.setTask s.started task).tasks j).creates id at hjc
    change ((s.setTask s.started task).tasks k).creates id at hkc
    rw [setTask_of_ne hj] at hjc
    rw [setTask_of_ne hk] at hkc
    exact v.distinct j k id hjc hkc
  unstarted := by
    intro j hj
    change (s.setTask s.started task).tasks j = {}
    rw [setTask_of_ne (Nat.ne_of_gt hj)]
    exact v.unstarted j (Nat.le_of_lt hj)
  started   := Nat.lt_succ_self _
  completed := by
    intro j hj hne
    change ((s.setTask s.started task).tasks j).returned.length =
      if ((s.setTask s.started task).tasks j).waiting.isSome then 0 else 1
    rw [setTask_of_ne hne]
    exact v.completed j (lt_of_le_of_ne (Nat.le_of_lt_succ hj) hne)
  pending   := by
    change ((s.setTask s.started task).tasks s.started).returned = []
    rw [setTask_self, h]
}

-- What every step does, whether or not items are lost.
structure Stepped (env : Env) (s : State) (e : Event) (s' : State) : Prop where
  inv     : Inv s'
  ordered : ∃ arranged new, Arranged env s arranged ∧ ids arranged = new ++ ids s'.queue ∧
    s'.requested = s.requested ++ new
  success : ∀ i, (s'.tasks i).returned ≠ (s.tasks i).returned → true ∈ (s'.tasks i).returned → s'.queue = []
  failure : ∀ i, (s'.tasks i).returned ≠ (s.tasks i).returned → false ∈ (s'.tasks i).returned → Fails s i e
  onward  : ∀ i, e.Answers i → ∀ waiting, (s'.tasks i).waiting = some waiting →
    (waiting = .supplement ∧ (s.tasks i).waiting = some .openSession) ∨
      ∃ item, waiting = .createObject item none ∧ s'.requested = s.requested ++ [item.id]

theorem Stepped.imports (h : Stepped env s e s') (hkept : Kept s') : Imports env s e s' where
  completed := h.inv.completed
  ordered   := h.ordered
  once      := ⟨h.inv.nodup, h.inv.objects, h.inv.created⟩
  kept      := hkept
  success   := h.success
  failure   := h.failure
  onward    := h.onward

-- `t` is what the step has made of `s` before it is handled.
theorem Handled.stepped {t : State} {arranged : List Item} (h : Handled (Fails s i e) w t s' i)
    (harranged : Arranged env s arranged) (hqueue : t.queue = arranged) (hrequested : t.requested = s.requested)
    (htasks : ∀ j, j ≠ i → t.tasks j = s.tasks j)
    (hw : ∀ j, e.Answers j → j = i ∧ ∀ waiting, w waiting → waiting = .supplement ∧ (s.tasks i).waiting = some .openSession) :
    Stepped env s e s' where
  inv     := h.inv
  ordered := by
    obtain ⟨new, hids, hnew⟩ := h.takes
    exact ⟨arranged, new, harranged, hqueue ▸ hids, hrequested ▸ hnew⟩
  success := by
    intro j hne htrue
    by_cases hj : j = i
    · subst hj
      exact h.success htrue
    · rw [h.others j hj, htasks j hj] at hne
      exact absurd rfl hne
  failure := by
    intro j hne hfalse
    by_cases hj : j = i
    · subst hj
      exact h.failure hfalse
    · rw [h.others j hj, htasks j hj] at hne
      exact absurd rfl hne
  onward  := by
    intro j hanswers waiting hwaiting
    obtain ⟨rfl, hw⟩ := hw j hanswers
    exact (h.onward waiting hwaiting).imp (hw waiting) fun ⟨item, heq, hrequests⟩ => ⟨item, heq, hrequested ▸ hrequests⟩

theorem Stepped.of_same (v : Inv s') (hqueue : s'.queue = s.queue) (hrequested : s'.requested = s.requested)
    (hreturned : ∀ j, (s'.tasks j).returned = (s.tasks j).returned) (hanswers : ∀ j, ¬e.Answers j) : Stepped env s e s' where
  inv     := v
  ordered := ⟨s.queue, [], .same, by rw [hqueue, List.nil_append], by rw [hrequested, List.append_nil]⟩
  success := fun j hne => absurd (hreturned j) hne
  failure := fun j hne => absurd (hreturned j) hne
  onward  := fun j h => absurd h (hanswers j)

-- What an import does that may arrange the queue.
def Supplements (env : Env) (f : Prop) (w : Waiting → Prop) (s s' : State) (i : Nat) : Prop :=
  ∃ arranged, Arranged env s arranged ∧ (ids arranged).Perm (ids s.queue) ∧ Handled f w { s with queue := arranged } s' i

theorem Handled.supplements (h : Handled f w s s' i) : Supplements env f w s s' i :=
  ⟨s.queue, .same, List.Perm.refl _, h⟩

theorem completeSupplement_supplements (env : Env) (g : Handling s i) (error : Bool)
    (hf : error = true ∨ (s.tasks i).cancelled = true → f) :
    Supplements env f w s (completeSupplement env s i error) i := by
  cases error
  case true  => exact (g.fails (hf (.inl rfl))).supplements
  case false =>
    have hperm := supplementAttributes_perm env (s.tasks i).supplement (List.Nodup.of_append_right g.nodup)
    have ht := g.supplemented hperm
    exact ⟨_, .supplemented hperm, hperm, ht.nextState ht.stateCreateObject fun hc => hf (.inr hc)⟩

theorem stateSupplement_supplements (g : Handling s i) (hf : (s.tasks i).cancelled = true → f) :
    Supplements env f (· = .supplement) s (stateSupplement env s i) i := by
  rw [stateSupplement]
  split
  case isTrue =>
    have hwait : Handled f (· = .supplement) s (s.wait i .supplement) i := g.wait nofun rfl
    exact hwait.supplements
  case isFalse => exact completeSupplement_supplements env g false fun h => hf (h.resolve_left nofun)

theorem completeOpenSession_supplements (g : Handling s i) (session : Bool)
    (hf : session = false ∨ (s.tasks i).cancelled = true → f) :
    Supplements env f (· = .supplement) s (completeOpenSession env s i session) i := by
  cases session
  case false => exact (g.fails (hf (.inl rfl))).supplements
  case true  =>
    let t : State := { s with session := true }
    have ht : Handling t i := ⟨⟨g.nodup, g.below, g.objects, g.created, g.creating, g.distinct, g.unstarted, g.started,
      g.completed⟩, g.pending⟩
    have hsupplements : Supplements env f (· = .supplement) t (nextState t i (stateSupplement env)) i := by
      rw [nextState]
      split
      case isTrue hc => exact (ht.fails (hf (.inr hc))).supplements
      case isFalse   => exact stateSupplement_supplements ht fun hc => hf (.inr hc)
    obtain ⟨arranged, harranged, hperm, h⟩ := hsupplements
    refine ⟨arranged, ?_, hperm, h.inv, h.takes, h.kept, h.others, h.success, h.failure, h.onward⟩
    cases harranged
    case same              => exact .same
    case queued            => exact .queued
    case supplemented hids => exact .supplemented hids

-- Nothing is lost when the import that is handled creates nothing.
theorem keptBut_of_perm (hkept : Kept s) (hi : ∀ id, ¬(s.tasks i).creates id) {arranged : List Item}
    (h : (ids arranged).Perm (ids s.queue)) : KeptBut { s with queue := arranged } i := by
  intro id hid
  rcases hkept id hid with hobject | hqueue | ⟨j, hj⟩
  · exact .inl hobject
  · exact .inr (.inl (h.mem_iff.mpr hqueue))
  · refine .inr (.inr ⟨j, ?_, hj⟩)
    rintro rfl
    exact hi id hj

theorem Supplements.stepped (h : Supplements env (Fails s i e) w s s' i)
    (hw : ∀ j, e.Answers j → j = i ∧ ∀ waiting, w waiting → waiting = .supplement ∧ (s.tasks i).waiting = some .openSession) :
    Stepped env s e s' := by
  obtain ⟨arranged, harranged, -, hhandled⟩ := h
  exact hhandled.stepped harranged rfl rfl (fun _ _ => rfl) hw

theorem Supplements.keeps (h : Supplements env f w s s' i) (hkept : Kept s) (hi : ∀ id, ¬(s.tasks i).creates id) : Kept s' := by
  obtain ⟨arranged, -, hperm, hhandled⟩ := h
  exact hhandled.kept (keptBut_of_perm hkept hi hperm)

theorem not_creates_of_waiting {task : Task} {waiting : Waiting} (h : task.waiting = some waiting)
    (hwaiting : ∀ item result, waiting ≠ .createObject item result) (id : Nat) : ¬task.creates id := by
  rintro ⟨item, result, h', -⟩
  rw [h] at h'
  exact hwaiting item result (Option.some.inj h')

-- The object that a call is to create is lost when there is none.
theorem onCreateObject_kept_iff (v : Inv s) (hkept : Kept s) {result : Bool}
    (h : (s.tasks i).waiting = some (.createObject item (some result))) :
    Kept (completeCreateObject s i (if result && !(s.tasks i).cancelled then some item else none)) ↔
      (s.tasks i).cancelled = false ∧ result = true := by
  have g := v.handling (i := i) (by rw [h]; rfl)
  have hcreates : (s.tasks i).creates item.id := ⟨item, some result, h, rfl⟩
  have hcreating := v.creating i item.id hcreates
  have hothers : ∀ j, j ≠ i → ¬(s.tasks j).creates item.id := fun j hj hc => hj (v.distinct j i _ hc hcreates)
  by_cases hfine : (result && !(s.tasks i).cancelled) = true
  · rw [if_pos hfine]
    rw [Bool.and_eq_true, Bool.not_eq_true'] at hfine
    refine iff_of_true ?_ ⟨hfine.right, hfine.left⟩
    have hhandled : Handled True (fun _ => True) _ _ i :=
      g.completeCreateObject hcreating.left hcreating.right hothers fun _ => trivial
    apply hhandled.kept
    intro id hid
    have hids : ids (s.objects ++ [item]) = ids s.objects ++ [item.id] := List.map_append
    change id ∈ ids (s.objects ++ [item]) ∨ _
    rw [hids]
    rcases hkept id hid with hobject | hqueue | ⟨j, hj⟩
    · exact .inl (List.mem_append_left _ hobject)
    · exact .inr (.inl hqueue)
    · by_cases hji : j = i
      · subst hji
        obtain ⟨item', result', hwaiting, rfl⟩ := hj
        rw [h] at hwaiting
        cases hwaiting
        exact .inl (List.mem_append_right _ List.mem_cons_self)
      · exact .inr (.inr ⟨j, hji, hj⟩)
  · rw [if_neg hfine]
    refine iff_of_false ?_ ?_
    · intro hkept'
      have hid : item.id < s.queued := v.below _ (List.mem_append_left _ hcreating.left)
      rcases hkept' item.id hid with hobject | hqueue | ⟨j, hj⟩
      · exact hcreating.right hobject
      · exact List.disjoint_of_nodup_append v.nodup hcreating.left hqueue
      · by_cases hji : j = i
        · subst hji
          obtain ⟨item', result', hwaiting, -⟩ := hj
          change ((s.returns j false).tasks j).waiting = _ at hwaiting
          rw [State.returns, setTask_self] at hwaiting
          cases hwaiting
        · change ((s.returns i false).tasks j).creates item.id at hj
          rw [State.returns, setTask_of_ne hji] at hj
          exact hothers j hji hj
    · rintro ⟨hcancelled, hresult⟩
      apply hfine
      rw [hcancelled, hresult]
      rfl

end Pkcs11Importer
