import GcrModel.Gck.Enumerator.Theorems.Exact

namespace Enumerator

variable {args args' : GckEnumeratorState} {states states' : List GckEnumeratorState} {want count : Nat}

-- The state works for the enumerator that it belongs to.
structure Tracked (args : GckEnumeratorState) : Prop where
  objectClass : args.objectClass = some args.enumerator.objectClass
  attrTypes   : args.attrTypes = args.enumerator.types
  foundEmpty  : FoundEmpty args

theorem Move.tracked (h : Move args args') (t : Tracked args) : Tracked args' where
  objectClass := by cases h <;> exact t.objectClass
  attrTypes   := by cases h <;> exact t.attrTypes
  foundEmpty  := h.foundEmpty t.foundEmpty

theorem Stop.tracked (h : Stop args args') (t : Tracked args) : Tracked args' where
  objectClass := by cases h <;> exact t.objectClass
  attrTypes   := by cases h <;> exact t.attrTypes
  foundEmpty  := h.foundEmpty t.foundEmpty

-- What the handlers come to when they have stopped.
structure Collected (want : Nat) (args args' : GckEnumeratorState) : Prop where
  enumerator : args'.enumerator = args.enumerator
  tracked    : Tracked args'
  collect    : collect args.enumerator.types want args.results (visits args) = (args'.results, visits args')

-- The handlers keep what is to be collected.
structure Collecting (want : Nat) (args args' : GckEnumeratorState) : Prop where
  enumerator  : args'.enumerator = args.enumerator
  wantObjects : args'.wantObjects = want
  tracked     : Tracked args'
  collect     : collect args.enumerator.types want args'.results (visits args') =
    Enumerator.collect args.enumerator.types want args.results (visits args)

theorem Collecting.move {a a' : GckEnumeratorState} (c : Collecting want args a) (h : Move a a') :
    Collecting want args a' where
  enumerator  := by rw [← c.enumerator]; cases h <;> rfl
  wantObjects := by rw [← c.wantObjects]; cases h <;> rfl
  tracked     := h.tracked c.tracked
  collect     := by
    have hc := h.collect c.tracked.foundEmpty
    rw [c.tracked.attrTypes, c.wantObjects, c.enumerator] at hc
    rw [hc, c.collect]

theorem runHandlers_collected (t : Tracked args) (h : runHandlers { args with wantObjects := want } = some args') :
    Collected want args args' := by
  have hstart : Collecting want args { args with wantObjects := want } :=
    ⟨rfl, rfl, ⟨t.objectClass, t.attrTypes, t.foundEmpty⟩, rfl⟩
  obtain ⟨a, ha, hs⟩ := runHandlers_spec hstart (fun _ _ c h => c.move h) h
  refine ⟨?_, hs.tracked ha.tracked, ?_⟩
  · rw [← ha.enumerator]
    cases hs <;> rfl
  · rw [← ha.collect, ← hs.collect, ha.tracked.attrTypes, ha.wantObjects, ha.enumerator]

namespace Collected

theorem pending_eq (c : Collected want args args') : pending args' = pending args := by
  have h := collect.append_eq args.enumerator.types want args.results (visits args)
  rw [c.collect] at h
  simp only [pending, queue, left, c.enumerator, ← List.map_append, h]

theorem left_nil (c : Collected want args args') (h : left args = []) : left args' = [] := by
  have hl := collect.left_nil want args.results (List.map_eq_nil_iff.mp h)
  rw [c.collect] at hl
  simp [left, c.enumerator, hl]

end Collected

-- What is queued comes before what is still to be found.
def Ordered (states : List GckEnumeratorState) : Prop :=
  states.Pairwise fun a b => left a = [] ∨ queue b = []

theorem flatMap_queue_nil {states : List GckEnumeratorState} (h : states.flatMap pending = []) :
    states.flatMap queue = [] := by
  simp only [List.flatMap_eq_nil_iff, pending, List.append_eq_nil_iff] at *
  exact fun a ha => (h a ha).1

theorem Ordered.pending_eq (h : Ordered states) :
    states.flatMap pending = states.flatMap queue ++ states.flatMap left := by
  induction states
  case nil => rfl
  case cons args chained ih =>
    obtain ⟨hargs, hchained⟩ := List.pairwise_cons.mp h
    simp only [List.flatMap_cons, ih hchained, pending]
    by_cases hl : left args = []
    · simp [hl]
    · have hq : chained.flatMap queue = [] :=
        List.flatMap_eq_nil_iff.mpr fun b hb => (hargs b hb).resolve_left hl
      simp [hq]

-- Performing the enumeration changes no object that is pending.
theorem performEnumerateNext_pending (t : ∀ a ∈ states, Tracked a)
    (h : performEnumerateNext want count states = some states') :
    states'.flatMap pending = states.flatMap pending ∧ ∀ a ∈ states', Tracked a := by
  induction states generalizing count states'
  case nil =>
    obtain rfl := Option.some.inj h
    exact ⟨rfl, by simp⟩
  case cons args chained ih =>
    rw [List.forall_mem_cons] at t
    simp only [performEnumerateNext] at h
    split at h
    · simp at h
    · rename_i args' hr
      have c := runHandlers_collected t.1 hr
      split at h
      · obtain rfl := Option.some.inj h
        exact ⟨by simp [c.pending_eq], List.forall_mem_cons.mpr ⟨c.tracked, t.2⟩⟩
      · obtain ⟨rest, hrest, rfl⟩ := Option.map_eq_some_iff.mp h
        obtain ⟨hp, ht⟩ := ih t.2 hrest
        exact ⟨by simp [c.pending_eq, hp], List.forall_mem_cons.mpr ⟨c.tracked, ht⟩⟩

-- What is pending in the queues after the enumeration was performed.
structure Performed (want count : Nat) (states' : List GckEnumeratorState) : Prop where
  ordered : Ordered states'
  -- Something is got, or there is nothing.
  got     : count + (states'.flatMap queue).length = 0 → states'.flatMap pending = []

theorem performEnumerateNext_performed (t : ∀ a ∈ states, Tracked a) (o : Ordered states)
    (hc : Counted want count states) (hlt : count < want)
    (h : performEnumerateNext want count states = some states') : Performed want count states' := by
  induction states generalizing count states'
  case nil =>
    obtain rfl := Option.some.inj h
    exact ⟨.nil, fun _ => rfl⟩
  case cons args chained ih =>
    rw [List.forall_mem_cons] at t
    obtain ⟨hargs, hchained⟩ := List.pairwise_cons.mp o
    obtain ⟨hshort, hcounted⟩ := hc
    simp only [performEnumerateNext] at h
    split at h
    · simp at h
    rename_i args' hr
    have c := runHandlers_collected t.1 hr
    have hlen : (queue args').length = args'.results.length := by simp [queue]
    split at h
    · rename_i hge
      obtain rfl := Option.some.inj h
      refine ⟨List.pairwise_cons.mpr ⟨fun b hb => (hargs b hb).imp_left c.left_nil, hchained⟩, ?_⟩
      intro hz
      simp only [List.flatMap_cons, List.length_append] at hz
      omega
    · rename_i hge
      obtain ⟨rest, hrest, rfl⟩ := Option.map_eq_some_iff.mp h
      obtain ⟨hpending, _⟩ := performEnumerateNext_pending t.2 hrest
      have hleft : left args' = [] ∨ 0 < count + args'.results.length ∧ chained.flatMap pending = [] := by
        have hs := collect.of_not_short hshort (by rw [c.collect]; dsimp only; omega)
        rw [c.collect] at hs
        exact hs.imp_left fun h => by simp [left, c.enumerator, h]
      rcases hleft with hleft | ⟨hpos, hnone⟩
      · have hp : (pending args).length = args'.results.length := by
          rw [← c.pending_eq]
          simp [pending, hleft, hlen]
        have p := ih t.2 hchained (hp ▸ hcounted (by omega)) (by omega) hrest
        refine ⟨List.pairwise_cons.mpr ⟨fun _ _ => .inl hleft, p.ordered⟩, ?_⟩
        intro hz
        simp only [List.flatMap_cons, List.length_append] at hz
        have hq : queue args' = [] := List.length_eq_zero_iff.mp (by omega)
        simp only [List.flatMap_cons, pending, hq, hleft, List.append_nil, List.nil_append]
        exact p.got (by omega)
      · rw [hnone] at hpending
        have hq := flatMap_queue_nil hpending
        rw [List.flatMap_eq_nil_iff] at hq
        refine ⟨List.pairwise_cons.mpr ⟨fun b hb => .inr (hq b hb), ?_⟩, ?_⟩
        · exact List.pairwise_of_forall_mem_list fun a _ b hb => .inr (hq b hb)
        · intro hz
          simp only [List.flatMap_cons, List.length_append] at hz
          omega

def clear (args : GckEnumeratorState) : GckEnumeratorState :=
  { args with results := [] }

-- What taking objects out of the queues leaves.
structure Extracted (n : Nat) (states : List GckEnumeratorState) (objects : List GckObject)
    (states' : List GckEnumeratorState) : Prop where
  objects : objects = (states.flatMap queue).take n
  queue   : states'.flatMap queue = (states.flatMap queue).drop n
  left    : states'.flatMap left = states.flatMap left
  clear   : states'.map clear = states.map clear
  ordered : Ordered states → Ordered states'
  tracked : ∀ a ∈ states', Tracked a

theorem newObject_eq (t : Tracked args) (result : GckEnumeratorResult) :
    newObject args result = args.enumerator.object result := by
  simp [newObject, GckEnumerator.object, t.objectClass]

theorem extractResult_of_nil (h : states.flatMap queue = []) : extractResult states = (none, states) := by
  induction states
  case nil => rfl
  case cons args chained ih =>
    simp only [List.flatMap_cons, List.append_eq_nil_iff] at h
    have hr : args.results = [] := List.map_eq_nil_iff.mp h.1
    simp [extractResult, hr, ih h.2]

theorem map_clear_of_nil (h : states.flatMap queue = []) : states.map clear = states := by
  rw [List.flatMap_eq_nil_iff] at h
  conv_rhs => rw [← List.map_id states]
  refine List.map_congr_left fun a ha => ?_
  have hr : a.results = [] := List.map_eq_nil_iff.mp (h a ha)
  simp [clear, ← hr]

namespace Extracted

variable {objects : List GckObject} {n : Nat}

theorem length_le (e : Extracted n states objects states') : objects.length ≤ n := by
  rw [e.objects]
  exact List.length_take_le n _

-- What is taken out was next.
theorem pending_eq (e : Extracted n states objects states') (o : Ordered states) :
    objects ++ states'.flatMap pending = states.flatMap pending := by
  rw [o.pending_eq, (e.ordered o).pending_eq, e.objects, e.queue, e.left, ← List.append_assoc, List.take_append_drop]

theorem eq_clear (e : Extracted n states objects states') (h : (states.flatMap Enumerator.queue).length ≤ n) :
    states' = states.map Enumerator.clear := by
  rw [← e.clear]
  exact (map_clear_of_nil (by rw [e.queue, List.drop_eq_nil_of_le h])).symm

theorem zero (t : ∀ a ∈ states, Tracked a) : Extracted 0 states [] states where
  objects := by simp
  queue   := by simp
  left    := rfl
  clear   := rfl
  ordered := id
  tracked := t

theorem trans {m : Nat} {states'' : List GckEnumeratorState} {objects' : List GckObject}
    (e : Extracted m states objects states') (e' : Extracted n states' objects' states'') :
    Extracted (m + n) states (objects ++ objects') states'' where
  objects := by rw [e.objects, e'.objects, e.queue, List.take_add]
  queue   := by rw [e'.queue, e.queue, List.drop_drop]
  left    := e'.left.trans e.left
  clear   := e'.clear.trans e.clear
  ordered := e'.ordered ∘ e.ordered
  tracked := e'.tracked

-- Where the queues are empty nothing is taken out.
theorem more (e : Extracted n states [] states') (h : 0 < n) (m : Nat) : Extracted m states [] states' := by
  have hnil : states.flatMap Enumerator.queue = [] := by
    have he := e.objects
    cases hq : states.flatMap Enumerator.queue
    case nil => rfl
    case cons object objects =>
      obtain ⟨n, rfl⟩ := Nat.exists_eq_add_of_lt h
      simp [hq] at he
  exact ⟨by simp [hnil], by simp [hnil, e.queue], e.left, e.clear, e.ordered, e.tracked⟩

end Extracted

-- An object is taken from the first queue that has one.
theorem extractResult_extracted (t : ∀ a ∈ states, Tracked a) :
    Extracted 1 states (extractResult states).1.toList (extractResult states).2 := by
  induction states
  case nil => exact ⟨by simp [extractResult], by simp [extractResult], rfl, rfl, id, t⟩
  case cons args chained ih =>
    rw [List.forall_mem_cons] at t
    obtain ⟨targs, tchained⟩ := t
    simp only [extractResult]
    split
    · rename_i result results hr
      have hq : queue args = args.enumerator.object result :: results.map args.enumerator.object := by
        simp [queue, hr]
      refine ⟨?_, ?_, ?_, rfl, ?_, ?_⟩
      · simp [hq, newObject_eq targs]
      · simp only [List.flatMap_cons, hq]
        simp [queue]
      · simp [left, visits, current]
      · intro o
        obtain ⟨hargs, hchained⟩ := List.pairwise_cons.mp o
        exact List.pairwise_cons.mpr ⟨hargs, hchained⟩
      · exact List.forall_mem_cons.mpr ⟨⟨targs.objectClass, targs.attrTypes, targs.foundEmpty⟩, tchained⟩
    · rename_i hr
      have hq : queue args = [] := by simp [queue, hr]
      have e := ih tchained
      refine ⟨?_, ?_, ?_, ?_, ?_, ?_⟩
      · simp [hq, e.objects]
      · simp [hq, e.queue]
      · simp [e.left]
      · simp [e.clear]
      · intro o
        obtain ⟨hargs, hchained⟩ := List.pairwise_cons.mp o
        refine List.pairwise_cons.mpr ⟨fun b hb => ?_, e.ordered hchained⟩
        by_cases hl : left args = []
        · exact .inl hl
        · have hn : chained.flatMap queue = [] :=
            List.flatMap_eq_nil_iff.mpr fun b hb => (hargs b hb).resolve_left hl
          rw [extractResult_of_nil hn] at hb
          exact hargs b hb
      · exact List.forall_mem_cons.mpr ⟨targs, e.tracked⟩

theorem extractResults_extracted (n : Nat) (t : ∀ a ∈ states, Tracked a) :
    Extracted n states (extractResults n states).1 (extractResults n states).2 := by
  induction n generalizing states
  case zero => exact .zero t
  case succ n ih =>
    have e := extractResult_extracted t
    simp only [extractResults]
    split <;> rename_i heq <;> rw [heq] at e
    · exact e.more Nat.zero_lt_one _
    · rw [Nat.add_comm n 1]
      exact e.trans (ih e.tracked)

end Enumerator
