import GcrModel.Gck.Enumerator.Theorems.Complete

namespace Enumerator

variable {args : GckEnumeratorState} {states states' : List GckEnumeratorState} {want count : Nat}
  {reply : Reply} {cs : List Creation} {s s' : State}

section CheckOut

theorem pending_checkOut (states : List GckEnumeratorState) :
    (states.map checkOutState).flatMap pending = states.flatMap pending := by
  rw [List.flatMap_map]
  rfl

theorem queue_checkOut (states : List GckEnumeratorState) :
    (states.map checkOutState).flatMap queue = states.flatMap queue := by
  rw [List.flatMap_map]
  rfl

theorem counted_checkOut : Counted want count (states.map checkOutState) ↔ Counted want count states := by
  induction states generalizing count
  case nil => rfl
  case cons args chained ih =>
    have hp : pending (checkOutState args) = pending args := rfl
    have hv : visits (checkOutState args) = visits args := rfl
    simp only [List.map_cons, Counted, ih, hp, hv, pending_checkOut]
    rfl

theorem Ordered.checkOut (o : Ordered states) : Ordered (states.map checkOutState) :=
  List.pairwise_map.mpr o

theorem tracked_checkOut (h : ∀ a ∈ states, FoundEmpty a) : ∀ a ∈ states.map checkOutState, Tracked a := by
  intro a ha
  obtain ⟨b, hb, rfl⟩ := List.mem_map.mp ha
  exact ⟨rfl, rfl, h b hb⟩

theorem clear_checkOut (states : List GckEnumeratorState) :
    (states.map checkOutState).map clear = (states.map clear).map checkOutState := by
  rw [List.map_map, List.map_map]
  rfl

end CheckOut

-- A call returned what was next, not more than it was asked for, and nothing only if nothing was left.
structure Exact (states : List GckEnumeratorState) (reply : Reply) (states' : List GckEnumeratorState) : Prop where
  pending    : reply.objects ++ states'.flatMap pending = states.flatMap pending
  maxObjects : reply.objects.length ≤ reply.maxObjects
  all        : reply.objects = [] → reply.error = false → states'.flatMap Enumerator.pending = []
  ordered    : Ordered states'
  tracked    : ∀ a ∈ states', Tracked a

-- What is taken out after the enumeration was performed.
theorem Performed.extracted {objects : List GckObject} {n : Nat} (p : Performed want 0 states)
    (e : Extracted n states objects states') (hn : 0 < n) (h : objects = []) : states'.flatMap pending = [] := by
  have hq : states.flatMap queue = [] := by
    have ho := e.objects
    rw [h, eq_comm, List.take_eq_nil_iff] at ho
    exact ho.resolve_left (Nat.ne_of_gt hn)
  have hp := p.got (by simp [hq])
  rw [← e.pending_eq p.ordered, List.append_eq_nil_iff] at hp
  exact hp.2

theorem gckEnumeratorNext_exact {cancelled : Bool} (hf : ∀ a ∈ states, FoundEmpty a) (o : Ordered states)
    (hc : cancelled = false → states.flatMap queue = [] → Counted 1 0 states)
    (h : gckEnumeratorNext states cancelled = some (reply, states')) : Exact states reply states' := by
  have t := tracked_checkOut hf
  have e := extractResult_extracted t
  simp only [gckEnumeratorNext] at h
  split at h <;> rename_i heq <;> rw [heq] at e <;> dsimp only at e
  · obtain ⟨rfl, rfl⟩ := Prod.mk.inj (Option.some.inj h)
    exact ⟨(e.pending_eq o.checkOut).trans (pending_checkOut states), Nat.le_refl _, by simp,
      e.ordered o.checkOut, e.tracked⟩
  · have hpending := (e.pending_eq o.checkOut).trans (pending_checkOut states)
    have hq : states.flatMap queue = [] := by
      have ho := e.objects
      rw [queue_checkOut, Option.toList_none, eq_comm, List.take_eq_nil_iff] at ho
      exact ho.resolve_left Nat.one_ne_zero
    split at h
    · obtain ⟨rfl, rfl⟩ := Prod.mk.inj (Option.some.inj h)
      exact ⟨hpending, Nat.zero_le _, by simp, e.ordered o.checkOut, e.tracked⟩
    · rename_i hcancelled
      have hcounted := hc (by simpa using hcancelled) hq
      rw [e.eq_clear (by simp [queue_checkOut, hq]), map_clear_of_nil (by rw [queue_checkOut, hq])] at h
      split at h
      · simp at h
      · rename_i performed hp
        obtain ⟨rfl, rfl⟩ := Prod.mk.inj (Option.some.inj h)
        have p := performEnumerateNext_performed t o.checkOut ((counted_checkOut).mpr hcounted) Nat.zero_lt_one hp
        obtain ⟨hsame, tp⟩ := performEnumerateNext_pending t hp
        have ep := extractResult_extracted tp
        exact ⟨(ep.pending_eq p.ordered).trans (hsame.trans (pending_checkOut states)), ep.length_le,
          fun h _ => p.extracted ep Nat.zero_lt_one h, ep.ordered p.ordered, ep.tracked⟩

theorem gckEnumeratorNextN_exact {maxObjects : Int} {cancelled : Bool} (hf : ∀ a ∈ states, FoundEmpty a)
    (o : Ordered states)
    (hc : cancelled = false → (states.flatMap queue).length < wantedObjects maxObjects →
      Counted (wantedObjects maxObjects - (states.flatMap queue).length) 0 (states.map clear))
    (h : gckEnumeratorNextN states maxObjects cancelled = some (reply, states')) : Exact states reply states' := by
  have t := tracked_checkOut hf
  have e := extractResults_extracted (wantedObjects maxObjects) t
  have hpending := (e.pending_eq o.checkOut).trans (pending_checkOut states)
  have hlen := congrArg List.length e.objects
  rw [queue_checkOut, List.length_take] at hlen
  simp only [gckEnumeratorNextN] at h
  split at h
  · rename_i hleft
    obtain ⟨rfl, rfl⟩ := Prod.mk.inj (Option.some.inj h)
    refine ⟨hpending, e.length_le, ?_, e.ordered o.checkOut, e.tracked⟩
    intro hnil
    have hpos := wantedObjects_pos maxObjects
    dsimp only at hnil
    simp only [hnil, List.length_nil] at hleft
    omega
  · rename_i hleft
    split at h
    · obtain ⟨rfl, rfl⟩ := Prod.mk.inj (Option.some.inj h)
      refine ⟨hpending, e.length_le, ?_, e.ordered o.checkOut, e.tracked⟩
      intro hnil
      dsimp only at hnil
      simp [hnil]
    · rename_i hcancelled
      have hlt : (states.flatMap queue).length < wantedObjects maxObjects := by omega
      have hcounted := hc (by simpa using hcancelled) hlt
      have heq := e.eq_clear (by rw [queue_checkOut]; exact hlt.le)
      have hwant : wantedObjects maxObjects - (extractResults (wantedObjects maxObjects) (states.map checkOutState)).1.length =
          wantedObjects maxObjects - (states.flatMap queue).length := by omega
      split at h
      · simp at h
      · rename_i performed hp
        obtain ⟨rfl, rfl⟩ := Prod.mk.inj (Option.some.inj h)
        rw [hwant] at hp ⊢
        have hcounted' : Counted (wantedObjects maxObjects - (states.flatMap queue).length) 0
            (extractResults (wantedObjects maxObjects) (states.map checkOutState)).2 := by
          rw [heq, clear_checkOut]
          exact (counted_checkOut).mpr hcounted
        have p := performEnumerateNext_performed e.tracked (e.ordered o.checkOut) hcounted' (by omega) hp
        obtain ⟨hsame, tp⟩ := performEnumerateNext_pending e.tracked hp
        have ep := extractResults_extracted (wantedObjects maxObjects - (states.flatMap queue).length) tp
        refine ⟨?_, ?_, ?_, ep.ordered p.ordered, ep.tracked⟩
        · rw [List.append_assoc, ep.pending_eq p.ordered, hsame]
          exact hpending
        · rw [List.length_append]
          have := ep.length_le
          dsimp only
          omega
        · intro hnil _
          exact p.extracted ep (by omega) (List.append_eq_nil_iff.mp hnil).2

-- The steps of a run in which no enumerator stops short.
def Event.Counted (s : State) : Event → Prop
  | .next false =>
    match s.place with
    | .idle states => states.flatMap queue = [] → Enumerator.Counted 1 0 states
    | _            => True
  | .nextN maxObjects false =>
    match s.place with
    | .idle states =>
      (states.flatMap queue).length < wantedObjects maxObjects →
        Enumerator.Counted (wantedObjects maxObjects - (states.flatMap queue).length) 0 (states.map clear)
    | _ => True
  | .thread false =>
    match s.place with
    | .running args => Enumerator.Counted args.wantObjects 0 args.state
    | _             => True
  | _ => True

def Place.Accounted (cs : List Creation) (returned : List GckObject) : Place → Prop
  | .idle states  =>
    returned ++ states.flatMap pending = matching cs ∧ Ordered states ∧ ∀ a ∈ states, FoundEmpty a
  | .running args =>
    returned ++ args.state.flatMap pending = matching cs ∧ Ordered args.state ∧ (∀ a ∈ args.state, Tracked a) ∧
      0 < args.wantObjects ∧ ∀ u, args.result = some (.ok u) → Performed args.wantObjects 0 args.state
  | .finalized    => returned <+: matching cs

-- What is returned is the beginning of the list of all objects, and a call that returns nothing ends it.
structure State.Exact (cs : List Creation) (s : State) : Prop where
  returned   : s.returned <+: matching cs
  maxObjects : ∀ r ∈ s.reply, r.objects.length ≤ r.maxObjects
  all        : ∀ r ∈ s.reply, r.objects = [] → r.error = false → s.returned = matching cs

structure Invariant (cs : List Creation) (s : State) : Prop where
  place : s.place.Accounted cs s.returned
  exact : s.Exact cs

theorem State.Exact.of_no_reply {p p' : Place} {returned : List GckObject} {r : Option Reply}
    (h : State.Exact cs ⟨p, returned, r⟩) : State.Exact cs ⟨p', returned, none⟩ :=
  ⟨h.returned, by simp, by simp⟩

-- After a call has returned.
theorem Exact.invariant {returned : List GckObject} (e : Enumerator.Exact states reply states')
    (h : returned ++ states.flatMap Enumerator.pending = matching cs) :
    Invariant cs ⟨.idle states', returned ++ reply.objects, some reply⟩ := by
  have heq : returned ++ reply.objects ++ states'.flatMap Enumerator.pending = matching cs := by
    rw [List.append_assoc, e.pending, h]
  refine ⟨⟨heq, e.ordered, fun a ha => (e.tracked a ha).foundEmpty⟩, ⟨⟨_, heq⟩, ?_, ?_⟩⟩
  · rintro r ⟨⟩
    exact e.maxObjects
  · rintro r ⟨⟩ hnil herror
    rw [← heq, e.all hnil herror, List.append_nil]

theorem Invariant.after {e : Event} (i : Invariant cs s) (hc : e.Counted s) (h : after s e = .ok s') :
    Invariant cs s' := by
  obtain ⟨place, returned, r⟩ := s
  obtain ⟨hplace, hexact⟩ := i
  cases e
  case next cancelled =>
    cases place <;> simp only [Enumerator.after, reduceCtorEq] at h
    case idle states =>
      obtain ⟨hp, o, hf⟩ := hplace
      obtain ⟨reply, states', hn, rfl⟩ := State.replied_ok h
      refine (gckEnumeratorNext_exact hf o ?_ hn).invariant hp
      rintro rfl
      exact hc
  case nextN maxObjects cancelled =>
    cases place <;> simp only [Enumerator.after, reduceCtorEq] at h
    case idle states =>
      obtain ⟨hp, o, hf⟩ := hplace
      split at h
      · obtain ⟨reply, states', hn, rfl⟩ := State.replied_ok h
        refine (gckEnumeratorNextN_exact hf o ?_ hn).invariant hp
        rintro rfl
        exact hc
      · cases h
  case nextAsync maxObjects =>
    cases place <;> simp only [Enumerator.after, reduceCtorEq] at h
    case idle states =>
      obtain ⟨hp, o, hf⟩ := hplace
      split at h
      · cases h
        refine ⟨⟨?_, o.checkOut, tracked_checkOut hf, wantedObjects_pos maxObjects, by simp⟩, hexact.of_no_reply⟩
        rw [pending_checkOut]
        exact hp
      · cases h
  case thread cancelled =>
    cases place <;> simp only [Enumerator.after, reduceCtorEq] at h
    case running args =>
      obtain ⟨hp, o, ht, hw, -⟩ := hplace
      split at h
      · cases h
      · split at h
        · cases h
        · rename_i args' hthread
          cases h
          refine ⟨?_, hexact.of_no_reply⟩
          cases cancelled
          case true =>
            obtain rfl := Option.some.inj hthread
            exact ⟨hp, o, ht, hw, by simp⟩
          case false =>
            obtain ⟨states, hperform, rfl⟩ := Option.map_eq_some_iff.mp hthread
            have p := performEnumerateNext_performed ht o hc hw hperform
            obtain ⟨hsame, ht'⟩ := performEnumerateNext_pending ht hperform
            refine ⟨?_, p.ordered, ht', hw, fun _ _ => p⟩
            dsimp only
            rw [hsame]
            exact hp
  case nextFinish cancelled =>
    cases place <;> simp only [Enumerator.after, reduceCtorEq] at h
    case running args =>
      obtain ⟨hp, o, ht, hw, hperformed⟩ := hplace
      split at h
      · cases h
      · rename_i result hresult
        obtain ⟨reply, states', hn, rfl⟩ := State.replied_ok h
        suffices Enumerator.Exact args.state reply states' from this.invariant hp
        have e := extractResults_extracted args.wantObjects ht
        simp only [gckEnumeratorNextFinish] at hn
        split at hn
        · obtain ⟨rfl, rfl⟩ := Prod.mk.inj (Option.some.inj hn)
          have p := hperformed _ hresult
          exact ⟨e.pending_eq o, e.length_le, fun h _ => p.extracted e hw h, e.ordered o, e.tracked⟩
        · obtain ⟨rfl, rfl⟩ := Prod.mk.inj (Option.some.inj hn)
          exact ⟨rfl, Nat.zero_le _, by simp, o, ht⟩
  case dispose =>
    cases place <;> simp only [Enumerator.after, reduceCtorEq] at h
    case idle states =>
      split at h
      · cases h
      · cases h
        exact ⟨hexact.returned, hexact.of_no_reply⟩

theorem pending_new (cs : List Creation) : (cs.map Creation.state).flatMap pending = matching cs := by
  rw [List.flatMap_map]
  refine List.flatMap_congr fun c _ => ?_
  obtain ⟨source, uriData, self⟩ := c
  cases source <;>
    simp [pending, queue, left, Creation.state, gckEnumeratorInit, visits, current, Creation.objects, Creation.visits]

theorem Invariant.new (cs : List Creation) : Invariant cs (State.new cs) := by
  refine ⟨⟨pending_new cs, ?_, ?_⟩, ⟨List.nil_prefix, by simp [State.new], by simp [State.new]⟩⟩
  · refine List.pairwise_map.mpr (List.pairwise_of_forall fun a b => .inr ?_)
    obtain ⟨source, _, _⟩ := b
    cases source <;> rfl
  · intro a ha
    obtain ⟨c, _, rfl⟩ := List.mem_map.mp ha
    obtain ⟨source, _, _⟩ := c
    cases source <;> exact fun _ => rfl

-- In every run in which no enumerator stops short the objects are returned in order, none twice and none
-- left out, and a call that returns nothing without an error has come to their end.
theorem Run.returned_exact {ts : List (State × Event × State)} (r : Run cs ts s)
    (h : ∀ t ∈ ts, t.2.1.Counted t.1) : s.Exact cs := by
  suffices Invariant cs s from this.exact
  induction r
  case start hs => exact hs ▸ .new cs
  case step hstep ih =>
    rw [List.forall_mem_cons] at h
    exact (ih h.2).after h.1 hstep

theorem Run.next {ts : List (State × Event × State)} (r : Run cs ts s) (e : Event) (h : Enumerator.after s e = .ok s') :
    Run cs ((s, e, s') :: ts) s' :=
  .step r h

-- A session that finds two objects, of which the attributes of the first are read with the result `rv`.
def twoObjects (rv : RV) : Creation where
  source  := .session
    { handle  := 1
      slot    := ⟨1, some ⟨none, none, none, none⟩, ⟨fun _ => (0, 1), fun _ => 0, fun _ => [(0, [⟨1, rv, 0, []⟩, ⟨2, 0, 0, []⟩])]⟩⟩
      options := ⟨false, false⟩ }
  uriData := ⟨false, none, none⟩
  self    := ⟨⟨"GckObject", none⟩, some [0]⟩

theorem Run.returned_exact_twoObjects :
    ∃ ts s, Run [twoObjects 0] ts s ∧ s.returned = matching [twoObjects 0] ∧ s.Exact [twoObjects 0] := by
  have r := ((Run.next (.start rfl) (.next false) rfl).next (.nextN 2 false) rfl : Run [twoObjects 0] _ _)
  refine ⟨_, _, r, rfl, r.returned_exact ?_⟩
  simp only [List.forall_mem_cons]
  exact ⟨fun _ => by decide, fun _ => by decide, by simp⟩

-- `CKR_DEVICE_ERROR` for the first of two objects, and the first call returns nothing.
theorem Run.not_returned_exact : ¬∀ cs ts s, Run cs ts s → s.Exact cs := by
  intro h
  have r : Run [twoObjects 0x30] _ _ := Run.next (.start rfl) (.next false) rfl
  have hall := (h _ _ _ r).all _ rfl rfl rfl
  cases hall

end Enumerator
