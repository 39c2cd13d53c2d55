import GcrModel.Gck.Enumerator.Theorems.States

namespace Enumerator

open Relation

variable {args args' : GckEnumeratorState} {handler : Handler} {n : Nat}

-- How far forward a handler is.
def Handler.level : Handler → Nat
  | modules => 0
  | slots   => 1
  | slot    => 2
  | session => 3
  | find    => 4
  | results => 5

theorem Handler.level_inj {h₁ h₂ : Handler} (h : h₁.level = h₂.level) : h₁ = h₂ := by
  cases h₁ <;> cases h₂ <;> first | rfl | cases h

structure NoSlot (slot : Option Slot) (tokenInfo : Option TokenInfo) (funcs : Option FunctionList)
    (session : Option Session) : Prop where
  slot      : slot = none
  tokenInfo : tokenInfo = none
  funcs     : funcs = none
  session   : session = none

structure HasSlot (slot : Option Slot) (tokenInfo : Option TokenInfo) (funcs : Option FunctionList) : Prop where
  slot      : slot.isSome
  tokenInfo : tokenInfo.isSome
  funcs     : funcs.isSome

-- The fields that a handler needs are set, and no others.
def Fields (args : GckEnumeratorState) : Prop :=
  match args.handler with
  | .modules => args.slots = [] ∧ NoSlot args.slot args.tokenInfo args.funcs args.session
  | .slots   => NoSlot args.slot args.tokenInfo args.funcs args.session
  | .slot    => HasSlot args.slot args.tokenInfo args.funcs ∧ args.session = none
  | .session => HasSlot args.slot args.tokenInfo args.funcs ∧ args.session.isSome
  | .find    => HasSlot args.slot args.tokenInfo args.funcs ∧ args.session.isSome
  | .results => HasSlot args.slot args.tokenInfo args.funcs ∧ args.session.isSome ∧ args.found.isSome

structure Valid (args : GckEnumeratorState) : Prop where
  fields      : Fields args
  objectClass : args.handler = .results → args.objectClass.isSome

-- A state in which no assertion fails, whether the enumerator goes on, goes back or is disposed of.
structure Safe (args : GckEnumeratorState) : Prop where
  fields  : Fields args
  forward : forward args ≠ none
  rewind  : ∀ handler : Handler, handler.level ≤ args.handler.level →
    ∃ a, rewindState args handler = some a ∧ a.handler = handler
  cleanup : cleanupState args ≠ none

-- The states that the handlers go through in a call are safe.
def SafeRun (args : GckEnumeratorState) : Prop :=
  ∀ want > 0, ∀ args', ReflTransGen (Loop.Next forwardRound) { checkOutState args with wantObjects := want } args' →
    Safe args'

def Place.state : Place → List GckEnumeratorState
  | .idle state   => state
  | .running args => args.state
  | .finalized    => []

structure State.Safe (s : State) : Prop where
  events : ∀ e, after s e ≠ .aborted
  states : ∀ args ∈ s.place.state, SafeRun args

-- The token information of the slot of a session could be obtained.
def Creation.TokenKnown (c : Creation) : Prop :=
  match c.source with
  | .session session => session.slot.tokenInfo.isSome
  | _                => True

namespace Valid

theorem undone (v : Valid args) (h : args.handler ≠ .modules) :
    (backward args).isSome ∧ Valid (undone args) ∧ (undone args).handler.level + 1 = args.handler.level := by
  obtain ⟨hf, ho⟩ := v
  simp only [Fields] at hf
  cases hh : args.handler <;> simp only [hh] at hf
  case modules => exact absurd hh h
  case slots =>
    refine ⟨?_, ⟨?_, ?_⟩, ?_⟩
    · simp [backward, hh, stateSlotsBackward, hf.slot]
    · simp only [Fields, Enumerator.undone, hh]
      exact ⟨trivial, hf.slot, hf.tokenInfo, hf.funcs, hf.session⟩
    · simp [Enumerator.undone, hh]
    · simp [Enumerator.undone, hh, Handler.level]
  case slot =>
    obtain ⟨hs, hn⟩ := hf
    obtain ⟨slot, hslot⟩ := Option.isSome_iff_exists.mp hs.slot
    obtain ⟨funcs, hfuncs⟩ := Option.isSome_iff_exists.mp hs.funcs
    refine ⟨?_, ⟨?_, ?_⟩, ?_⟩
    · simp [backward, hh, stateSlotBackward, hslot, hfuncs, hn]
    · simp only [Fields, Enumerator.undone, hh]
      exact ⟨rfl, rfl, rfl, hn⟩
    · simp [Enumerator.undone, hh]
    · simp [Enumerator.undone, hh, Handler.level]
  case session =>
    obtain ⟨hs, hsession⟩ := hf
    obtain ⟨session, hsession⟩ := Option.isSome_iff_exists.mp hsession
    obtain ⟨funcs, hfuncs⟩ := Option.isSome_iff_exists.mp hs.funcs
    obtain ⟨tokenInfo, htoken⟩ := Option.isSome_iff_exists.mp hs.tokenInfo
    refine ⟨?_, ⟨?_, ?_⟩, ?_⟩
    · simp [backward, hh, stateSessionBackward, hfuncs, hsession, htoken]
    · simp only [Fields, Enumerator.undone, hh]
      exact ⟨⟨hs.slot, hs.tokenInfo, hs.funcs⟩, trivial⟩
    · simp [Enumerator.undone, hh]
    · simp [Enumerator.undone, hh, Handler.level]
  case find =>
    obtain ⟨hs, hsession⟩ := hf
    refine ⟨?_, ⟨?_, ?_⟩, ?_⟩
    · simp [backward, hh, stateFindBackward]
    · simp only [Fields, Enumerator.undone, hh]
      exact ⟨⟨hs.slot, hs.tokenInfo, hs.funcs⟩, hsession⟩
    · simp [Enumerator.undone, hh]
    · simp [Enumerator.undone, hh, Handler.level]
  case results =>
    obtain ⟨hs, hsession, hfound⟩ := hf
    obtain ⟨funcs, hfuncs⟩ := Option.isSome_iff_exists.mp hs.funcs
    obtain ⟨c, hc⟩ := Option.isSome_iff_exists.mp (ho hh)
    obtain ⟨found, hfound⟩ := Option.isSome_iff_exists.mp hfound
    refine ⟨?_, ⟨?_, ?_⟩, ?_⟩
    · simp [backward, hh, stateResultsBackward, hfuncs, hc, hfound]
    · simp only [Fields, Enumerator.undone, hh]
      exact ⟨⟨hs.slot, hs.tokenInfo, hs.funcs⟩, hsession⟩
    · simp [Enumerator.undone, hh]
    · simp [Enumerator.undone, hh, Handler.level]

-- By induction on the handlers that are gone back through.
theorem run_rewind (v : Valid args) (h : handler.level ≤ args.handler.level)
    (hn : args.handler.level - handler.level < n) :
    ∃ a, (Loop.run (rewindRound handler) n args).join = some a ∧ a.handler = handler ∧ Valid a := by
  induction n generalizing args
  case zero => omega
  case succ n ih =>
    rcases eq_or_ne args.handler handler with heq | hne
    · exact ⟨args, run_rewind_of_stop heq, heq, v⟩
    · have hlt : handler.level < args.handler.level :=
        lt_of_le_of_ne h fun heq => hne (Handler.level_inj heq).symm
      obtain ⟨hb, hv, hl⟩ := v.undone (by rintro hm; simp [hm, Handler.level] at hlt)
      obtain ⟨r, hb⟩ := Option.isSome_iff_exists.mp hb
      rw [Enumerator.run_rewind hne, hb]
      exact ih hv (by omega) (by omega)

theorem rewindState (v : Valid args) (handler : Handler) (h : handler.level ≤ args.handler.level) :
    ∃ a, rewindState args handler = some a ∧ a.handler = handler ∧ Valid a :=
  v.run_rewind h (by cases args.handler <;> simp [Handler.level] <;> omega)

theorem rewindTo (v : Valid args) (h : handler.level ≤ args.handler.level) : rewindTo args handler ≠ none := by
  obtain ⟨a, ha, _⟩ := v.rewindState handler h
  simp [Enumerator.rewindTo, ha]

theorem cleanup (v : Valid args) : cleanupState args ≠ none := by
  obtain ⟨a, ha, hm, hv⟩ := v.rewindState .modules (Nat.zero_le _)
  have hf := hv.fields
  simp only [Fields, hm] at hf
  obtain ⟨hs, hno⟩ := hf
  simp [cleanupState, ha, hs, hno.slot, hno.tokenInfo, hno.funcs, hno.session]

theorem forward (v : Valid args) (ho : args.objectClass.isSome) (hw : 0 < args.wantObjects) :
    forward args ≠ none := by
  have hf := v.fields
  simp only [Fields] at hf
  cases hh : args.handler <;> simp only [hh] at hf <;> simp only [Enumerator.forward, hh]
  case modules =>
    simp only [stateModules, hf.1]
    split <;> simp
  case slots =>
    simp only [stateSlots, hf.slot]
    split
    · exact v.rewindTo (by simp [hh, Handler.level])
    · split
      · simp
      · split <;> simp
  case slot =>
    obtain ⟨hs, hn⟩ := hf
    obtain ⟨slot, hslot⟩ := Option.isSome_iff_exists.mp hs.slot
    obtain ⟨funcs, hfuncs⟩ := Option.isSome_iff_exists.mp hs.funcs
    simp only [stateSlot, hslot, hfuncs, hn]
    split
    · exact v.rewindTo (by simp [hh, Handler.level])
    · simp
  case session =>
    obtain ⟨hs, hsession⟩ := hf
    obtain ⟨session, hsession⟩ := Option.isSome_iff_exists.mp hsession
    obtain ⟨funcs, hfuncs⟩ := Option.isSome_iff_exists.mp hs.funcs
    obtain ⟨tokenInfo, htoken⟩ := Option.isSome_iff_exists.mp hs.tokenInfo
    simp [stateSession, hfuncs, hsession, htoken]
  case find =>
    obtain ⟨hs, hsession⟩ := hf
    obtain ⟨session, hsession⟩ := Option.isSome_iff_exists.mp hsession
    obtain ⟨funcs, hfuncs⟩ := Option.isSome_iff_exists.mp hs.funcs
    simp only [stateFind, hsession, hfuncs, if_neg (Nat.ne_of_gt hw)]
    split <;> simp
  case results =>
    obtain ⟨hs, hsession, hfound⟩ := hf
    obtain ⟨funcs, hfuncs⟩ := Option.isSome_iff_exists.mp hs.funcs
    obtain ⟨c, hc⟩ := Option.isSome_iff_exists.mp ho
    obtain ⟨found, hfound⟩ := Option.isSome_iff_exists.mp hfound
    simp only [stateResults, hfuncs, hc, hfound]
    split
    · simp
    · split
      · simp
      · refine rewindTo ⟨?_, ?_⟩ (by simp [hh, Handler.level])
        · simp only [Fields, hh]
          exact ⟨⟨hs.slot, hs.tokenInfo, rfl⟩, hsession, rfl⟩
        · exact fun _ => rfl

theorem safe (v : Valid args) (ho : args.objectClass.isSome) (hw : 0 < args.wantObjects) : Safe args where
  fields  := v.fields
  forward := v.forward ho hw
  rewind _ h := by
    obtain ⟨a, ha, hh, _⟩ := v.rewindState _ h
    exact ⟨a, ha, hh⟩
  cleanup := v.cleanup

end Valid

-- What is needed to go forward.
structure Ready (args : GckEnumeratorState) : Prop where
  valid       : Valid args
  objectClass : args.objectClass.isSome
  wantObjects : 0 < args.wantObjects

theorem Ready.safe (r : Ready args) : Safe args :=
  r.valid.safe r.objectClass r.wantObjects

theorem Ready.move (r : Ready args) (h : Move args args') : Ready args' := by
  obtain ⟨⟨hf, _⟩, ho, hw⟩ := r
  simp only [Fields] at hf
  refine ⟨⟨?_, ?_⟩, ?_, ?_⟩
  · cases h
    case module hh _ _ =>
      simp only [hh] at hf
      exact ⟨hf.2.slot, hf.2.tokenInfo, hf.2.funcs, hf.2.session⟩
    case noSlots hh _ =>
      simp only [hh] at hf
      exact ⟨rfl, hf.slot, hf.tokenInfo, hf.funcs, hf.session⟩
    case skipSlot hh _ _ =>
      simp only [hh] at hf
      simp only [Fields, hh]
      exact ⟨hf.slot, hf.tokenInfo, hf.funcs, hf.session⟩
    case slot hh _ _ _ =>
      simp only [hh] at hf
      exact ⟨⟨rfl, rfl, rfl⟩, hf.session⟩
    case noSession hh _ _ _ =>
      simp only [hh] at hf
      exact ⟨rfl, rfl, rfl, hf.2⟩
    case session hh _ _ _ =>
      simp only [hh] at hf
      exact ⟨⟨hf.1.slot, hf.1.tokenInfo, hf.1.funcs⟩, rfl⟩
    case find hh _ _ =>
      simp only [hh] at hf
      exact ⟨⟨hf.1.slot, hf.1.tokenInfo, hf.1.funcs⟩, hf.2⟩
    case results hh _ _ _ =>
      simp only [hh] at hf
      exact ⟨⟨hf.1.slot, hf.1.tokenInfo, hf.1.funcs⟩, hf.2, rfl⟩
    case again hh _ _ _ => exact ⟨rfl, rfl, rfl, rfl⟩
  · cases h <;> exact fun _ => ho
  · cases h <;> exact ho
  · cases h <;> exact hw

theorem Ready.reaches (r : Ready args) (h : ReflTransGen (Loop.Next forwardRound) args args') : Ready args' := by
  induction h
  case refl          => exact r
  case tail hn ih => exact ih.move (move_of_next hn)

-- Where the handlers stop the fields are as they were, up to the queues.
theorem Ready.stop (r : Ready args) (h : Stop args args') : Ready args' := by
  obtain ⟨⟨hf, _⟩, ho, hw⟩ := r
  simp only [Fields] at hf
  refine ⟨⟨?_, ?_⟩, ?_, ?_⟩
  · cases h
    case modules => simpa only [Fields] using hf
    case find hh _ _ _ =>
      simp only [hh] at hf
      simp only [Fields, hh]
      exact ⟨⟨hf.1.slot, hf.1.tokenInfo, hf.1.funcs⟩, hf.2⟩
    case noSession => simpa only [Fields] using hf
    case results hh _ _ _ =>
      simp only [hh] at hf
      simp only [Fields, hh]
      exact ⟨⟨hf.1.slot, hf.1.tokenInfo, hf.1.funcs⟩, hf.2.1, rfl⟩
  · cases h <;> exact fun _ => ho
  · cases h <;> exact ho
  · cases h <;> exact hw

theorem Ready.runHandlers (r : Ready args) : ∃ a, runHandlers args = some a ∧ Ready a := by
  obtain ⟨result, hr⟩ := exists_runHandlers args
  obtain ⟨a, ha, hstop⟩ := Loop.invariant r (fun a a' ha hn => ha.move (move_of_next hn)) hr
  cases result
  case none =>
    simp only [forwardRound] at hstop
    split at hstop
    · rename_i hf
      exact absurd hf ha.safe.forward
    · simp at hstop
    · simp at hstop
  case some b => exact ⟨b, by simp [Enumerator.runHandlers, hr], ha.stop (stop_of_round hstop)⟩

-- A state that differs from another one in its results only.
def SameFields (args args' : GckEnumeratorState) : Prop :=
  ∃ results, args' = { args with results := results }

theorem extractResult_sameFields {states : List GckEnumeratorState} (h : args' ∈ (extractResult states).2) :
    ∃ args ∈ states, SameFields args args' := by
  induction states
  case nil => simp [extractResult] at h
  case cons state chained ih =>
    simp only [extractResult] at h
    split at h <;> rcases List.mem_cons.mp h with rfl | h
    · exact ⟨state, List.mem_cons_self, _, rfl⟩
    · exact ⟨args', List.mem_cons_of_mem _ h, args'.results, rfl⟩
    · exact ⟨args', List.mem_cons_self, args'.results, rfl⟩
    · obtain ⟨a, ha, hs⟩ := ih h
      exact ⟨a, List.mem_cons_of_mem _ ha, hs⟩

theorem extractResults_sameFields {want : Nat} {states : List GckEnumeratorState}
    (h : args' ∈ (extractResults want states).2) : ∃ args ∈ states, SameFields args args' := by
  induction want generalizing states
  case zero => exact ⟨args', h, args'.results, rfl⟩
  case succ want ih =>
    simp only [extractResults] at h
    split at h <;> rename_i heq
    · exact extractResult_sameFields (by rw [heq]; exact h)
    · obtain ⟨a, ha, r, rfl⟩ := ih h
      have ha' : a ∈ (extractResult states).2 := by rw [heq]; exact ha
      obtain ⟨b, hb, r', rfl⟩ := extractResult_sameFields ha'
      exact ⟨b, hb, r, rfl⟩

-- What is needed of the states that a call has checked out.
structure CheckedOut (args : GckEnumeratorState) : Prop where
  valid       : Valid args
  objectClass : args.objectClass.isSome

theorem SameFields.checkedOut (h : SameFields args args') (c : CheckedOut args) : CheckedOut args' := by
  obtain ⟨r, rfl⟩ := h
  exact ⟨⟨c.valid.fields, c.valid.objectClass⟩, c.objectClass⟩

theorem Valid.checkOut (v : Valid args) : CheckedOut (checkOutState args) :=
  ⟨⟨v.fields, fun _ => rfl⟩, rfl⟩

theorem CheckedOut.ready (c : CheckedOut args) (hn : 0 < n) : Ready { args with wantObjects := n } :=
  ⟨⟨c.valid.fields, c.valid.objectClass⟩, c.objectClass, hn⟩

theorem performEnumerateNext_checkedOut {want count : Nat} {states : List GckEnumeratorState}
    (h : ∀ a ∈ states, CheckedOut a) (hw : count < want) :
    ∃ states', performEnumerateNext want count states = some states' ∧ ∀ a ∈ states', CheckedOut a := by
  induction states generalizing count
  case nil => exact ⟨[], rfl, by simp⟩
  case cons state chained ih =>
    rw [List.forall_mem_cons] at h
    obtain ⟨a, ha, hr⟩ := (h.1.ready (Nat.sub_pos_of_lt hw)).runHandlers
    simp only [performEnumerateNext, ha]
    split
    · exact ⟨_, rfl, List.forall_mem_cons.mpr ⟨⟨hr.valid, hr.objectClass⟩, h.2⟩⟩
    · have hlt : count + a.results.length < want := by omega
      obtain ⟨states', hs, hc⟩ := ih h.2 hlt
      exact ⟨a :: states', by simp [hs], List.forall_mem_cons.mpr ⟨⟨hr.valid, hr.objectClass⟩, hc⟩⟩

theorem checkOut_checkedOut {states : List GckEnumeratorState} (h : ∀ a ∈ states, Valid a) :
    ∀ a ∈ states.map checkOutState, CheckedOut a := by
  intro a ha
  obtain ⟨b, hb, rfl⟩ := List.mem_map.mp ha
  exact (h b hb).checkOut

theorem extractResult_checkedOut {states : List GckEnumeratorState} (h : ∀ a ∈ states, CheckedOut a) :
    ∀ a ∈ (extractResult states).2, CheckedOut a := by
  intro a ha
  obtain ⟨b, hb, hs⟩ := extractResult_sameFields ha
  exact hs.checkedOut (h b hb)

theorem extractResults_checkedOut (want : Nat) {states : List GckEnumeratorState}
    (h : ∀ a ∈ states, CheckedOut a) : ∀ a ∈ (extractResults want states).2, CheckedOut a := by
  intro a ha
  obtain ⟨b, hb, hs⟩ := extractResults_sameFields ha
  exact hs.checkedOut (h b hb)

theorem gckEnumeratorNext_valid {states : List GckEnumeratorState} (cancelled : Bool) (h : ∀ a ∈ states, Valid a) :
    ∃ reply states', gckEnumeratorNext states cancelled = some (reply, states') ∧ ∀ a ∈ states', CheckedOut a := by
  have hc := extractResult_checkedOut (checkOut_checkedOut h)
  simp only [gckEnumeratorNext]
  split <;> rename_i heq <;> rw [heq] at hc
  · exact ⟨_, _, rfl, hc⟩
  · split
    · exact ⟨_, _, rfl, hc⟩
    · obtain ⟨states', hp, hs⟩ := performEnumerateNext_checkedOut hc Nat.zero_lt_one
      rw [hp]
      exact ⟨_, _, rfl, extractResult_checkedOut hs⟩

theorem gckEnumeratorNextN_valid {states : List GckEnumeratorState} (maxObjects : Int) (cancelled : Bool)
    (h : ∀ a ∈ states, Valid a) :
    ∃ reply states', gckEnumeratorNextN states maxObjects cancelled = some (reply, states') ∧
      ∀ a ∈ states', CheckedOut a := by
  have hc := extractResults_checkedOut (wantedObjects maxObjects) (checkOut_checkedOut h)
  simp only [gckEnumeratorNextN]
  split
  · exact ⟨_, _, rfl, hc⟩
  · rename_i hleft
    split
    · exact ⟨_, _, rfl, hc⟩
    · obtain ⟨states', hp, hs⟩ := performEnumerateNext_checkedOut hc (Nat.pos_of_ne_zero hleft)
      rw [hp]
      exact ⟨_, _, rfl, extractResults_checkedOut _ hs⟩

theorem finalize_valid {states : List GckEnumeratorState} (h : ∀ a ∈ states, Valid a) : finalize states ≠ none := by
  induction states
  case nil => simp [finalize]
  case cons state states ih =>
    rw [List.forall_mem_cons] at h
    simp only [finalize]
    split
    · rename_i hc
      exact absurd hc h.1.cleanup
    · simpa using ih h.2

-- The invariant of the runs.
def Place.Valid : Place → Prop
  | .idle state   => ∀ a ∈ state, Enumerator.Valid a
  | .running args => 0 < args.wantObjects ∧ ∀ a ∈ args.state, CheckedOut a
  | .finalized    => True

-- No event makes an assertion fail, and every event keeps the invariant.
theorem Place.Valid.after {s : State} (v : s.place.Valid) (e : Event) :
    after s e ≠ .aborted ∧ ∀ s', after s e = .ok s' → s'.place.Valid := by
  cases hp : s.place <;> rw [hp] at v <;> simp only [Place.Valid] at v
  case idle states =>
    cases e <;> simp only [Enumerator.after, hp]
    case next cancelled =>
      obtain ⟨reply, states', hn, hc⟩ := gckEnumeratorNext_valid cancelled v
      rw [hn]
      refine ⟨by simp [State.replied], ?_⟩
      rintro s' ⟨⟩
      exact fun a ha => (hc a ha).valid
    case nextN maxObjects cancelled =>
      obtain ⟨reply, states', hn, hc⟩ := gckEnumeratorNextN_valid maxObjects cancelled v
      rw [hn]
      split
      · refine ⟨by simp [State.replied], ?_⟩
        rintro s' ⟨⟩
        exact fun a ha => (hc a ha).valid
      · simp
    case nextAsync maxObjects =>
      split
      · refine ⟨by simp, ?_⟩
        rintro s' ⟨⟩
        exact ⟨wantedObjects_pos maxObjects, checkOut_checkedOut v⟩
      · simp
    case thread     => simp
    case nextFinish => simp
    case dispose =>
      split
      · rename_i hf
        exact absurd hf (finalize_valid v)
      · refine ⟨by simp, ?_⟩
        rintro s' ⟨⟩
        trivial
  case running args =>
    obtain ⟨hw, hc⟩ := v
    cases e <;> simp only [Enumerator.after, hp]
    case thread cancelled =>
      split
      · simp
      · cases cancelled
        case true =>
          simp only [enumerateThread, if_true]
          refine ⟨by simp, ?_⟩
          rintro s' ⟨⟩
          exact ⟨hw, hc⟩
        case false =>
          obtain ⟨states', hp, hs⟩ := performEnumerateNext_checkedOut hc hw
          simp only [enumerateThread, hp, Bool.false_eq_true, if_false, Option.map_some]
          refine ⟨by simp, ?_⟩
          rintro s' ⟨⟩
          exact ⟨hw, hs⟩
    case nextFinish cancelled =>
      split
      · simp
      · refine ⟨by simp [State.replied], ?_⟩
        rintro s' ⟨⟩
        dsimp only [Place.Valid]
        split
        · exact fun a ha => (extractResults_checkedOut _ hc a ha).valid
        · exact fun a ha => (hc a ha).valid
    all_goals simp
  case finalized => cases e <;> simp [Enumerator.after, hp]

theorem Place.Valid.safe {s : State} (v : s.place.Valid) : s.Safe where
  events e := (v.after e).1
  states := by
    have hv : ∀ a ∈ s.place.state, Enumerator.Valid a := by
      cases hp : s.place <;> rw [hp] at v <;> simp only [Place.Valid, Place.state] at *
      case idle      => exact v
      case running   => exact fun a ha => (v.2 a ha).valid
      case finalized => simp
    intro args ha want hw args' hr
    exact (((hv args ha).checkOut.ready hw).reaches hr).safe

theorem Creation.valid {c : Creation} (h : c.TokenKnown) : Valid c.state := by
  obtain ⟨source, _, _⟩ := c
  cases source
  case modules => exact ⟨⟨rfl, rfl, rfl, rfl, rfl⟩, Handler.noConfusion⟩
  case slots   => exact ⟨⟨rfl, rfl, rfl, rfl⟩, Handler.noConfusion⟩
  case session => exact ⟨⟨⟨rfl, h, rfl⟩, rfl⟩, Handler.noConfusion⟩

theorem Run.valid {cs : List Creation} {ts : List (State × Event × State)} {s : State} (r : Run cs ts s)
    (h : ∀ c ∈ cs, c.TokenKnown) : s.place.Valid := by
  refine Transition.Run.invariant (p := fun s => s.place.Valid) r ?_ fun s e s' v hs => (v.after e).2 s' hs
  rintro s rfl a ha
  obtain ⟨c, hc, rfl⟩ := List.mem_map.mp ha
  exact Creation.valid (h c hc)

-- The enumerator and those that are chained to it get through every sequence of calls if and only if
-- none was made for a session whose slot does not give its token information.
theorem safe_iff_tokenKnown (cs : List Creation) :
    (∀ ts s, Run cs ts s → s.Safe) ↔ ∀ c ∈ cs, c.TokenKnown := by
  constructor
  · intro h c hc
    have hs := (h [] _ (.start rfl)).states c.state (List.mem_map_of_mem hc)
    have hf := (hs 1 Nat.zero_lt_one _ .refl).fields
    obtain ⟨source, _, _⟩ := c
    cases source
    case modules => trivial
    case slots   => trivial
    case session => exact hf.1.tokenInfo
  · exact fun h _ _ r => (r.valid h).safe

-- A session with a slot whose token is gone.
def lostSession : Session where
  handle  := 1
  slot    := ⟨1, none, ⟨fun _ => (0, 1), fun _ => 0, fun _ => []⟩⟩
  options := ⟨false, false⟩

def lostToken : Creation where
  source  := .session lostSession
  uriData := ⟨false, none, none⟩
  self    := ⟨⟨"GckObject", none⟩, none⟩

-- Disposing of such an enumerator fails the assertion on the token information.
theorem not_safe_lostToken : ¬∀ cs ts s, Run cs ts s → s.Safe := by
  intro h
  exact (h [lostToken] [] _ (.start rfl)).events .dispose rfl

end Enumerator
