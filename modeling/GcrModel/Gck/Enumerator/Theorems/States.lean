import GcrModel.Gck.Enumerator.Enumerator

namespace Enumerator

open Relation

variable {args args' : GckEnumeratorState} {handler : Handler} {n : Nat}

-- What a handler undoes.
def undone (args : GckEnumeratorState) : GckEnumeratorState :=
  match args.handler with
  | .modules => args
  | .slots   => { args with handler := .modules, slots := [] }
  | .slot    => { args with handler := .slots, slot := none, funcs := none, tokenInfo := none }
  | .session => { args with handler := .slot, session := none }
  | .find    => { args with handler := .session }
  | .results => { args with handler := .find }

theorem backward_eq_some {r : GckEnumeratorState × Handler} (h : backward args = some r) :
    { r.1 with handler := r.2 } = undone args := by
  simp only [backward, undone] at *
  cases hh : args.handler <;> simp only [hh] at *
  case modules => simp [stateModulesBackward] at h
  case slots =>
    simp only [stateSlotsBackward] at h
    split at h <;> simp at h
    rw [← h]
  case slot =>
    simp only [stateSlotBackward] at h
    split at h <;> simp at h
    rw [← h]
  case session =>
    simp only [stateSessionBackward] at h
    split at h <;> simp at h
    rw [← h]
  case find =>
    simp only [stateFindBackward, Option.some.injEq] at h
    rw [← h]
  case results =>
    simp only [stateResultsBackward] at h
    split at h <;> simp at h
    rw [← h]

theorem run_rewind_of_stop (h : args.handler = handler) :
    (Loop.run (rewindRound handler) (n + 1) args).join = some args := by
  rw [Loop.run_of_stop (r := some args) (by simp [rewindRound, h])]
  rfl

theorem run_rewind (h : args.handler ≠ handler) :
    (Loop.run (rewindRound handler) (n + 1) args).join =
      (backward args).bind fun _ => (Loop.run (rewindRound handler) n (undone args)).join := by
  cases hb : backward args
  case none =>
    rw [Loop.run_of_stop (r := none) (by simp [rewindRound, h, hb])]
    rfl
  case some r =>
    have hn : Loop.Next (rewindRound handler) args (undone args) := by
      rw [← backward_eq_some hb]
      simp [Loop.Next, rewindRound, h, hb]
    rw [Loop.run_of_next hn]
    rfl

-- Each round before the last one takes back one handler.
theorem run_undone (h : args.handler ≠ handler) (hr : (Loop.run (rewindRound handler) (n + 1) args).join = some args') :
    (Loop.run (rewindRound handler) n (undone args)).join = some args' := by
  rw [run_rewind h] at hr
  obtain ⟨_, _, hr⟩ := Option.bind_eq_some_iff.mp hr
  exact hr

-- From the results the enumerator goes back through four handlers.
theorem rewindState_slots_of_results (h : args.handler = .results)
    (hr : rewindState args .slots = some args') :
    args' = { args with
      handler := .slots, slot := none, funcs := none, tokenInfo := none, session := none } := by
  simp only [rewindState] at hr
  replace hr := run_undone (by simp [h]) hr
  replace hr := run_undone (by simp [undone, h]) hr
  replace hr := run_undone (by simp [undone, h]) hr
  replace hr := run_undone (by simp [undone, h]) hr
  rw [run_rewind_of_stop (by simp [undone, h]), Option.some.injEq] at hr
  simp [← hr, undone, h]

theorem rewindState_slots_of_slot (h : args.handler = .slot) (hr : rewindState args .slots = some args') :
    args' = { args with handler := .slots, slot := none, funcs := none, tokenInfo := none } := by
  simp only [rewindState] at hr
  replace hr := run_undone (by simp [h]) hr
  rw [run_rewind_of_stop (by simp [undone, h]), Option.some.injEq] at hr
  simp [← hr, undone, h]

theorem rewindState_modules_of_slots (h : args.handler = .slots) (hr : rewindState args .modules = some args') :
    args' = { args with handler := .modules, slots := [] } := by
  simp only [rewindState] at hr
  replace hr := run_undone (by simp [h]) hr
  rw [run_rewind_of_stop (by simp [undone, h]), Option.some.injEq] at hr
  simp [← hr, undone, h]

-- What the handlers do when they go forward.
inductive Move (args : GckEnumeratorState) : GckEnumeratorState → Prop
  | module {m ms} : args.handler = .modules → args.slots = [] → args.modules = m :: ms →
    Move args { args with handler := .slots, modules := ms, slots := m.slots }
  | noSlots : args.handler = .slots → args.slots = [] → Move args { args with handler := .modules, slots := [] }
  | skipSlot {slot slots} : args.handler = .slots → args.slots = slot :: slots →
    slot.tokenInfo.any (matched args.uriData) = false → Move args { args with slots := slots }
  | slot {slot slots tokenInfo} : args.handler = .slots → args.slots = slot :: slots →
    slot.tokenInfo = some tokenInfo → matched args.uriData tokenInfo = true →
    Move args { args with
      handler := .slot, slots := slots, slot := some slot, tokenInfo := some tokenInfo
      funcs := some slot.functions }
  | noSession {slot funcs} : args.handler = .slot → args.slot = some slot → args.funcs = some funcs →
    (funcs.openSession args.sessionOptions.readWrite).1 ≠ 0 →
    Move args { args with handler := .slots, slot := none, funcs := none, tokenInfo := none }
  | session {slot funcs} : args.handler = .slot → args.slot = some slot → args.funcs = some funcs →
    (funcs.openSession args.sessionOptions.readWrite).1 = 0 →
    Move args { args with
      handler := .session
      session := some ⟨(funcs.openSession args.sessionOptions.readWrite).2, slot, args.sessionOptions⟩ }
  | find : args.handler = .session → args.funcs.isSome → args.session.isSome →
    Move args { args with handler := .find }
  | results {session funcs} : args.handler = .find → args.session = some session → args.funcs = some funcs →
    session.handle ≠ 0 →
    Move args { args with
      handler := .results
      found   := some (args.found.getD [] ++ findResults args.uriData funcs session) }
  | again {found left results} : args.handler = .results → args.session.any (·.handle = 0) = false →
    args.found = some found →
    takeResults args.attrTypes args.wantObjects found args.results = (left, results, false) →
    Move args { args with
      handler := .slots, slot := none, funcs := none, tokenInfo := none, session := none
      found := some left, results := results }

-- Where the handlers stop.
inductive Stop (args : GckEnumeratorState) : GckEnumeratorState → Prop
  | modules : args.handler = .modules → args.slots = [] → args.modules = [] → Stop args args
  | find {session funcs} : args.handler = .find → args.session = some session → args.funcs = some funcs →
    session.handle = 0 → Stop args { args with found := some (args.found.getD []) }
  | noSession : args.handler = .results → args.session.any (·.handle = 0) → Stop args args
  | results {found left results} : args.handler = .results → args.session.any (·.handle = 0) = false →
    args.found = some found →
    takeResults args.attrTypes args.wantObjects found args.results = (left, results, true) →
    Stop args { args with found := some left, results := results }

theorem forward_eq_some {r : GckEnumeratorState × Option Handler} (h : forward args = some r) :
    r.2.elim (Stop args r.1) fun handler => Move args { r.1 with handler := handler } := by
  cases hh : args.handler <;> simp only [forward, hh] at h
  case modules =>
    simp only [stateModules] at h
    split at h
    · simp at h
    · rename_i hs
      split at h <;> rename_i hm <;> obtain rfl := Option.some.inj h
      · exact .modules hh hs hm
      · exact .module hh hs hm
  case slots =>
    simp only [stateSlots] at h
    split at h
    · simp at h
    · rename_i hn
      split at h
      · rename_i hs
        obtain ⟨a, ha, rfl⟩ := Option.map_eq_some_iff.mp h
        obtain rfl := rewindState_modules_of_slots hh ha
        exact .noSlots hh hs
      · rename_i slot slots hs
        have hsame : ∀ ss, { args with slots := ss, handler := Handler.slots } = { args with slots := ss } := by
          simp [← hh]
        split at h
        · rename_i ht
          obtain rfl := Option.some.inj h
          simp only [Option.elim_some, hsame]
          exact .skipSlot hh hs (by simp [ht])
        · rename_i tokenInfo ht
          split at h <;> rename_i hm <;> obtain rfl := Option.some.inj h
          · exact .slot hh hs ht hm
          · simp only [Option.elim_some, hsame]
            exact .skipSlot hh hs (by simpa [ht] using hm)
  case slot =>
    simp only [stateSlot] at h
    split at h
    · rename_i slot funcs hslot hfuncs hsession
      split at h
      · rename_i hrv
        obtain ⟨a, ha, rfl⟩ := Option.map_eq_some_iff.mp h
        obtain rfl := rewindState_slots_of_slot hh ha
        exact .noSession hh hslot hfuncs hrv
      · rename_i hrv
        obtain rfl := Option.some.inj h
        exact .session hh hslot hfuncs (by simpa using hrv)
    · simp at h
  case session =>
    simp only [stateSession] at h
    split at h
    · rename_i hf hs _
      obtain rfl := Option.some.inj h
      exact .find hh (by simp [hf]) (by simp [hs])
    · simp at h
  case find =>
    simp only [stateFind] at h
    split at h
    · rename_i session funcs hsession hfuncs
      split at h
      · simp at h
      · split at h <;> rename_i hz <;> obtain rfl := Option.some.inj h
        · exact .find hh hsession hfuncs hz
        · exact .results hh hsession hfuncs hz
    · simp at h
  case results =>
    simp only [stateResults] at h
    split at h
    · rename_i hfound
      split at h
      · rename_i hz
        obtain rfl := Option.some.inj h
        exact .noSession hh hz
      · rename_i hz
        rw [Bool.not_eq_true] at hz
        split at h <;> rename_i hall
        · obtain rfl := Option.some.inj h
          exact .results hh hz hfound (by rw [← hall])
        · obtain ⟨a, ha, rfl⟩ := Option.map_eq_some_iff.mp h
          obtain rfl := rewindState_slots_of_results (by simp [hh]) ha
          exact .again hh hz hfound (by rw [← Bool.not_eq_true _ |>.mp hall])
    · simp at h

theorem move_of_next (h : Loop.Next forwardRound args args') : Move args args' := by
  simp only [Loop.Next, forwardRound] at h
  split at h
  · simp at h
  · simp at h
  · rename_i a handler hf
    obtain rfl := Sum.inr.inj h
    exact forward_eq_some hf

theorem stop_of_round (h : forwardRound args = .inl (some args')) : Stop args args' := by
  simp only [forwardRound] at h
  split at h
  · simp at h
  · rename_i a hf
    obtain rfl := Option.some.inj (Sum.inl.inj h)
    exact forward_eq_some hf
  · simp at h

theorem Move.rounds_lt (h : Move args args') : rounds args' < rounds args := by
  cases h
  case module hh hs hm   => simp [rounds, Handler.rounds, hh, hs, hm]; omega
  case noSlots hh hs     => simp [rounds, Handler.rounds, hh, hs]
  case skipSlot hh hs _  => simp [rounds, Handler.rounds, hh, hs]
  case slot hh hs _ _    => simp [rounds, Handler.rounds, hh, hs]; omega
  case noSession hh _ _ _ => simp [rounds, Handler.rounds, hh]
  case session hh _ _ _  => simp [rounds, Handler.rounds, hh]
  case find hh _ _       => simp [rounds, Handler.rounds, hh]
  case results hh _ _ _  => simp [rounds, Handler.rounds, hh]
  case again hh _ _ _    => simp [rounds, Handler.rounds, hh]

theorem exists_runHandlers (args : GckEnumeratorState) :
    ∃ r, Loop.run forwardRound (rounds args + 1) args = some r :=
  Loop.run_of_measure rounds (fun _ _ h => (move_of_next h).rounds_lt) args

-- What holds before the handlers run and is preserved by each holds where they stop.
theorem runHandlers_spec {p : GckEnumeratorState → Prop} (hp : p args) (hs : ∀ a a', p a → Move a a' → p a')
    (h : runHandlers args = some args') : ∃ a, p a ∧ Stop a args' := by
  obtain ⟨r, hr⟩ := exists_runHandlers args
  simp only [runHandlers, hr, Option.join_some] at h
  obtain ⟨a, ha, hstop⟩ := Loop.invariant hp (fun a a' ha hn => hs a a' ha (move_of_next hn)) hr
  exact ⟨a, ha, stop_of_round (h ▸ hstop)⟩

theorem wantedObjects_pos (maxObjects : Int) : 0 < wantedObjects maxObjects := by
  unfold wantedObjects
  split <;> omega

theorem State.replied_ok {s s' : State} {r : Option (Reply × List GckEnumeratorState)} (h : s.replied r = .ok s') :
    ∃ reply states, r = some (reply, states) ∧ s' = ⟨.idle states, s.returned ++ reply.objects, some reply⟩ := by
  cases r
  case none => simp [State.replied] at h
  case some r => exact ⟨r.1, r.2, rfl, (Transition.Outcome.ok.inj h).symm⟩

end Enumerator
