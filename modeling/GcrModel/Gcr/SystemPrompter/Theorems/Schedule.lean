import GcrModel.Gcr.SystemPrompter.Theorems.Bookkeeping

namespace SystemPrompter

open Transition (Outcome)

variable {mode : Mode} {s s' : State} {c : Callback} {e : Event} {ts : List (State × Event × State)}

-- The prompts of other callbacks are as they were.
def OthersKept (c : Callback) (s s' : State) : Prop :=
  ∀ c' id, (c', id) ∈ s.active → c' ≠ c →
    s'.prompts[id]? = s.prompts[id]? ∧ ∀ op, (id, op) ∈ s'.pending ↔ (id, op) ∈ s.pending

-- What an event does.
inductive Effect (s : State) : Event → State → Prop
  | already {callback created} : (lookupCallback s callback).isSome → Effect s (.beginPrompting callback created) s
  | begun {callback created t} : lookupCallback s callback = none → Inv (begun s callback) →
    Next created (begun s callback) t → Effect s (.beginPrompting callback created) t
  | performed {callback type valid t} : SameTables s t → OthersKept callback s t →
    Effect s (.performPrompt callback type valid) t
  | stopped {callback created t₁ t} : Stopped (· ≠ callback) s t₁ → Next created t₁ t →
    Effect s (.stopPrompting callback created) t
  | vanished {name t} : Stopped (·.name ≠ name) s t → Effect s (.callerVanished name) t
  | closed {callback t} : (lookupActive s callback).isSome → Stopped (· ≠ callback) s t →
    Effect s (.promptClose callback) t
  | ready {id response result created p t} : s.prompts[id]? = some p → p.cancelled = true ∨ result = .success →
    SameTables s t → Effect s (.promptReady id response result created) t
  | failed {id response result created p t₀ t₁ t} : s.prompts[id]? = some p → p.cancelled = false →
    result ≠ .success → (p.callback, id) ∈ s.active → SameTables s t₀ → Stopped (· ≠ p.callback) t₀ t₁ →
    Next created t₁ t → Effect s (.promptReady id response result created) t
  | answered {id answer t} : SameTables s t → Effect s (.answer id answer) t
  | unregistered {t} : t.mode = s.mode → t.callbacks = [] → t.waiting = [] → t.active = [] →
    t.started = s.started → t.watches = s.watches → Effect s .unregister t
  | registered {t} : SameTables s t → Effect s .register t

theorem prompterMethodPerformPrompt_same (i : Inv s) (c : Callback) (type : String) (valid : Bool) :
    SameTables s (prompterMethodPerformPrompt s c type valid) ∧
      OthersKept c s (prompterMethodPerformPrompt s c type valid) := by
  have hrefl : OthersKept c s s := fun _ _ _ _ => ⟨rfl, fun _ => Iff.rfl⟩
  simp only [prompterMethodPerformPrompt]
  split
  · exact ⟨.refl s, hrefl⟩
  · rename_i id ha
    have hmem := mem_of_lookupActive ha
    split
    · exact ⟨.refl s, hrefl⟩
    · rename_i p hp
      have hne : ∀ c' id', (c', id') ∈ s.active → c' ≠ c → id ≠ id' := by
        rintro c' id' h hc rfl
        exact hc (congrArg Prod.fst (i.active_eq h hmem rfl))
      have hkept : ∀ (q : ActivePrompt) (op : Operation),
          OthersKept c s { s with prompts := s.prompts.set id q, pending := (id, op) :: s.pending } := by
        intro q op c' id' h hc
        have hid := hne c' id' h hc
        refine ⟨List.getElem?_set_ne hid, fun op' => ?_⟩
        simp [hid.symm]
      split
      · split
        · exact ⟨⟨rfl, rfl, rfl, rfl, rfl, rfl, rfl⟩, hkept _ _⟩
        · split
          · exact ⟨⟨rfl, rfl, rfl, rfl, rfl, rfl, rfl⟩, hkept _ _⟩
          · exact ⟨⟨rfl, rfl, rfl, rfl, rfl, rfl, rfl⟩,
              fun c' id' h hc => ⟨List.getElem?_set_ne (hne c' id' h hc), fun _ => Iff.rfl⟩⟩
      · exact ⟨.refl s, hrefl⟩

-- No event makes an assertion fail, and every event keeps the invariant.
theorem Inv.after (i : Inv s) (e : Event) :
    after s e = .refused ∨ ∃ s', after s e = .ok s' ∧ Effect s e s' ∧ Inv s' := by
  cases e <;> simp only [SystemPrompter.after]
  case beginPrompting c created =>
    split
    · rename_i hreg
      right
      cases hl : lookupCallback s c
      case some r => exact ⟨s, by simp [prompterMethodBeginPrompting, hl, Outcome.ofOption], .already (by simp [hl]), i⟩
      case none =>
        have hb := i.begun hreg hl
        obtain ⟨s', hs', hn⟩ := promptNextReady_next hb created
        refine ⟨s', ?_, .begun hl hb hn, hn.inv hb⟩
        simp only [prompterMethodBeginPrompting, hl]
        exact congrArg Outcome.ofOption hs'
    · exact .inl rfl
  case performPrompt c type valid =>
    split
    · obtain ⟨hs, ho⟩ := prompterMethodPerformPrompt_same i c type valid
      exact .inr ⟨_, rfl, .performed hs ho, i.perform c type valid⟩
    · exact .inl rfl
  case stopPrompting c created =>
    split
    · right
      have hs := promptStopPrompting_stopped i c true
      obtain ⟨s', hs', hn⟩ := promptNextReady_next hs.inv created
      exact ⟨s', congrArg Outcome.ofOption hs', .stopped hs hn, hn.inv hs.inv⟩
    · exact .inl rfl
  case callerVanished name =>
    have hs := onCallerVanished_stopped i name
    exact .inr ⟨_, rfl, .vanished hs, hs.inv⟩
  case promptClose c =>
    split
    · rename_i ha
      have hs := promptStopPrompting_stopped i c true
      exact .inr ⟨_, rfl, .closed ha hs, hs.inv⟩
    · exact .inl rfl
  case promptReady id response result created =>
    split
    · rename_i hmem
      right
      obtain ⟨s', hs', hc, hi⟩ := onPromptReadyComplete_completed i hmem result created
      refine ⟨s', congrArg Outcome.ofOption hs', ?_, hi⟩
      cases hc
      case ready hp hr => exact .ready hp hr ⟨rfl, rfl, rfl, rfl, rfl, rfl, rfl⟩
      case failed hp hc hr ha hs hn =>
        refine .failed hp hc hr ha ?_ hs hn
        exact ⟨rfl, rfl, rfl, rfl, rfl, rfl, rfl⟩
    · exact .inl rfl
  case answer id answer =>
    split
    · rename_i hmem
      right
      obtain ⟨s', hs', hsame, hi⟩ := onPromptAnswer_sent i hmem answer
      exact ⟨s', congrArg Outcome.ofOption hs', .answered hsame, hi⟩
    · exact .inl rfl
  case unregister =>
    split
    · right
      obtain ⟨s₁, hs₁, hs, hc, hw, ha⟩ := gcrSystemPrompterUnregister_stopped i
      refine ⟨_, congrArg Outcome.ofOption hs₁, .unregistered hs.mode hc hw ha hs.started hs.watches, ?_⟩
      exact { hs.inv with unregistered := fun _ => hc }
    · exact .inl rfl
  case register =>
    split
    · exact .inl rfl
    · exact .inr ⟨_, rfl, .registered ⟨rfl, rfl, rfl, rfl, rfl, rfl, rfl⟩, { i with unregistered := by simp }⟩

theorem Inv.step (i : Inv s) (h : Step s e s') : Effect s e s' ∧ Inv s' := by
  rcases i.after e with hr | ⟨s₁, hok, he, hi⟩
  · rw [Step, hr] at h
    cases h
  · rw [Step, hok] at h
    cases h
    exact ⟨he, hi⟩

theorem Inv.new (mode : Mode) : Inv (State.new mode) := by
  constructor <;> simp [State.new]

theorem Run.inv (r : Run mode ts s) : Inv s :=
  Transition.Run.invariant r (fun _ h => h ▸ .new mode) fun _ _ _ i h => (i.step h).2

-- The sender of a method call.
def Event.sender : Event → Option String
  | beginPrompting c _  => some c.name
  | performPrompt c _ _ => some c.name
  | stopPrompting c _   => some c.name
  | _                   => none

-- Whether a prompt can be made
def Event.created : Event → Bool
  | beginPrompting _ created  => created
  | stopPrompting _ created   => created
  | promptReady _ _ _ created => created
  | _                         => true

-- A callback is as it was: if it waits it may only get its prompt.
structure Undisturbed (c : Callback) (s : State) (e : Event) (s' : State) : Prop where
  registered : ∀ r, r.callback = c → (r ∈ s'.callbacks ↔ r ∈ s.callbacks)
  active     : ∀ id, (c, id) ∈ s.active → (c, id) ∈ s'.active ∧ s'.prompts[id]? = s.prompts[id]? ∧
    ∀ op, (id, op) ∈ s'.pending ↔ (id, op) ∈ s.pending
  waiting    : ∀ r ∈ s.waiting, r.callback = c → r ∈ s'.waiting ∨ r.watch ∈ s'.started ∨ e.created = false
  done       : ∀ r ∈ s.callbacks, r.callback = c → (r.watch ∈ s'.done ↔ r.watch ∈ s.done)

-- What holds in every state of the prompter.
structure Bookkeeping (s : State) : Prop where
  waiting    : ∀ r ∈ s.waiting, r ∈ s.callbacks
  active     : ∀ a ∈ s.active, ∃ r ∈ s.callbacks, r.callback = a.1
  disjoint   : ∀ r ∈ s.waiting, ∀ a ∈ s.active, a.1 ≠ r.callback
  queued     : (s.waiting.map (·.callback)).Nodup
  single     : s.mode = .single → s.active.length ≤ 1
  unanswered : ∀ id, (s.pending.filter (·.1 = id)).length ≤ 1
  done       : s.done.Nodup
  watches    : (s.callbacks.map (·.watch)).Nodup
  safe       : ∀ e, after s e ≠ .aborted

theorem Inv.bookkeeping (i : Inv s) : Bookkeeping s where
  waiting    := i.waiting
  active     := i.active
  disjoint   := i.disjoint
  queued     := by
    refine List.Nodup.map_on (fun r hr r' hr' heq => ?_) i.queue
    exact i.registration_eq (i.waiting r hr) (i.waiting r' hr') heq
  single     := i.single
  unanswered id := by
    have h := List.nodup_iff_count_le_one.mp i.unanswered id
    rw [List.count, List.countP_map, List.countP_eq_length_filter] at h
    exact h
  done       := i.done_nodup
  watches    := i.watches
  safe e     := by
    rcases i.after e with hr | ⟨s', hok, _⟩
    · simp [hr]
    · simp [hok]

theorem Next.undisturbed {created : Bool} (n : Next created s s') (i : Inv s) (c : Callback) (e : Event)
    (he : e.created = created) : Undisturbed c s e s' := by
  cases n
  case idle => exact ⟨fun _ _ => Iff.rfl, fun _ h => ⟨h, rfl, fun _ => Iff.rfl⟩, fun _ h _ => .inl h, fun _ _ _ => Iff.rfl⟩
  case failed r rest hcreated _ hw =>
    exact ⟨fun _ _ => Iff.rfl, fun _ h => ⟨h, rfl, fun _ => Iff.rfl⟩, fun _ _ _ => .inr (.inr (he.trans hcreated)),
      fun _ _ _ => Iff.rfl⟩
  case started r rest hcreated _ hw =>
    refine ⟨fun _ _ => Iff.rfl, fun id h => ?_, fun r' hr' _ => ?_, fun _ _ _ => Iff.rfl⟩
    · obtain ⟨p, hp, _⟩ := i.prompt _ h
      have hlt := (List.getElem?_eq_some_iff.mp hp).1
      refine ⟨List.mem_cons_of_mem _ h, List.getElem?_append_left hlt, fun op => ?_⟩
      simp [Nat.ne_of_lt hlt]
    · rw [hw] at hr'
      rcases List.mem_cons.mp hr' with rfl | hr'
      · exact .inr (.inl List.mem_cons_self)
      · exact .inl hr'

theorem Undisturbed.of_stopped {t : State} (u : Undisturbed c s' e t) {callback : Callback}
    (h : Stopped (· ≠ callback) s s') (hne : c ≠ callback) : Undisturbed c s e t := by
  have hregistered : ∀ r, r.callback = c → (r ∈ s'.callbacks ↔ r ∈ s.callbacks) := by
    rintro r rfl
    simp [h.callbacks, hne]
  refine ⟨fun r hr => (u.registered r hr).trans (hregistered r hr), fun id ha => ?_, fun r hr hc => ?_, fun r hr hc => ?_⟩
  · have ha' : (c, id) ∈ s'.active := by simpa [h.active, hne] using ha
    obtain ⟨hactive, hprompt, hpending⟩ := u.active id ha'
    exact ⟨hactive, hprompt.trans (h.prompts _ ha'), fun op => by rw [hpending op, h.pending]⟩
  · refine u.waiting r ?_ hc
    rw [h.waiting]
    exact List.mem_filter.mpr ⟨hr, by simpa [hc] using hne⟩
  · have hr' := (hregistered r hc).mpr hr
    exact (u.done r hr' hc).trans (h.done r hr')

-- A call of another sender leaves a callback as it was.
theorem Effect.undisturbed (f : Effect s e s') {sender : String} (hs : e.sender = some sender)
    (hne : c.name ≠ sender) : Undisturbed c s e s' := by
  cases f <;> simp only [Event.sender, reduceCtorEq, Option.some.injEq] at hs
  case already => exact ⟨fun _ _ => Iff.rfl, fun _ h => ⟨h, rfl, fun _ => Iff.rfl⟩, fun _ h _ => .inl h, fun _ _ _ => Iff.rfl⟩
  case begun callback created hl hb hn =>
    have hcne : c ≠ callback := fun h => hne (by rw [h, hs])
    have u := hn.undisturbed hb c (.beginPrompting callback created) rfl
    refine ⟨fun r hr => ?_, u.active, fun r hr => u.waiting r (List.mem_append_left _ hr),
      fun r hr => u.done r (List.mem_cons_of_mem _ hr)⟩
    rw [u.registered r hr]
    refine ⟨fun h => (List.mem_cons.mp h).resolve_left ?_, List.mem_cons_of_mem _⟩
    rintro rfl
    exact hcne hr.symm
  case performed callback type valid ht ho =>
    have hcne : c ≠ callback := fun h => hne (by rw [h, hs])
    refine ⟨fun r _ => by rw [ht.callbacks], fun id h => ⟨by rw [ht.active]; exact h, ho c id h hcne⟩,
      fun r hr _ => .inl (by rw [ht.waiting]; exact hr), fun r _ _ => by rw [ht.done]⟩
  case stopped callback created t₁ hst hn =>
    have hcne : c ≠ callback := fun h => hne (by rw [h, hs])
    exact (hn.undisturbed hst.inv c (.stopPrompting callback created) rfl).of_stopped hst hcne

-- The bookkeeping of every run, and what the calls of a sender do not touch.
theorem Run.bookkeeping_undisturbed (r : Run mode ts s) :
    Bookkeeping s ∧ ∀ t ∈ ts, ∀ sender, t.2.1.sender = some sender → ∀ c : Callback, c.name ≠ sender →
      Undisturbed c t.1 t.2.1 t.2.2 := by
  refine ⟨r.inv.bookkeeping, ?_⟩
  refine Transition.Run.forall_step (p := Inv) (Q := fun s e s' => ∀ sender, e.sender = some sender →
    ∀ c : Callback, c.name ≠ sender → Undisturbed c s e s') r ?_ (fun _ _ _ i h => (i.step h).2) ?_
  · rintro s rfl
    exact .new mode
  · exact fun _ _ _ i h _ hs _ hne => (i.step h).1.undisturbed hs hne

theorem Run.next (r : Run mode ts s) (e : Event) (h : SystemPrompter.after s e = .ok s') :
    Run mode ((s, e, s') :: ts) s' :=
  .step r h

-- Two senders begin, the first is shown a prompt and stops, and then the second has one.
theorem Run.bookkeeping_undisturbed_two :
    ∃ ts s, Run .single ts s ∧ ts.length = 5 ∧ s.active = [(⟨"/b", ":2"⟩, 1)] ∧ s.done = [1] ∧ Bookkeeping s := by
  have r : Run .single _ _ := (((((Run.next (.start rfl) (.beginPrompting ⟨"/a", ":1"⟩ true) rfl).next
    (.beginPrompting ⟨"/b", ":2"⟩ true) rfl).next (.promptReady 0 "" .success true) rfl).next
    (.performPrompt ⟨"/a", ":1"⟩ "confirm" true) rfl).next (.stopPrompting ⟨"/a", ":1"⟩ true) rfl)
  exact ⟨_, _, r, rfl, rfl, rfl, r.bookkeeping_undisturbed.1⟩

end SystemPrompter

namespace SystemPrompter

variable {mode : Mode} {s s' t : State} {c : Callback} {e : Event} {ts : List (State × Event × State)}

-- No callback waits for nothing.
def Scheduled (s : State) : Prop :=
  match s.mode with
  | .single   => s.waiting ≠ [] → s.active ≠ []
  | .multiple => s.waiting = []

-- The watches number the callbacks in the order in which they asked: in this order they get their
-- prompts, the last one first in the list, and what waits has asked later.
structure InOrder (s : State) : Prop where
  started : s.started.Pairwise (· > ·)
  waiting : s.waiting.Pairwise fun r r' => r.watch < r'.watch
  later   : ∀ w ∈ s.started, ∀ r ∈ s.waiting, w < r.watch
  watches : ∀ w ∈ s.started, w < s.watches

-- The events that do not leave the queue alone: one that closes the active prompt finds nothing waiting,
-- one whose caller vanishes leaves another prompt or nothing waiting, and where the active prompt is
-- stopped the next one can be made or is the last.
def Event.Schedules (s : State) : Event → Prop
  | stopPrompting callback created => created = true ∨ lookupActive s callback = none ∨ s.waiting.length ≤ 1
  | callerVanished name => (∀ r ∈ s.waiting, r.callback.name = name) ∨ ∃ a ∈ s.active, a.1.name ≠ name
  | promptClose _ => s.waiting = []
  | promptReady id _ result created =>
    created = true ∨ s.waiting.length ≤ 1 ∨ result = .success ∨ (s.prompts[id]?).any (·.cancelled)
  | _ => True

theorem scheduled_iff :
    Scheduled s ↔ (s.mode = .single → s.waiting ≠ [] → s.active ≠ []) ∧ (s.mode = .multiple → s.waiting = []) := by
  unfold Scheduled
  split <;> rename_i hm <;> simp [hm]

theorem scheduled_of_nil (h : s.waiting = []) : Scheduled s :=
  (scheduled_iff).mpr ⟨fun _ hne => absurd h hne, fun _ => h⟩

-- Nothing waits where no prompt is shown.
theorem Scheduled.waiting_nil (hs : Scheduled s) (h : s.mode = .single → s.active = []) : s.waiting = [] := by
  obtain ⟨hsingle, hmultiple⟩ := (scheduled_iff).mp hs
  cases hm : s.mode
  case single =>
    by_contra hne
    exact hsingle hm hne (h hm)
  case multiple => exact hmultiple hm

theorem SameTables.scheduled (h : SameTables s s') (hs : Scheduled s) : Scheduled s' := by
  simpa only [Scheduled, h.mode, h.waiting, h.active] using hs

-- Where at most one callback waits for a prompt it gets it.
theorem Next.scheduled {created : Bool} (n : Next created s s')
    (h : ¬Busy s → s.waiting.length ≤ 1) : Scheduled s' := by
  cases n
  case idle h' =>
    rcases h' with hb | hw
    · refine (scheduled_iff).mpr ⟨fun _ _ => hb.2, fun hm => ?_⟩
      rw [hb.1] at hm
      cases hm
    · exact scheduled_of_nil hw
  case failed r rest _ hb hw =>
    have hlen := h hb
    rw [hw, List.length_cons] at hlen
    have hnil : rest = [] := List.length_eq_zero_iff.mp (by omega)
    exact scheduled_of_nil hnil
  case started r rest _ hb hw =>
    have hlen := h hb
    rw [hw, List.length_cons] at hlen
    have hnil : rest = [] := List.length_eq_zero_iff.mp (by omega)
    exact scheduled_of_nil hnil

-- What is left when a callback is stopped that has a prompt, and when one is stopped that has none.
theorem Inv.waiting_of_active (i : Inv s) (h : lookupActive s c ≠ none) :
    s.waiting.filter (·.callback ≠ c) = s.waiting := by
  obtain ⟨id, hid⟩ := Option.ne_none_iff_exists'.mp h
  exact List.filter_eq_self.mpr fun r hr => decide_eq_true (i.disjoint r hr _ (mem_of_lookupActive hid)).symm

theorem Inv.active_of_active (i : Inv s) (hm : s.mode = .single) (h : lookupActive s c ≠ none) :
    s.active.filter (·.1 ≠ c) = [] := by
  obtain ⟨id, hid⟩ := Option.ne_none_iff_exists'.mp h
  have hmem := mem_of_lookupActive hid
  obtain ⟨a, ha⟩ := List.length_eq_one_iff.mp (Nat.le_antisymm (i.single hm) (List.length_pos_of_mem hmem))
  rw [ha] at hmem ⊢
  obtain rfl := List.mem_singleton.mp hmem
  simp

theorem active_of_not_active (h : lookupActive s c = none) : s.active.filter (·.1 ≠ c) = s.active :=
  List.filter_eq_self.mpr fun a ha => decide_eq_true (lookupActive_eq_none.mp h a ha)

-- The active prompt is stopped, and the next one is to be shown.
theorem Inv.scheduled_stopped {created : Bool} (i : Inv s) (hs : Scheduled s) (h : lookupActive s c ≠ none)
    (hmode : s'.mode = s.mode) (hw : s'.waiting = s.waiting.filter (·.callback ≠ c))
    (ha : s'.active = s.active.filter (·.1 ≠ c)) (n : Next created s' t) :
    Scheduled t ↔ created = true ∨ s.waiting.length ≤ 1 := by
  rw [i.waiting_of_active h] at hw
  cases hm : s.mode
  case multiple =>
    have hnil := ((scheduled_iff).mp hs).2 hm
    simp only [hnil, List.length_nil, Nat.zero_le, or_true, iff_true]
    exact n.scheduled fun _ => by simp [hw, hnil]
  case single =>
    rw [i.active_of_active hm h] at ha
    have hidle : ¬Busy s' := fun hb => hb.2 ha
    cases n
    case idle h' =>
      have hnil := h'.resolve_left hidle
      simp only [← hw, hnil, List.length_nil, Nat.zero_le, or_true, iff_true]
      exact scheduled_of_nil hnil
    case failed r rest hcreated _ hrest =>
      rw [scheduled_iff, ← hw, hrest, hcreated]
      simp [ha, hmode, hm]
    case started r rest hcreated _ hrest =>
      rw [scheduled_iff, hcreated]
      simp [hmode, hm]

theorem Effect.scheduled_iff (f : Effect s e s') (i : Inv s) (hs : Scheduled s) :
    Scheduled s' ↔ e.Schedules s := by
  cases f
  case already => exact iff_of_true hs trivial
  case begun callback created hl hb hn =>
    refine iff_of_true (hn.scheduled fun hbusy => ?_) trivial
    have hnil : s.waiting = [] := hs.waiting_nil fun hm => by_contra fun hne => hbusy ⟨hm, hne⟩
    simp [SystemPrompter.begun, hnil]
  case performed ht _ => exact iff_of_true (ht.scheduled hs) trivial
  case stopped callback created t₁ hst hn =>
    by_cases h : lookupActive s callback = none
    · have ha := hst.active.trans (active_of_not_active h)
      refine iff_of_true (hn.scheduled fun hbusy => ?_) (.inr (.inl h))
      have hnil : s.waiting = [] :=
        hs.waiting_nil fun hm => by_contra fun hne => hbusy ⟨hst.mode.trans hm, ha ▸ hne⟩
      simp [hst.waiting, hnil]
    · rw [i.scheduled_stopped hs h hst.mode hst.waiting hst.active hn]
      simp [Event.Schedules, h]
  case vanished name hst =>
    have hw : s'.waiting = [] ↔ ∀ r ∈ s.waiting, r.callback.name = name := by
      simp [hst.waiting]
    have ha : s'.active ≠ [] ↔ ∃ a ∈ s.active, a.1.name ≠ name := by
      simp [hst.active]
    rw [Event.Schedules, ← hw, ← ha]
    cases hm : s.mode
    case single =>
      rw [SystemPrompter.scheduled_iff]
      simp [hst.mode, hm, or_iff_not_imp_left]
    case multiple =>
      have hnil : s'.waiting = [] := by
        rw [hst.waiting, (SystemPrompter.scheduled_iff.mp hs).2 hm, List.filter_nil]
      exact iff_of_true (scheduled_of_nil hnil) (.inl hnil)
  case closed callback h hst =>
    have hne : lookupActive s callback ≠ none := Option.isSome_iff_ne_none.mp h
    have hw := hst.waiting.trans (i.waiting_of_active hne)
    rw [Event.Schedules, ← hw]
    refine ⟨fun hs' => hs'.waiting_nil fun hm => ?_, scheduled_of_nil⟩
    rw [hst.active]
    exact i.active_of_active (hst.mode.symm.trans hm) hne
  case ready id response result created p hp hr ht =>
    refine iff_of_true (ht.scheduled hs) (.inr (.inr ?_))
    simpa [hp] using hr.symm
  case failed id response result created p t₀ t₁ hp hc hr ha ht hst hn =>
    have hne : lookupActive s p.callback ≠ none := fun hnone => lookupActive_eq_none.mp hnone _ ha rfl
    have hw := ht.waiting ▸ hst.waiting
    have hactive := ht.active ▸ hst.active
    rw [i.scheduled_stopped hs hne (hst.mode.trans ht.mode) hw hactive hn]
    simp [Event.Schedules, hr, hp, hc]
  case answered ht => exact iff_of_true (ht.scheduled hs) trivial
  case unregistered hw _ _ _ => exact iff_of_true (scheduled_of_nil hw) trivial
  case registered ht => exact iff_of_true (ht.scheduled hs) trivial

section InOrder

theorem SameTables.inOrder (h : SameTables s s') (o : InOrder s) : InOrder s' where
  started := h.started ▸ o.started
  waiting := h.waiting ▸ o.waiting
  later   := by rw [h.started, h.waiting]; exact o.later
  watches := by rw [h.started, h.watches]; exact o.watches

theorem Stopped.inOrder {k : Callback → Bool} (h : Stopped k s s') (o : InOrder s) : InOrder s' where
  started := h.started ▸ o.started
  waiting := h.waiting ▸ o.waiting.filter _
  later   := by
    rw [h.started, h.waiting]
    exact fun w hw r hr => o.later w hw r (List.mem_filter.mp hr).1
  watches := by rw [h.started, h.watches]; exact o.watches

theorem InOrder.begun (o : InOrder s) (i : Inv s) (c : Callback) : InOrder (begun s c) where
  started := o.started
  waiting := by
    refine List.pairwise_append.mpr ⟨o.waiting, List.pairwise_singleton _ _, fun r hr r' hr' => ?_⟩
    rw [List.mem_singleton.mp hr']
    exact i.watch_lt r (i.waiting r hr)
  later w hw r hr := by
    rcases List.mem_append.mp hr with hr | hr
    · exact o.later w hw r hr
    · rw [List.mem_singleton.mp hr]
      exact o.watches w hw
  watches w hw := Nat.lt_succ_of_lt (o.watches w hw)

-- The one that has waited longest is the next.
theorem Next.inOrder {created : Bool} (n : Next created s s') (i : Inv s) (o : InOrder s) : InOrder s' := by
  cases n
  case idle => exact o
  case failed r rest _ _ hw =>
    have hwaiting := o.waiting
    have hlater := o.later
    rw [hw] at hwaiting hlater
    exact ⟨o.started, hwaiting.of_cons, fun w hw' r' hr' => hlater w hw' r' (List.mem_cons_of_mem _ hr'), o.watches⟩
  case started r rest _ _ hw =>
    have hwaiting := o.waiting
    have hlater := o.later
    have hr := i.watch_lt r (i.waiting r (by simp [hw]))
    rw [hw] at hwaiting hlater
    obtain ⟨hfirst, hrest⟩ := List.pairwise_cons.mp hwaiting
    refine ⟨List.pairwise_cons.mpr ⟨fun w hw' => hlater w hw' r List.mem_cons_self, o.started⟩, hrest, ?_, ?_⟩
    · exact List.forall_mem_cons.mpr ⟨hfirst, fun w hw' r' hr' => hlater w hw' r' (List.mem_cons_of_mem _ hr')⟩
    · exact List.forall_mem_cons.mpr ⟨hr, o.watches⟩

theorem Effect.inOrder (f : Effect s e s') (i : Inv s) (o : InOrder s) : InOrder s' := by
  cases f
  case already                       => exact o
  case begun hb hn                   => exact hn.inOrder hb (o.begun i _)
  case performed ht _                => exact ht.inOrder o
  case stopped hst hn                => exact hn.inOrder hst.inv (hst.inOrder o)
  case vanished hst                  => exact hst.inOrder o
  case closed hst                    => exact hst.inOrder o
  case ready ht                      => exact ht.inOrder o
  case failed ht hst hn              => exact hn.inOrder hst.inv (hst.inOrder (ht.inOrder o))
  case answered ht                   => exact ht.inOrder o
  case unregistered hw _ hstarted hwatches =>
    exact ⟨hstarted ▸ o.started, by simp [hw], by simp [hw], by rw [hstarted, hwatches]; exact o.watches⟩
  case registered ht                 => exact ht.inOrder o

end InOrder

theorem InOrder.new (mode : Mode) : InOrder (State.new mode) := by
  constructor <;> simp [State.new]

theorem scheduled_new (mode : Mode) : Scheduled (State.new mode) :=
  scheduled_of_nil rfl

-- After every event of a run the queue is served if and only if no event of the run leaves it alone, and
-- in every run the callbacks get their prompts in the order in which they asked.
theorem Run.scheduled_iff_schedules (r : Run mode ts s) :
    ((∀ t ∈ ts, Scheduled t.2.2) ↔ ∀ t ∈ ts, t.2.1.Schedules t.1) ∧ InOrder s := by
  constructor
  · refine Transition.Run.forall_iff (p := Inv) (q := Scheduled) (c := fun s e => e.Schedules s) r ?_
      (fun _ _ _ i h => (i.step h).2) ?_ fun _ _ _ i hs h => (i.step h).1.scheduled_iff i hs
    · rintro s rfl
      exact .new mode
    · rintro s rfl
      exact scheduled_new mode
  · have h : Inv s ∧ InOrder s := by
      refine Transition.Run.invariant (p := fun s => Inv s ∧ InOrder s) r ?_ ?_
      · rintro s rfl
        exact ⟨.new mode, .new mode⟩
      · exact fun _ _ _ h hs => ⟨(h.1.step hs).2, (h.1.step hs).1.inOrder h.1 h.2⟩
    exact h.2

-- Two senders begin, and the first one stops.
theorem Run.scheduled_iff_schedules_two :
    ∃ ts s, Run .single ts s ∧ ts.length = 3 ∧ s.started = [2, 1] ∧ ∀ t ∈ ts, Scheduled t.2.2 := by
  have r : Run .single _ _ := ((Run.next (.start rfl) (.beginPrompting ⟨"/a", ":1"⟩ true) rfl).next
    (.beginPrompting ⟨"/b", ":2"⟩ true) rfl).next (.stopPrompting ⟨"/a", ":1"⟩ true) rfl
  refine ⟨_, _, r, rfl, rfl, r.scheduled_iff_schedules.1.mpr ?_⟩
  simp [Event.Schedules]

-- Two senders begin, and the user closes the prompt of the first one.
theorem Run.not_scheduled : ¬∀ mode ts s, Run mode ts s → Scheduled s ∧ InOrder s := by
  intro h
  have r : Run .single _ _ := ((Run.next (.start rfl) (.beginPrompting ⟨"/a", ":1"⟩ true) rfl).next
    (.beginPrompting ⟨"/b", ":2"⟩ true) rfl).next (.promptClose ⟨"/a", ":1"⟩) rfl
  exact (h _ _ _ r).1 (by decide) rfl

end SystemPrompter
