import GcrModel.Gcr.SystemPrompter.Prompter
import Mathlib.Data.List.Nodup

namespace SystemPrompter

variable {s s' s'' : State} {c : Callback} {d : Bool}

-- The invariant of the prompter. In the list of the prompts are also those that were stopped, which are
-- cancelled as long as something is outstanding for them.
structure Inv (s : State) : Prop where
  callbacks    : (s.callbacks.map (·.callback)).Nodup
  watches      : (s.callbacks.map (·.watch)).Nodup
  watch_lt     : ∀ r ∈ s.callbacks, r.watch < s.watches
  waiting      : ∀ r ∈ s.waiting, r ∈ s.callbacks
  queue        : s.waiting.Nodup
  keys         : (s.active.map (·.1)).Nodup
  active       : ∀ a ∈ s.active, ∃ r ∈ s.callbacks, r.callback = a.1
  disjoint     : ∀ r ∈ s.waiting, ∀ a ∈ s.active, a.1 ≠ r.callback
  prompt       : ∀ a ∈ s.active, ∃ p, s.prompts[a.2]? = some p ∧ p.callback = a.1 ∧ p.cancelled = false
  pending      : ∀ o ∈ s.pending, ∃ p, s.prompts[o.1]? = some p ∧ p.ready = false ∧
    (p.cancelled = false → (p.callback, o.1) ∈ s.active)
  unanswered   : (s.pending.map (·.1)).Nodup
  single       : s.mode = .single → s.active.length ≤ 1
  done_nodup   : s.done.Nodup
  done_lt      : ∀ w ∈ s.done, w < s.watches
  done         : ∀ r ∈ s.callbacks, r.watch ∉ s.done
  unregistered : s.registered = false → s.callbacks = []

theorem lookupActive_eq_none : lookupActive s c = none ↔ ∀ a ∈ s.active, a.1 ≠ c := by
  rw [lookupActive, List.lookup_eq_none_iff]
  refine forall₂_congr fun a _ => ?_
  rw [bne_iff_ne, ne_comm]

theorem mem_of_lookupActive {id : Nat} (h : lookupActive s c = some id) : (c, id) ∈ s.active := by
  obtain ⟨l₁, l₂, hl, _⟩ := List.lookup_eq_some_iff.mp h
  simp [hl]

theorem lookupCallback_eq_none : lookupCallback s c = none ↔ ∀ r ∈ s.callbacks, r.callback ≠ c := by
  simp [lookupCallback]

theorem lookupCallback_eq_some {r : Registration} (h : lookupCallback s c = some r) :
    r ∈ s.callbacks ∧ r.callback = c :=
  ⟨List.mem_of_find?_eq_some h, by simpa using List.find?_some h⟩

theorem cancelUnlessReady_ready (p : ActivePrompt) : (cancelUnlessReady p).ready = p.ready := by
  unfold cancelUnlessReady
  split <;> rfl

theorem cancelUnlessReady_cancelled {p : ActivePrompt} (h : p.ready = false) :
    (cancelUnlessReady p).cancelled = true := by
  simp [cancelUnlessReady, h]

namespace Inv

-- A callback has one registration, and a prompt one callback.
theorem registration_eq (i : Inv s) {r r' : Registration} (h : r ∈ s.callbacks) (h' : r' ∈ s.callbacks)
    (hc : r.callback = r'.callback) : r = r' :=
  List.inj_on_of_nodup_map i.callbacks h h' hc

theorem watch_eq (i : Inv s) {r r' : Registration} (h : r ∈ s.callbacks) (h' : r' ∈ s.callbacks)
    (hw : r.watch = r'.watch) : r = r' :=
  List.inj_on_of_nodup_map i.watches h h' hw

theorem active_eq (i : Inv s) {a a' : Callback × Nat} (h : a ∈ s.active) (h' : a' ∈ s.active) (hid : a.2 = a'.2) :
    a = a' := by
  obtain ⟨p, hp, hc, _⟩ := i.prompt a h
  obtain ⟨p', hp', hc', _⟩ := i.prompt a' h'
  rw [hid, hp', Option.some.injEq] at hp
  exact Prod.ext (by rw [← hc, ← hc', hp]) hid

-- What a callback had is gone when it is not registered.
theorem waiting_filter (i : Inv s) (h : ∀ r ∈ s.callbacks, r.callback ≠ c) :
    s.waiting.filter (·.callback ≠ c) = s.waiting :=
  List.filter_eq_self.mpr fun r hr => decide_eq_true (h r (i.waiting r hr))

theorem active_filter (i : Inv s) (h : ∀ r ∈ s.callbacks, r.callback ≠ c) :
    s.active.filter (·.1 ≠ c) = s.active := by
  refine List.filter_eq_self.mpr fun a ha => decide_eq_true ?_
  obtain ⟨r, hr, heq⟩ := i.active a ha
  exact heq ▸ h r hr

theorem waiting_erase (i : Inv s) {r : Registration} (hr : r ∈ s.callbacks) :
    s.waiting.erase r = s.waiting.filter (·.callback ≠ r.callback) := by
  rw [i.queue.erase_eq_filter]
  refine List.filter_congr fun r' hr' => ?_
  by_cases heq : r' = r
  · simp [heq]
  · have hne : r'.callback ≠ r.callback := fun hc => heq (i.registration_eq (i.waiting r' hr') hr hc)
    simp [heq, hne]

end Inv

-- What has become of the prompter when the callbacks that are not in `k` were stopped.
structure Stopped (k : Callback → Bool) (s s' : State) : Prop where
  inv        : Inv s'
  mode       : s'.mode = s.mode
  registered : s'.registered = s.registered
  callbacks  : s'.callbacks = s.callbacks.filter (k ·.callback)
  waiting    : s'.waiting = s.waiting.filter (k ·.callback)
  active     : s'.active = s.active.filter (k ·.1)
  prompts    : ∀ a ∈ s'.active, s'.prompts[a.2]? = s.prompts[a.2]?
  pending    : s'.pending = s.pending
  done       : ∀ r ∈ s'.callbacks, (r.watch ∈ s'.done ↔ r.watch ∈ s.done)
  started    : s'.started = s.started
  watches    : s'.watches = s.watches

theorem Stopped.refl (i : Inv s) : Stopped (fun _ => true) s s := by
  refine ⟨i, rfl, rfl, ?_, ?_, ?_, fun _ _ => rfl, rfl, fun _ _ => Iff.rfl, rfl, rfl⟩ <;> simp

theorem Stopped.trans {k k' : Callback → Bool} (h : Stopped k s s') (h' : Stopped k' s' s'') :
    Stopped (fun c => k c && k' c) s s'' where
  inv        := h'.inv
  mode       := h'.mode.trans h.mode
  registered := h'.registered.trans h.registered
  callbacks  := by rw [h'.callbacks, h.callbacks, List.filter_filter]; simp only [Bool.and_comm]
  waiting    := by rw [h'.waiting, h.waiting, List.filter_filter]; simp only [Bool.and_comm]
  active     := by rw [h'.active, h.active, List.filter_filter]; simp only [Bool.and_comm]
  prompts a ha := by
    rw [h'.prompts a ha]
    rw [h'.active] at ha
    exact h.prompts a (List.mem_filter.mp ha).1
  pending    := h'.pending.trans h.pending
  done r hr  := by
    rw [h'.done r hr]
    rw [h'.callbacks] at hr
    exact h.done r (List.mem_filter.mp hr).1
  started    := h'.started.trans h.started
  watches    := h'.watches.trans h.watches

-- Only the registered callbacks matter.
theorem Stopped.congr {k k' : Callback → Bool} (h : Stopped k s s') (i : Inv s)
    (hk : ∀ r ∈ s.callbacks, k r.callback = k' r.callback) : Stopped k' s s' := by
  refine { h with callbacks := ?_, waiting := ?_, active := ?_ }
  · rw [h.callbacks]
    exact List.filter_congr hk
  · rw [h.waiting]
    exact List.filter_congr fun r hr => hk r (i.waiting r hr)
  · rw [h.active]
    refine List.filter_congr fun a ha => ?_
    obtain ⟨r, hr, heq⟩ := i.active a ha
    exact heq ▸ hk r hr

-- The state that is left of what `promptStopPrompting` changes.
theorem Inv.removed (i : Inv s) (c : Callback) (prompts : List ActivePrompt) {done : List Nat}
    (hprompts : ∀ a ∈ s.active, a.1 ≠ c → prompts[a.2]? = s.prompts[a.2]?)
    (hpending : ∀ o ∈ s.pending, ∃ p, prompts[o.1]? = some p ∧ p.ready = false ∧
      (p.cancelled = false → (p.callback, o.1) ∈ s.active ∧ p.callback ≠ c))
    (hdone : done = s.done ∨ ∃ r ∈ s.callbacks, r.callback = c ∧ done = r.watch :: s.done) :
    Stopped (· ≠ c) s { s with
      callbacks := s.callbacks.filter (·.callback ≠ c)
      waiting   := s.waiting.filter (·.callback ≠ c)
      active    := s.active.filter (·.1 ≠ c)
      prompts   := prompts
      done      := done } := by
  have hcallbacks : ∀ r ∈ s.callbacks.filter (·.callback ≠ c), r ∈ s.callbacks ∧ r.callback ≠ c := by
    intro r hr
    simpa using hr
  have hdone' : ∀ r ∈ s.callbacks.filter (·.callback ≠ c), (r.watch ∈ done ↔ r.watch ∈ s.done) := by
    intro r hr
    obtain ⟨hmem, hne⟩ := hcallbacks r hr
    rcases hdone with rfl | ⟨r', hr', hc, rfl⟩
    · rfl
    · have hw : r.watch ≠ r'.watch := fun hw => hne (by rw [i.watch_eq hmem hr' hw, hc])
      simp [hw]
  refine ⟨⟨?_, ?_, ?_, ?_, ?_, ?_, ?_, ?_, ?_, ?_, i.unanswered, ?_, ?_, ?_, ?_, ?_⟩,
    rfl, rfl, ?_, ?_, ?_, ?_, rfl, hdone', rfl, rfl⟩
  · exact (List.filter_sublist.map _).nodup i.callbacks
  · exact (List.filter_sublist.map _).nodup i.watches
  · exact fun r hr => i.watch_lt r (hcallbacks r hr).1
  · intro r hr
    simp only [List.mem_filter] at hr ⊢
    exact ⟨i.waiting r hr.1, hr.2⟩
  · exact List.filter_sublist.nodup i.queue
  · exact (List.filter_sublist.map _).nodup i.keys
  · intro a ha
    simp only [List.mem_filter, decide_eq_true_eq] at ha ⊢
    obtain ⟨r, hr, heq⟩ := i.active a ha.1
    exact ⟨r, ⟨hr, by simpa [heq] using ha.2⟩, heq⟩
  · exact fun r hr a ha => i.disjoint r (List.mem_filter.mp hr).1 a (List.mem_filter.mp ha).1
  · intro a ha
    simp only [List.mem_filter, decide_eq_true_eq] at ha
    dsimp only
    rw [hprompts a ha.1 ha.2]
    exact i.prompt a ha.1
  · intro o ho
    obtain ⟨p, hp, hr, hc⟩ := hpending o ho
    exact ⟨p, hp, hr, fun hn => List.mem_filter.mpr ⟨(hc hn).1, by simpa using (hc hn).2⟩⟩
  · exact fun hm => Nat.le_trans (List.length_filter_le _ _) (i.single hm)
  · rcases hdone with rfl | ⟨r, hr, _, rfl⟩
    · exact i.done_nodup
    · exact List.nodup_cons.mpr ⟨i.done r hr, i.done_nodup⟩
  · rcases hdone with rfl | ⟨r, hr, _, rfl⟩
    · exact i.done_lt
    · exact List.forall_mem_cons.mpr ⟨i.watch_lt r hr, i.done_lt⟩
  · intro r hr hw
    exact i.done r (hcallbacks r hr).1 ((hdone' r hr).mp hw)
  · intro hu
    simp [i.unregistered hu]
  · rfl
  · rfl
  · rfl
  · intro a ha
    simp only [List.mem_filter, decide_eq_true_eq] at ha
    exact hprompts a ha.1 ha.2

theorem promptStopPrompting_of_waiting {r : Registration} (h : lookupCallback s c = some r)
    (ha : lookupActive s c = none) :
    promptStopPrompting s c d = { s with
      callbacks := s.callbacks.filter (·.callback ≠ c)
      waiting   := s.waiting.erase r
      done      := if d then r.watch :: s.done else s.done } := by
  rw [lookupActive] at ha
  cases d <;> simp [promptStopPrompting, h, lookupActive, ha]

theorem promptStopPrompting_of_active {r : Registration} {id : Nat} (h : lookupCallback s c = some r)
    (ha : lookupActive s c = some id) :
    promptStopPrompting s c d = { s with
      callbacks := s.callbacks.filter (·.callback ≠ c)
      waiting   := s.waiting.erase r
      active    := s.active.filter (·.1 ≠ c)
      prompts   := s.prompts.modify id cancelUnlessReady
      done      := if d then r.watch :: s.done else s.done } := by
  rw [lookupActive] at ha
  cases d <;> simp [promptStopPrompting, h, lookupActive, ha]

theorem promptStopPrompting_stopped (i : Inv s) (c : Callback) (d : Bool) :
    Stopped (· ≠ c) s (promptStopPrompting s c d) := by
  cases hl : lookupCallback s c
  case none =>
    rw [lookupCallback_eq_none] at hl
    have h := i.removed c s.prompts (fun _ _ _ => rfl) ?_ (.inl rfl)
    · rw [List.filter_eq_self.mpr fun r hr => decide_eq_true (hl r hr), i.waiting_filter hl, i.active_filter hl] at h
      simp only [promptStopPrompting, (lookupCallback_eq_none).mpr hl]
      exact h
    · intro o ho
      obtain ⟨p, hp, hr, hc⟩ := i.pending o ho
      refine ⟨p, hp, hr, fun hn => ⟨hc hn, ?_⟩⟩
      obtain ⟨r, hmem, heq⟩ := i.active _ (hc hn)
      exact fun hc => hl r hmem (heq.trans hc)
  case some r =>
    obtain ⟨hr, rfl⟩ := lookupCallback_eq_some hl
    have hdone : ∀ d : Bool, (if d then r.watch :: s.done else s.done) = s.done ∨
        ∃ r' ∈ s.callbacks, r'.callback = r.callback ∧ (if d then r.watch :: s.done else s.done) = r'.watch :: s.done := by
      intro d
      cases d
      case false => exact .inl rfl
      case true  => exact .inr ⟨r, hr, rfl, rfl⟩
    cases ha : lookupActive s r.callback
    case none =>
      have hnone := (lookupActive_eq_none).mp ha
      have h := i.removed r.callback s.prompts (fun _ _ _ => rfl) ?_ (hdone d)
      · rw [List.filter_eq_self.mpr fun a ha => decide_eq_true (hnone a ha), ← i.waiting_erase hr] at h
        rw [promptStopPrompting_of_waiting hl ha]
        exact h
      · intro o ho
        obtain ⟨p, hp, hready, hc⟩ := i.pending o ho
        exact ⟨p, hp, hready, fun hn => ⟨hc hn, hnone _ (hc hn)⟩⟩
    case some id =>
      have hmem := mem_of_lookupActive ha
      have h := i.removed r.callback (s.prompts.modify id cancelUnlessReady) ?_ ?_ (hdone d)
      · rw [← i.waiting_erase hr] at h
        rw [promptStopPrompting_of_active hl ha]
        exact h
      · intro a ha' hne
        have hid : id ≠ a.2 := fun hid => hne (by rw [← i.active_eq hmem ha' hid])
        rw [List.getElem?_modify_ne _ _ hid]
      · intro o ho
        obtain ⟨p, hp, hready, hc⟩ := i.pending o ho
        by_cases hid : id = o.1
        · refine ⟨cancelUnlessReady p, ?_, by rw [cancelUnlessReady_ready, hready], ?_⟩
          · rw [hid, List.getElem?_modify_eq, hp]
            rfl
          · rw [cancelUnlessReady_cancelled hready]
            exact fun hn => absurd hn (by simp)
        · refine ⟨p, by rw [List.getElem?_modify_ne _ _ hid, hp], hready, fun hn => ⟨hc hn, ?_⟩⟩
          intro heq
          have hmem' : (r.callback, o.1) ∈ s.active := heq ▸ hc hn
          exact hid (congrArg Prod.snd (List.inj_on_of_nodup_map i.keys hmem hmem' rfl))

end SystemPrompter
