import GcrModel.Gcr.SystemPrompter.Theorems.Stop

namespace SystemPrompter

open Transition (Outcome)

variable {s s' : State} {c : Callback} {created : Bool}

-- One prompt at a time is shown, and it is.
def Busy (s : State) : Prop :=
  s.mode = .single ∧ s.active ≠ []

-- What `promptNextReady` does.
inductive Next (created : Bool) (s : State) : State → Prop
  | idle : Busy s ∨ s.waiting = [] → Next created s s
  | failed {r rest} : created = false → ¬Busy s → s.waiting = r :: rest →
    Next created s { s with waiting := rest }
  | started {r rest} : created = true → ¬Busy s → s.waiting = r :: rest →
    Next created s { s with
      waiting := rest
      active  := (r.callback, s.prompts.length) :: s.active
      prompts := s.prompts ++ [⟨r.callback, false, false, false⟩]
      pending := (s.prompts.length, .promptReady "") :: s.pending
      started := r.watch :: s.started }

theorem promptNextReady_next (i : Inv s) (created : Bool) :
    ∃ s', promptNextReady s created = some s' ∧ Next created s s' := by
  have hbusy : (s.mode = .single ∧ 0 < s.active.length) ↔ Busy s := by
    rw [Busy, List.length_pos_iff]
  simp only [promptNextReady]
  split <;> rename_i hb <;> rw [hbusy] at hb
  · exact ⟨s, rfl, .idle (.inl hb)⟩
  · split
    · rename_i hw
      exact ⟨s, rfl, .idle (.inr hw)⟩
    · rename_i r rest hw
      have hr : r ∈ s.waiting := by simp [hw]
      have hnone : lookupActive s r.callback = none := lookupActive_eq_none.mpr (i.disjoint r hr)
      have hreg : s.registered = true := by
        by_contra hu
        have hnil := i.unregistered (by simpa using hu)
        simpa [hnil] using i.waiting r hr
      rw [hnone]
      cases created
      case false => exact ⟨_, rfl, .failed rfl hb hw⟩
      case true =>
        refine ⟨_, ?_, .started rfl hb hw⟩
        simp [promptSendReady, hreg]

theorem Inv.ne_length (i : Inv s) {o : Nat × Operation} (h : o ∈ s.pending) : s.prompts.length ≠ o.1 := by
  obtain ⟨p, hp, _⟩ := i.pending o h
  have hlt := (List.getElem?_eq_some_iff.mp hp).1
  omega

theorem getElem?_append_new {p q : ActivePrompt} {id : Nat} (h : s.prompts[id]? = some p) :
    (s.prompts ++ [q])[id]? = some p := by
  rw [List.getElem?_append_left (List.getElem?_eq_some_iff.mp h).1, h]

theorem Next.inv (n : Next created s s') (i : Inv s) : Inv s' := by
  cases n
  case idle => exact i
  case failed r rest _ _ hw =>
    have hsub : ∀ r' ∈ rest, r' ∈ s.waiting := fun r' hr' => by simp [hw, hr']
    exact { i with
      waiting  := fun r' hr' => i.waiting r' (hsub r' hr')
      queue    := (hw ▸ i.queue).of_cons
      disjoint := fun r' hr' => i.disjoint r' (hsub r' hr') }
  case started r rest _ hb hw =>
    have hr : r ∈ s.waiting := by simp [hw]
    have hsub : ∀ r' ∈ rest, r' ∈ s.waiting := fun r' hr' => by simp [hw, hr']
    refine { i with
      waiting    := fun r' hr' => i.waiting r' (hsub r' hr')
      queue      := (hw ▸ i.queue).of_cons
      keys       := ?_
      active     := ?_
      disjoint   := ?_
      prompt     := ?_
      pending    := ?_
      unanswered := ?_
      single     := ?_ }
    · refine List.nodup_cons.mpr ⟨fun hmem => ?_, i.keys⟩
      obtain ⟨a, ha, heq⟩ := List.mem_map.mp hmem
      exact i.disjoint r hr a ha heq
    · exact List.forall_mem_cons.mpr ⟨⟨r, i.waiting r hr, rfl⟩, i.active⟩
    · intro r' hr'
      refine List.forall_mem_cons.mpr ⟨fun heq => ?_, i.disjoint r' (hsub r' hr')⟩
      have hsame := i.registration_eq (i.waiting r hr) (i.waiting r' (hsub r' hr')) heq
      have hq := hw ▸ i.queue
      exact (List.nodup_cons.mp hq).1 (hsame ▸ hr')
    · refine List.forall_mem_cons.mpr ⟨⟨_, List.getElem?_concat_length, rfl, rfl⟩, fun a ha => ?_⟩
      obtain ⟨p, hp, hc⟩ := i.prompt a ha
      exact ⟨p, getElem?_append_new hp, hc⟩
    · refine List.forall_mem_cons.mpr ⟨⟨_, List.getElem?_concat_length, rfl, fun _ => List.mem_cons_self⟩, fun o ho => ?_⟩
      obtain ⟨p, hp, hready, hc⟩ := i.pending o ho
      exact ⟨p, getElem?_append_new hp, hready, fun hn => List.mem_cons_of_mem _ (hc hn)⟩
    · refine List.nodup_cons.mpr ⟨fun hmem => ?_, i.unanswered⟩
      obtain ⟨o, ho, heq⟩ := List.mem_map.mp hmem
      exact i.ne_length ho heq.symm
    · intro hm
      have hnil : s.active = [] := by
        by_contra hne
        exact hb ⟨hm, hne⟩
      simp [hnil]

-- The state after a callback was registered and queued.
def begun (s : State) (c : Callback) : State :=
  { s with
    callbacks := ⟨c, s.watches⟩ :: s.callbacks
    waiting   := s.waiting ++ [⟨c, s.watches⟩]
    watches   := s.watches + 1 }

theorem Inv.begun (i : Inv s) (hreg : s.registered = true) (h : lookupCallback s c = none) : Inv (begun s c) := by
  have hnone := lookupCallback_eq_none.mp h
  refine { i with
    callbacks    := ?_
    watches      := ?_
    watch_lt     := ?_
    waiting      := ?_
    queue        := ?_
    active       := ?_
    disjoint     := ?_
    done_lt      := ?_
    done         := ?_
    unregistered := ?_ }
  · refine List.nodup_cons.mpr ⟨fun hmem => ?_, i.callbacks⟩
    obtain ⟨r, hr, heq⟩ := List.mem_map.mp hmem
    exact hnone r hr heq
  · refine List.nodup_cons.mpr ⟨fun hmem => ?_, i.watches⟩
    obtain ⟨r, hr, heq⟩ := List.mem_map.mp hmem
    exact Nat.ne_of_lt (i.watch_lt r hr) heq
  · exact List.forall_mem_cons.mpr ⟨Nat.lt_succ_self _, fun r hr => Nat.lt_succ_of_lt (i.watch_lt r hr)⟩
  · intro r hr
    rcases List.mem_append.mp hr with hr | hr
    · exact List.mem_cons_of_mem _ (i.waiting r hr)
    · rw [List.mem_singleton.mp hr]
      exact List.mem_cons_self
  · refine i.queue.append (List.nodup_singleton _) ?_
    intro r hr hr'
    rw [List.mem_singleton.mp hr'] at hr
    exact hnone _ (i.waiting _ hr) rfl
  · intro a ha
    obtain ⟨r, hr, heq⟩ := i.active a ha
    exact ⟨r, List.mem_cons_of_mem _ hr, heq⟩
  · intro r hr a ha
    rcases List.mem_append.mp hr with hr | hr
    · exact i.disjoint r hr a ha
    · obtain ⟨r', hr', heq⟩ := i.active a ha
      rw [List.mem_singleton.mp hr, ← heq]
      exact hnone r' hr'
  · exact fun w hw => Nat.lt_succ_of_lt (i.done_lt w hw)
  · refine List.forall_mem_cons.mpr ⟨fun hw => ?_, i.done⟩
    exact Nat.lt_irrefl _ (i.done_lt _ hw)
  · intro hu
    exact absurd hreg (by simp [show s.registered = false from hu])

-- A ready prompt has nothing outstanding.
theorem Inv.not_pending (i : Inv s) {id : Nat} {p : ActivePrompt} (hp : s.prompts[id]? = some p)
    (hr : p.ready = true) : ∀ o ∈ s.pending, o.1 ≠ id := by
  rintro o ho rfl
  obtain ⟨q, hq, hready, _⟩ := i.pending o ho
  rw [hp, Option.some.injEq] at hq
  rw [← hq, hr] at hready
  cases hready

-- A prompt that only changes its flags, where every prompt with something outstanding is still not ready.
theorem Inv.set (i : Inv s) {id : Nat} {p : ActivePrompt} (hp : s.prompts[id]? = some p) (ready received : Bool)
    {pending : List (Nat × Operation)} (hsub : ∀ o ∈ pending, o.1 = id ∨ o ∈ s.pending)
    (hready : ∀ o ∈ pending, o.1 = id → ready = false)
    (hlive : ∀ o ∈ pending, o.1 = id → p.cancelled = false → (p.callback, id) ∈ s.active)
    (hnodup : (pending.map (·.1)).Nodup) :
    Inv { s with prompts := s.prompts.set id { p with ready := ready, received := received }, pending := pending } := by
  obtain ⟨hlt, -⟩ := List.getElem?_eq_some_iff.mp hp
  have hget : ∀ id', (s.prompts.set id { p with ready := ready, received := received })[id']? =
      if id = id' then some { p with ready := ready, received := received } else s.prompts[id']? := by
    intro id'
    rw [List.getElem?_set]
    simp [hlt]
  refine { i with prompt := fun a ha => ?_, pending := fun o ho => ?_, unanswered := hnodup }
  · obtain ⟨q, hq, hc⟩ := i.prompt a ha
    dsimp only
    rw [hget]
    split
    · rename_i hid
      rw [← hid, hp, Option.some.injEq] at hq
      exact ⟨_, rfl, hq ▸ hc⟩
    · exact ⟨q, hq, hc⟩
  · dsimp only
    rw [hget]
    split
    · rename_i hid
      exact ⟨_, rfl, hready o ho hid.symm, fun hn => hid ▸ hlive o ho hid.symm hn⟩
    · rename_i hid
      exact i.pending o ((hsub o ho).resolve_left fun heq => hid heq.symm)

theorem Inv.perform (i : Inv s) (c : Callback) (type : String) (valid : Bool) :
    Inv (prompterMethodPerformPrompt s c type valid) := by
  simp only [prompterMethodPerformPrompt]
  split
  · exact i
  · rename_i id ha
    have hmem := mem_of_lookupActive ha
    split
    · exact i
    · rename_i p hp
      obtain ⟨q, hq, hc, hn⟩ := i.prompt _ hmem
      rw [hp, Option.some.injEq] at hq
      split
      · rename_i hv
        rw [Bool.and_eq_true] at hv
        have hnone := i.not_pending hp hv.1
        have hpush : ∀ op : Operation, Inv { s with
            prompts := s.prompts.set id { p with ready := false, received := true }
            pending := (id, op) :: s.pending } := by
          intro op
          refine i.set hp false true ?_ (fun _ _ _ => rfl) (fun _ _ _ _ => ?_) ?_
          · exact List.forall_mem_cons.mpr ⟨.inl rfl, fun o ho => .inr ho⟩
          · rw [hq, hc]
            exact hmem
          · refine List.nodup_cons.mpr ⟨fun h => ?_, i.unanswered⟩
            obtain ⟨o, ho, heq⟩ := List.mem_map.mp h
            exact hnone o ho heq
        split
        · exact hpush .confirm
        · split
          · exact hpush .password
          · exact i.set hp p.ready true (fun o ho => .inr ho) (fun o ho heq => absurd heq (hnone o ho))
              (fun o ho heq => absurd heq (hnone o ho)) i.unanswered
      · exact i

-- Something outstanding for a prompt has come back.
theorem Inv.answered (i : Inv s) {o : Nat × Operation} (h : o ∈ s.pending) :
    (∀ o' ∈ s.pending.erase o, o'.1 ≠ o.1) ∧ ((s.pending.erase o).map (·.1)).Nodup := by
  have hnodup : s.pending.Nodup := i.unanswered.of_map
  refine ⟨fun o' ho' heq => ?_, (List.erase_sublist.map _).nodup i.unanswered⟩
  obtain ⟨hne, hmem⟩ := hnodup.mem_erase_iff.mp ho'
  exact hne (List.inj_on_of_nodup_map i.unanswered hmem h heq)

theorem Inv.erase (i : Inv s) (o : Nat × Operation) : Inv { s with pending := s.pending.erase o } :=
  { i with
    pending    := fun o' ho' => i.pending o' (List.mem_of_mem_erase ho')
    unanswered := (List.erase_sublist.map _).nodup i.unanswered }

-- What becomes of a PromptReady call that has come back: the prompt is ready, or it is stopped.
inductive Completed (result : Result) (created : Bool) (s : State) (id : Nat) : State → Prop
  | ready {p} : s.prompts[id]? = some p → p.cancelled = true ∨ result = .success →
    Completed result created s id { s with prompts := s.prompts.set id { p with ready := true } }
  | failed {p s₁ s₂} : s.prompts[id]? = some p → p.cancelled = false → result ≠ .success → (p.callback, id) ∈ s.active →
    Stopped (· ≠ p.callback) { s with prompts := s.prompts.set id { p with ready := true } } s₁ →
    Next created s₁ s₂ → Completed result created s id s₂

theorem onPromptReadyComplete_eq {id : Nat} {p : ActivePrompt} (hp : s.prompts[id]? = some p) (hr : p.ready = false)
    (result : Result) (created : Bool) :
    onPromptReadyComplete s id result created =
      if p.cancelled = true ∨ result = .success then some { s with prompts := s.prompts.set id { p with ready := true } }
      else promptNextReady (promptStopPrompting { s with
        prompts := s.prompts.set id { p with ready := true } } p.callback false) created := by
  obtain ⟨callback, cancelled, ready, received⟩ := p
  simp only [onPromptReadyComplete, hp]
  cases hr
  cases cancelled <;> cases result <;> simp

theorem onPromptReadyComplete_completed (i : Inv s) {id : Nat} {op : Operation} (h : (id, op) ∈ s.pending)
    (result : Result) (created : Bool) :
    ∃ s', onPromptReadyComplete { s with pending := s.pending.erase (id, op) } id result created = some s' ∧
      Completed result created { s with pending := s.pending.erase (id, op) } id s' ∧ Inv s' := by
  obtain ⟨p, hp, hready, hlive⟩ := i.pending _ h
  obtain ⟨hgone, hnodup⟩ := i.answered h
  have i' : Inv { s with
      prompts := s.prompts.set id { p with ready := true, received := p.received }
      pending := s.pending.erase (id, op) } :=
    i.set hp true p.received (fun o ho => .inr (List.mem_of_mem_erase ho)) (fun o ho heq => absurd heq (hgone o ho))
      (fun o ho heq => absurd heq (hgone o ho)) hnodup
  have hp' : { s with pending := s.pending.erase (id, op) }.prompts[id]? = some p := hp
  rw [onPromptReadyComplete_eq hp' hready]
  split <;> rename_i hc
  · exact ⟨_, rfl, .ready hp' hc, i'⟩
  · rw [not_or, Bool.not_eq_true] at hc
    have hs := promptStopPrompting_stopped i' p.callback false
    obtain ⟨s', hs', hn⟩ := promptNextReady_next hs.inv created
    exact ⟨s', hs', .failed hp' hc.1 hc.2 (hlive hc.1) hs hn, hn.inv hs.inv⟩

-- The tables and the queue are as they were.
structure SameTables (s s' : State) : Prop where
  mode      : s'.mode = s.mode
  callbacks : s'.callbacks = s.callbacks
  waiting   : s'.waiting = s.waiting
  active    : s'.active = s.active
  watches   : s'.watches = s.watches
  done      : s'.done = s.done
  started   : s'.started = s.started

theorem SameTables.refl (s : State) : SameTables s s :=
  ⟨rfl, rfl, rfl, rfl, rfl, rfl, rfl⟩

theorem onPromptAnswer_sent (i : Inv s) {id : Nat} {op : Operation} (h : (id, op) ∈ s.pending) (answer : Answer) :
    ∃ s', onPromptAnswer { s with pending := s.pending.erase (id, op) } id answer = some s' ∧ SameTables s s' ∧
      Inv s' := by
  obtain ⟨p, hp, hready, hlive⟩ := i.pending _ h
  obtain ⟨hgone, hnodup⟩ := i.answered h
  simp only [onPromptAnswer, promptSendReady, hp, hready, Bool.false_eq_true, if_false]
  split
  · refine ⟨_, rfl, ⟨rfl, rfl, rfl, rfl, rfl, rfl, rfl⟩, ?_⟩
    refine { i.erase (id, op) with pending := ?_, unanswered := ?_ }
    · refine List.forall_mem_cons.mpr ⟨⟨p, hp, hready, hlive⟩, fun o ho => i.pending o (List.mem_of_mem_erase ho)⟩
    · refine List.nodup_cons.mpr ⟨fun hmem => ?_, hnodup⟩
      obtain ⟨o, ho, heq⟩ := List.mem_map.mp hmem
      exact hgone o ho heq
  · exact ⟨_, rfl, ⟨rfl, rfl, rfl, rfl, rfl, rfl, rfl⟩, i.erase (id, op)⟩

-- Some callbacks are stopped one after the other.
theorem foldl_stopped (i : Inv s) (d : Bool) (rs : List Registration) :
    Stopped (fun c => !(rs.map (·.callback)).contains c) s
      (rs.foldl (fun s r => promptStopPrompting s r.callback d) s) := by
  induction rs generalizing s
  case nil => exact .refl i
  case cons r rs ih =>
    have h := promptStopPrompting_stopped i r.callback d
    refine (h.trans (ih h.inv)).congr i fun r' _ => ?_
    rw [List.map_cons, List.contains_cons, Bool.not_or]
    simp [beq_eq_decide]

theorem onCallerVanished_stopped (i : Inv s) (name : String) :
    Stopped (·.name ≠ name) s (onCallerVanished s name) := by
  refine (foldl_stopped i false (s.callbacks.filter (·.callback.name = name))).congr i fun r hr => ?_
  by_cases hn : r.callback.name = name
  · have hmem : r.callback ∈ (s.callbacks.filter (·.callback.name = name)).map (·.callback) :=
      List.mem_map_of_mem (List.mem_filter.mpr ⟨hr, by simpa using hn⟩)
    simp only [List.contains_eq_mem, hmem, decide_true, Bool.not_true, hn, ne_eq, not_true_eq_false, decide_false]
  · have hmem : r.callback ∉ (s.callbacks.filter (·.callback.name = name)).map (·.callback) := by
      intro h
      obtain ⟨r', hr', heq⟩ := List.mem_map.mp h
      exact hn (heq ▸ by simpa using (List.mem_filter.mp hr').2)
    simp only [List.contains_eq_mem, hmem, decide_false, Bool.not_false, hn, ne_eq, not_false_eq_true, decide_true]

theorem gcrSystemPrompterUnregister_stopped (i : Inv s) :
    ∃ s₁, gcrSystemPrompterUnregister s = some { s₁ with registered := false } ∧ Stopped (fun _ => false) s s₁ ∧
      s₁.callbacks = [] ∧ s₁.waiting = [] ∧ s₁.active = [] := by
  have h : Stopped (fun _ => false) s (s.callbacks.foldl (fun s r => promptStopPrompting s r.callback true) s) := by
    refine (foldl_stopped i true s.callbacks).congr i fun r hr => ?_
    have hmem : r.callback ∈ s.callbacks.map (·.callback) := List.mem_map_of_mem hr
    simp [hmem]
  have hc := h.callbacks
  have hw := h.waiting
  have ha := h.active
  simp only [List.filter_false] at hc hw ha
  refine ⟨_, ?_, h, hc, hw, ha⟩
  simp [gcrSystemPrompterUnregister, hc, hw, ha]

end SystemPrompter
