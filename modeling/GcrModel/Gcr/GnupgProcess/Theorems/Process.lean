import GcrModel.Gcr.GnupgProcess.Theorems.Channel

namespace GnupgProcess

open Transition (Outcome)

variable {s : Source} {poll : Poll} {hasInput : Bool} {launch : Launch} {reaction : List Call}

def Launch.Regular (launch : Launch) : Prop :=
  ¬((launch.withStatus ∨ launch.withAttributes) ∧ launch.pipeFails)

def Call.Regular : Call → Prop
  | runAsync launch => launch.Regular
  | runFinish       => True

def ProcessEvent.Regular : ProcessEvent → Prop
  | call c                     => c.Regular
  | dispatch _ poll reaction   => poll.Regular ∧ ∀ c ∈ reaction, c.Regular
  | childExited _ reaction     => ∀ c ∈ reaction, c.Regular
  | cancelled                  => True
  | idle reaction              => ∀ c ∈ reaction, c.Regular

namespace Process

variable {p p' p'' : Process}

inductive Stage (p : Process) : Prop
  | idle (running : p.running = false) (complete : p.complete = false) (sig : p.sourceSig = false)
    (source : p.source = none) (later : p.later = false) (error : p.error = none)
  | live (s : Source) (running : p.running = true) (complete : p.complete = false) (sig : p.sourceSig = !s.closed)
    (source : p.source = some s) (later : p.later = false) (error : p.error = p.recorded.head?)
    (callback : p.asyncCallback = true) (child : s.childSig = s.childPid) (open' : s.closed → s.childPid = true)
  | done (running : p.running = false) (complete : p.complete = true) (sig : p.sourceSig = false)
    (source : p.source = none) (later : p.later = p.asyncCallback) (error : p.error = p.recorded.head?)

structure Sound (p : Process) : Prop where
  stage   : Stage p
  early   : p.early = false
  results : ∀ r ∈ p.results, r.1 = r.2

-- Under the condition on the steps.
structure Counted (p : Process) : Prop where
  callback  : p.asyncCallback = (p.running || p.later)
  called    : p.started = p.called + (p.running || p.later).toNat
  finished  : p.called = p.finished + (p.complete && !p.later).toNat
  rejected  : p.rejected = false
  connected : ∀ s, p.source = some s → s.Connected

def Keeps (c : Prop) (p : Process) (o : Option Process) : Prop :=
  ∃ p', o = some p' ∧ Sound p' ∧ (c → Counted p → Counted p')

theorem Keeps.refl (c : Prop) (i : Sound p) : Keeps c p (some p) :=
  ⟨p, rfl, i, fun _ h => h⟩

theorem closed_newSource (launch : Launch) : (newSource launch).closed = false := by
  cases launch
  rfl

theorem Counted.runAsync (c : Counted p) (h : p.running = true ∨ p.complete = true) :
    Counted { p with rejected := p.rejected || p.finished == p.started } := by
  have hcalled := c.called
  have hfinished := c.finished
  have hne : p.finished ≠ p.started := by
    cases hr : p.running <;> cases hl : p.later <;> cases hc : p.complete <;> simp [hr, hl, hc] at h hcalled hfinished <;>
      omega
  refine ⟨c.callback, c.called, c.finished, ?_, c.connected⟩
  simp [c.rejected, hne]

-- A run was started, and its source is there.
structure Launched (p q : Process) : Prop where
  running  : q.running = true
  complete : q.complete = false
  sig      : q.sourceSig = true
  source   : ∃ launch, q.source = some { newSource launch with childSig := true }
  later    : q.later = false
  error    : q.error = q.recorded.head?
  callback : q.asyncCallback = true
  started  : q.started = p.started + 1
  called   : q.called = p.called
  finished : q.finished = p.finished
  early    : q.early = p.early
  rejected : q.rejected = p.rejected
  results  : q.results = p.results

theorem Launched.keeps {c : Prop} (i : Sound p) (hr : p.running = false) (hc : p.complete = false)
    (hl : p.later = false) (l : Launched p p') : Sound p' ∧ (c → Counted p → Counted p') := by
  obtain ⟨launch, hs⟩ := l.source
  have hopen : ({ newSource launch with childSig := true } : Source).closed = false := closed_newSource launch
  have hstage : Stage p' :=
    .live _ l.running l.complete (by rw [hopen]; exact l.sig) hs l.later l.error l.callback rfl fun _ => rfl
  refine ⟨⟨hstage, l.early.trans i.early, l.results ▸ i.results⟩, fun _ c => ?_⟩
  have hstarted := c.called
  have hfinished := c.finished
  simp only [hr, hc, hl, Bool.or_self, Bool.false_and, Bool.toNat_false, Nat.add_zero] at hstarted hfinished
  refine ⟨?_, ?_, ?_, l.rejected.trans c.rejected, fun s hsource => ?_⟩
  · simp [l.callback, l.running]
  · simp [l.started, l.called, l.running, hstarted]
  · simp [l.called, l.finished, l.complete, hfinished]
  · cases hs.symm.trans hsource
    exact fun _ _ => rfl

theorem Sound.runAsync (i : Sound p) : Keeps launch.Regular p (p.runAsync launch) := by
  cases i.stage
  case live s running complete sig source later error callback child hopen =>
    rw [Process.runAsync, if_pos (.inl running)]
    refine ⟨_, rfl, ⟨.live s running complete sig source later error callback child hopen, i.early, i.results⟩,
      fun _ c => c.runAsync (.inl running)⟩
  case done running complete sig source later error =>
    rw [Process.runAsync, if_pos (.inr complete)]
    refine ⟨_, rfl, ⟨.done running complete sig source later error, i.early, i.results⟩,
      fun _ c => c.runAsync (.inr complete)⟩
  case idle running complete sig source later error =>
    have hfree : ¬(p.running = true ∨ p.complete = true) := by simp [running, complete]
    rw [Process.runAsync, if_neg hfree]
    by_cases hpipe : (launch.withStatus ∨ launch.withAttributes) ∧ launch.pipeFails
    case pos =>
      rw [if_pos hpipe]
      refine ⟨_, rfl, ⟨.idle running complete sig source later error, i.early, i.results⟩, fun h => absurd hpipe h⟩
    case neg =>
      rw [if_neg hpipe]
      cases hspawn : launch.spawnFails
      case true =>
        simp only [if_true, error, Option.isSome_none, Bool.false_eq_true, if_false, record, completeRunProcess, not_true,
          or_self]
        refine ⟨_, rfl, ⟨.done rfl rfl sig source rfl rfl, i.early, i.results⟩, fun _ c => ?_⟩
        have hcalled := c.called
        have hfinished := c.finished
        simp only [running, complete, later, Bool.or_self, Bool.false_and, Bool.toNat_false] at hcalled hfinished
        refine ⟨rfl, ?_, ?_, c.rejected, fun s hs => ?_⟩
        · simp [hcalled]
        · simp [hfinished]
        · cases source.symm.trans hs
      case false =>
        have hsig : ¬(p.sourceSig = true ∨ (newSource launch).childSig = true) := by simp [sig, newSource]
        by_cases hcancel : launch.cancellable = some true
        case pos =>
          simp only [hcancel, if_true, Bool.false_eq_true, if_false, onCancellableCancelled, record, if_neg hsig]
          refine ⟨_, rfl, Launched.keeps i running complete later ?_⟩
          exact {
            running := rfl, complete := rfl, sig := rfl, source := ⟨launch, rfl⟩, later, error := by rw [error]; rfl
            callback := rfl, started := rfl, called := rfl, finished := rfl, early := rfl, rejected := rfl, results := rfl }
        case neg =>
          simp only [if_neg hcancel, Bool.false_eq_true, if_false, if_neg hsig]
          refine ⟨_, rfl, Launched.keeps i running complete later ?_⟩
          exact {
            running := rfl, complete := rfl, sig := rfl, source := ⟨launch, rfl⟩, later, error
            callback := rfl, started := rfl, called := rfl, finished := rfl, early := rfl, rejected := rfl, results := rfl }

theorem Sound.runFinish (i : Sound p) (h : p.asyncCallback = false) : Keeps True p p.runFinish := by
  cases i.stage
  case idle _ complete _ _ _ _ =>
    rw [Process.runFinish, if_pos (by simp [complete])]
    exact .refl _ i
  case live s _ complete _ _ _ _ _ _ _ =>
    rw [Process.runFinish, if_pos (by simp [complete])]
    exact .refl _ i
  case done running complete sig source later error =>
    rw [Process.runFinish, if_neg (by simp [complete]), if_neg (by simp [running, h])]
    refine ⟨_, rfl, ⟨.idle running rfl sig source (later.trans h) rfl, i.early, ?_⟩, fun _ c => ?_⟩
    · intro r hr
      obtain hr | hr := List.mem_append.mp hr
      · exact i.results r hr
      · rw [List.mem_singleton.mp hr]
        exact error
    · refine ⟨c.callback, c.called, ?_, c.rejected, c.connected⟩
      simpa [complete, later, h] using c.finished

theorem Sound.call (i : Sound p) (c : Call) : Keeps c.Regular p (p.call c) := by
  cases c
  case runAsync launch => exact i.runAsync
  case runFinish =>
    cases h : p.asyncCallback
    case true =>
      rw [Process.call, h, if_pos rfl]
      exact .refl _ i
    case false =>
      rw [Process.call, h, if_neg Bool.false_ne_true]
      exact i.runFinish h

theorem Keeps.bind {c d : Prop} {o : Option Process} {f : Process → Option Process} (h : Keeps c p o)
    (hf : ∀ p', Sound p' → Keeps d p' (f p')) : Keeps (c ∧ d) p (o.bind f) := by
  obtain ⟨p', rfl, i, hc⟩ := h
  obtain ⟨p'', hp'', i', hd⟩ := hf p' i
  exact ⟨p'', hp'', i', fun h c => hd h.2 (hc h.1 c)⟩

theorem Sound.calls (i : Sound p) (reaction : List Call) :
    Keeps (∀ c ∈ reaction, c.Regular) p (reaction.foldlM Process.call p) := by
  induction reaction generalizing p
  case nil => exact .refl _ i
  case cons c cs ih =>
    rw [List.foldlM_cons, List.forall_mem_cons]
    exact (i.call c).bind fun _ i' => ih i'

-- A run whose callback is to be called.
structure Ready (p : Process) : Prop where
  running  : p.running = false
  complete : p.complete = true
  sig      : p.sourceSig = false
  source   : p.source = none
  later    : p.later = false
  error    : p.error = p.recorded.head?
  callback : p.asyncCallback = true

theorem Ready.runAsyncReadyCallback (i : Ready p) (reaction : List Call) (he : p.early = false)
    (hr : ∀ r ∈ p.results, r.1 = r.2) :
    ∃ p', p.runAsyncReadyCallback reaction = some p' ∧ Sound p' ∧ ((∀ c ∈ reaction, c.Regular) →
      p.started = p.called + 1 → p.called = p.finished → p.rejected = false → Counted p') := by
  let q : Process := { p with asyncCallback := false, called := p.called + 1 }
  have hq : Sound q := ⟨.done i.running i.complete i.sig i.source i.later i.error, he, hr⟩
  obtain ⟨p', hp', i', hc⟩ := hq.calls reaction
  rw [Process.runAsyncReadyCallback, if_pos i.callback]
  refine ⟨p', hp', i', fun hreg hstarted hcalled hrejected => hc hreg ?_⟩
  have hcallback : q.asyncCallback = (q.running || q.later) := by simp [q, i.running, i.later]
  refine ⟨hcallback, ?_, ?_, hrejected, fun s hs => ?_⟩
  · simp [q, i.running, i.later, hstarted]
  · simp [q, i.complete, i.later, hcalled]
  · cases i.source.symm.trans hs

-- A run whose source is done. It is not the one of the main loop any more.
structure Finishing (p : Process) (s : Source) : Prop where
  running  : p.running = true
  complete : p.complete = false
  sig      : p.sourceSig = false
  later    : p.later = false
  error    : p.error = p.recorded.head?
  callback : p.asyncCallback = true
  closed   : s.closed = true
  childPid : s.childPid = false
  childSig : s.childSig = false

theorem Finishing.completeSourceIsDone (i : Finishing p s) (reaction : List Call) (he : p.early = false)
    (hr : ∀ r ∈ p.results, r.1 = r.2) :
    Keeps (∀ c ∈ reaction, c.Regular) p (p.completeSourceIsDone s reaction) := by
  let q : Process := { p with
    source := none, early := p.early || s.childPid || !s.closed, running := false, complete := true }
  have hq : Ready q := ⟨rfl, rfl, i.sig, rfl, i.later, i.error, i.callback⟩
  have hearly : q.early = false := by simp [q, he, i.childPid, i.closed]
  obtain ⟨p', hp', i', hc⟩ := hq.runAsyncReadyCallback reaction hearly hr
  have hcomplete : Process.completeRunProcess { p with
      source := none, early := p.early || s.childPid || !s.closed } = q := by
    simp [completeRunProcess, i.running, i.complete, q]
  refine ⟨p', ?_, i', fun hreg c => hc hreg ?_ ?_ c.rejected⟩
  · rw [Process.completeSourceIsDone, if_neg (by simp [i.childSig])]
    simp only [hcomplete, hp']
    simp [i.childPid, i.childSig]
  · simpa [i.running] using c.called
  · simpa [i.complete] using c.finished

theorem Sound.live (i : Sound p) (hs : p.source = some s) :
    p.running = true ∧ p.complete = false ∧ p.sourceSig = (!s.closed) ∧ p.later = false ∧ p.error = p.recorded.head? ∧
      p.asyncCallback = true ∧ s.childSig = s.childPid ∧ (s.closed → s.childPid = true) := by
  cases i.stage
  case idle source _ _   => cases source.symm.trans hs
  case done source _ _   => cases source.symm.trans hs
  case live s' running complete sig source later error callback child hopen =>
    cases source.symm.trans hs
    exact ⟨running, complete, sig, later, error, callback, child, hopen⟩

theorem Sound.dispatch (i : Sound p) (hsig : p.sourceSig = true) (hs : p.source = some s) :
    Keeps (poll.Regular ∧ ∀ c ∈ reaction, c.Regular) p (p.dispatch s hasInput poll reaction) := by
  obtain ⟨running, complete, _, later, error, callback, child, _⟩ := i.live hs
  obtain ⟨hpid, hwatch⟩ := s.dispatchFds_child hasInput poll
  let s' := s.dispatchFds hasInput poll
  have hchild : s'.childSig = s'.childPid := hwatch.trans (child.trans hpid.symm)
  have hconn : poll.Regular → Counted p → s'.Connected := fun hreg c => (c.connected s hs).dispatchFds hreg
  cases hclosed : s'.closed
  case false =>
    have hdispatch : p.dispatch s hasInput poll reaction = some { p with source := some s' } := by
      rw [Process.dispatch, if_pos (by simp [s', hclosed])]
    rw [hdispatch]
    refine ⟨_, rfl, ⟨.live s' running complete ?_ rfl later error callback hchild fun h => ?_, i.early, i.results⟩,
      fun hreg c => ⟨c.callback, c.called, c.finished, c.rejected, ?_⟩⟩
    · rw [hclosed]
      exact hsig
    · cases hclosed.symm.trans h
    · rintro _ ⟨⟩
      exact hconn hreg.1 c
  case true =>
    let q : Process := { p with source := some s', sourceSig := false }
    have hq : poll.Regular → Counted p → Counted q := fun hreg c =>
      ⟨c.callback, c.called, c.finished, c.rejected, by rintro _ ⟨⟩; exact hconn hreg c⟩
    cases hp : s'.childPid
    case true =>
      have hdispatch : p.dispatch s hasInput poll reaction = some q := by
        rw [Process.dispatch, if_neg (by simp [s', hclosed]), if_neg (by simp [s', hp])]
      rw [hdispatch]
      refine ⟨q, rfl, ⟨.live s' running complete ?_ rfl later error callback hchild fun _ => hp, i.early, i.results⟩,
        fun hreg => hq hreg.1⟩
      rw [hclosed]
      rfl
    case false =>
      have hdispatch : p.dispatch s hasInput poll reaction = q.completeSourceIsDone s' reaction := by
        rw [Process.dispatch, if_neg (by simp [s', hclosed]), if_pos (by simp [s', hp])]
      have hf : Finishing q s' :=
        ⟨running, complete, rfl, later, error, callback, hclosed, hp, hchild.trans hp⟩
      obtain ⟨p', hp', i', hc⟩ := hf.completeSourceIsDone reaction i.early i.results
      rw [hdispatch]
      exact ⟨p', hp', i', fun hreg c => hc hreg.2 (hq hreg.1 c)⟩

theorem head?_append_toList {α : Type*} (l : List α) (o : Option α) : l.head?.or o = (l ++ o.toList).head? := by
  cases l <;> cases o <;> rfl

theorem Sound.childExited {status : ExitStatus} (i : Sound p) (hs : p.source = some s) :
    Keeps (∀ c ∈ reaction, c.Regular) p (p.childExited s status reaction) := by
  obtain ⟨running, complete, sig, later, error, callback, child, hopen⟩ := i.live hs
  let s' : Source := { s with childPid := false, childSig := false }
  obtain ⟨o, ho⟩ : ∃ o, p.childExited s status reaction =
      let p := { p.record o with source := some s' }
      if ¬s'.closed then some p else p.completeSourceIsDone s' reaction := ⟨_, rfl⟩
  let q : Process := { p.record o with source := some s' }
  have herror : q.error = q.recorded.head? := by
    simp only [q, record, error]
    exact head?_append_toList ..
  have hq : Counted p → Counted q := fun c =>
    ⟨c.callback, c.called, c.finished, c.rejected, by rintro _ ⟨⟩; exact c.connected s hs⟩
  rw [ho]
  cases hclosed : s.closed
  case false =>
    have hopen' : s'.closed = false := hclosed
    rw [if_pos (by simp [hopen'])]
    refine ⟨q, rfl, ⟨.live s' running complete (sig.trans ?_) rfl later herror callback rfl fun h => ?_, i.early, i.results⟩,
      fun _ => hq⟩
    · rw [hopen', hclosed]
    · cases hopen'.symm.trans h
  case true =>
    have hclosed' : s'.closed = true := hclosed
    rw [if_neg (by simp [hclosed'])]
    have hsource : q.sourceSig = false := sig.trans (by rw [hclosed]; rfl)
    have hf : Finishing q s' := ⟨running, complete, hsource, later, herror, callback, hclosed', rfl, rfl⟩
    obtain ⟨p', hp', i', hc⟩ := hf.completeSourceIsDone reaction i.early i.results
    exact ⟨p', hp', i', fun hreg c => hc hreg (hq c)⟩

theorem Sound.onCancellableCancelled (i : Sound p) (hs : p.source = some s) :
    Keeps True p (some p.onCancellableCancelled) := by
  obtain ⟨running, complete, sig, later, error, callback, child, hopen⟩ := i.live hs
  have herror : p.onCancellableCancelled.error = p.onCancellableCancelled.recorded.head? := by
    rw [Process.onCancellableCancelled, record, error]
    exact head?_append_toList ..
  refine ⟨_, rfl, ⟨.live s running complete sig hs later herror callback child hopen, i.early, i.results⟩, fun _ c => ?_⟩
  exact ⟨c.callback, c.called, c.finished, c.rejected, c.connected⟩

theorem Sound.idle (i : Sound p) (hl : p.later = true) :
    Keeps (∀ c ∈ reaction, c.Regular) p ({ p with later := false }.runAsyncReadyCallback reaction) := by
  cases i.stage
  case idle later _ => cases later.symm.trans hl
  case live later _ _ _ _ => cases later.symm.trans hl
  case done running complete sig source later error =>
    have hq : Ready { p with later := false } := ⟨running, complete, sig, source, rfl, error, later.symm.trans hl⟩
    obtain ⟨p', hp', i', hc⟩ := hq.runAsyncReadyCallback reaction i.early i.results
    refine ⟨p', hp', i', fun hreg c => hc hreg ?_ ?_ c.rejected⟩
    · simpa [hl] using c.called
    · simpa [hl] using c.finished

-- An event that can happen is handled without a failed assertion.
theorem Sound.after (i : Sound p) (e : ProcessEvent) :
    p.after e = .refused ∨ ∃ o, p.after e = .ofOption o ∧ Keeps e.Regular p o := by
  cases e
  case call c => exact .inr ⟨_, rfl, i.call c⟩
  case dispatch hasInput poll reaction =>
    cases hsig : p.sourceSig
    case false => exact .inl (by simp [Process.after, hsig])
    case true =>
      cases hs : p.source
      case none   => exact .inl (by simp [Process.after, hs])
      case some s => exact .inr ⟨p.dispatch s hasInput poll reaction, by simp [Process.after, hsig, hs], i.dispatch hsig hs⟩
  case childExited status reaction =>
    cases hs : p.source
    case none => exact .inl (by simp [Process.after, hs])
    case some s =>
      cases hsig : s.childSig
      case false => exact .inl (by simp [Process.after, hs, hsig])
      case true  => exact .inr ⟨p.childExited s status reaction, by simp [Process.after, hs, hsig], i.childExited hs⟩
  case cancelled =>
    cases hs : p.source
    case none => exact .inl (by simp [Process.after, hs])
    case some s =>
      cases hsig : s.cancelSig
      case false => exact .inl (by simp [Process.after, hs, hsig])
      case true  => exact .inr ⟨_, by simp [Process.after, hs, hsig, Outcome.ofOption], i.onCancellableCancelled hs⟩
  case idle reaction =>
    cases hl : p.later
    case false => exact .inl (by simp [Process.after, hl])
    case true  => exact .inr ⟨_, by simp [Process.after, hl], i.idle hl⟩

end Process

end GnupgProcess

namespace GnupgProcess

namespace Process

variable {p p' : Process} {e : ProcessEvent} {launch : Launch}

theorem Init.sound (h : Init p) : Sound p ∧ Counted p := by
  cases h
  exact ⟨⟨.idle rfl rfl rfl rfl rfl rfl, rfl, by simp⟩, rfl, rfl, rfl, rfl, by simp⟩

theorem Step.sound (h : Step p e p') (i : Sound p) : Sound p' ∧ (e.Regular → Counted p → Counted p') := by
  obtain ha | ⟨o, ha, p'', rfl, hk⟩ := i.after e
  · cases ha.symm.trans h
  · cases ha.symm.trans h
    exact hk

theorem Sound.safe (i : Sound p) (e : ProcessEvent) : p.after e ≠ .aborted := by
  intro h
  obtain ha | ⟨o, ha, p', rfl, -⟩ := i.after e
  · cases ha.symm.trans h
  · cases ha.symm.trans h

structure Completes (p : Process) : Prop where
  safe e  : p.after e ≠ .aborted
  -- A run that is not in progress had its callback, and the others did not.
  once    : p.started = p.called + (p.running || p.later).toNat
  closed  : p.early = false
  -- A run that is over is not in progress.
  ends    : p.running → ∃ s, p.source = some s ∧ (s.childPid = true ∨ ∃ fd, s.opened fd ∧ s.gone fd = false)
  first   : p.finished < p.started → p.error = p.recorded.head?
  results : ∀ r ∈ p.results, r.1 = r.2
  returns : p.finished < p.called → ∃ p', p.call .runFinish = some p' ∧ p'.finished = p'.called
  -- Once the runs are finished there can be another, also from a callback.
  again   : p.finished = p.started → ∀ launch p', p.runAsync launch = some p' → p'.started = p.started + 1
  served  : p.rejected = false

theorem started_completeRunProcess (p : Process) : p.completeRunProcess.started = p.started := by
  rw [completeRunProcess]
  split <;> rfl

-- Only the runs in progress and those that were not finished are in the way of another one.
theorem runAsync_started (hr : p.running = false) (hc : p.complete = false) (h : p.runAsync launch = some p') :
    p'.started = p.started + 1 := by
  rw [Process.runAsync, if_neg (by simp [hr, hc])] at h
  dsimp only at h
  split at h
  case isTrue =>
    cases h
    rfl
  case isFalse =>
    split at h
    case isTrue =>
      split at h
      case isTrue => cases h
      case isFalse =>
        cases h
        exact started_completeRunProcess _
    case isFalse =>
      by_cases hcancel : launch.cancellable = some true <;> simp only [hcancel, if_true, if_false] at h <;>
        split at h <;> cases h <;> rfl

theorem Counted.completes (c : Counted p) (i : Sound p) : Completes p := by
  have hcalled := c.called
  have hfinished := c.finished
  cases i.stage
  case idle running complete sig source later error =>
    simp only [running, complete, later, Bool.or_self, Bool.false_and, Bool.toNat_false, Nat.add_zero] at hcalled hfinished
    refine ⟨i.safe, c.called, i.early, ?_, ?_, i.results, ?_, fun _ _ _ => runAsync_started running complete, c.rejected⟩
    · intro h
      cases running.symm.trans h
    · omega
    · omega
  case live s running complete sig source later error callback child hopen =>
    simp only [running, complete, Bool.true_or, Bool.false_and, Bool.toNat_true, Bool.toNat_false,
      Nat.add_zero] at hcalled hfinished
    refine ⟨i.safe, c.called, i.early, fun _ => ⟨s, source, ?_⟩, fun _ => error, i.results, ?_, ?_, c.rejected⟩
    · cases hpid : s.childPid
      case true  => exact .inl rfl
      case false =>
        obtain ⟨fd, -, hfd⟩ : ∃ fd ∈ Fd.all, s.opened fd := by
          have hclosed : s.closed = false := Bool.eq_false_iff.mpr fun h => by cases hpid.symm.trans (hopen h)
          simpa [Source.closed] using hclosed
        exact .inr ⟨fd, hfd, c.connected s source fd hfd⟩
    · omega
    · omega
  case done running complete sig source later error =>
    simp only [running, complete, Bool.false_or, Bool.true_and] at hcalled hfinished
    refine ⟨i.safe, c.called, i.early, ?_, fun _ => error, i.results, ?_, ?_, c.rejected⟩
    · intro h
      cases running.symm.trans h
    · intro h
      cases hl : p.later
      case true =>
        rw [hl] at hfinished
        simp only [Bool.not_true, Bool.toNat_false, Nat.add_zero] at hfinished
        omega
      case false =>
        rw [hl] at hfinished
        have hcallback : p.asyncCallback = false := later.symm.trans hl
        refine ⟨{ p with
          complete := false
          error    := none
          finished := p.finished + 1
          results  := p.results ++ [(p.error, p.recorded.head?)] }, ?_, hfinished.symm⟩
        rw [Process.call, if_neg (by simp [hcallback]), Process.runFinish, if_neg (by simp [complete]),
          if_neg (by simp [running, hcallback])]
    · intro h
      cases hl : p.later <;> rw [hl] at hcalled hfinished <;>
        simp only [Bool.not_true, Bool.not_false, Bool.toNat_true, Bool.toNat_false] at hcalled hfinished <;> omega

theorem completes_of_regular {ts : List (Process × ProcessEvent × Process)} (r : Transition.Run Init Step ts p)
    (h : ∀ t ∈ ts, t.2.1.Regular) : Completes p := by
  have r' := r.restrict (c := fun _ e => e.Regular) h
  obtain ⟨i, c⟩ := r'.invariant (p := fun p => Sound p ∧ Counted p) (fun _ => Init.sound) (by
    rintro p e p' ⟨i, c⟩ ⟨hs, he⟩
    obtain ⟨i', hc⟩ := hs.sound i
    exact ⟨i', hc he c⟩)
  exact c.completes i

-- The run of a process that exits after the poll.
def polled (poll : Poll) : Source :=
  Source.dispatchFds { newSource {} with childSig := true } true poll

def launched : Process where
  running       := true
  asyncCallback := true
  sourceSig     := true
  source        := some { newSource {} with childSig := true }
  started       := 1

def hangUp : Poll where
  report _ := { ioHup := true }

theorem completes_of_regular_hangUp :
    ∃ ts p, Transition.Run Init Step ts p ∧ ts.length = 3 ∧ p.called = 1 ∧ Completes p := by
  have hstart : Step {} (.call (.runAsync {})) launched := rfl
  have hpoll : Step launched (.dispatch true hangUp [])
    { launched with source := some (polled hangUp), sourceSig := false } := rfl
  have hexit : Step { launched with source := some (polled hangUp), sourceSig := false } (.childExited (.exited 0) [])
    { complete := true, started := 1, called := 1 } := rfl
  have hrun : Transition.Run Init Step _ _ := .step (.step (.step (.start rfl) hstart) hpoll) hexit
  refine ⟨_, _, hrun, rfl, rfl, completes_of_regular hrun ?_⟩
  have hlaunch : Launch.Regular {} := by simp [Launch.Regular]
  have hregular : hangUp.Regular := fun _ h => Bool.noConfusion h
  simp [ProcessEvent.Regular, Call.Regular, hlaunch, hregular]

-- The input is full when the process exits. That nobody reads it any more is reported as an error, without a hang-up.
def fullInput : Poll where
  report
    | .input => { ioErr := true }
    | _      => { ioHup := true }

theorem not_completes_fullInput : ¬∀ ts p, Transition.Run Init Step ts p → Completes p := by
  intro h
  have hstart : Step {} (.call (.runAsync {})) launched := rfl
  have hpoll : Step launched (.dispatch true fullInput []) { launched with source := some (polled fullInput) } := rfl
  have hexit : Step { launched with source := some (polled fullInput) } (.childExited (.exited 0) [])
    { launched with source := some { polled fullInput with childPid := false, childSig := false } } := rfl
  have hrun : Transition.Run Init Step _ _ := .step (.step (.step (.start rfl) hstart) hpoll) hexit
  obtain ⟨s, hs, hs'⟩ := (h _ _ hrun).ends rfl
  cases hs
  obtain hpid | ⟨fd, hopen, hgone⟩ := hs'
  · cases hpid
  · cases fd
    · cases hgone
    all_goals cases hopen

end Process

end GnupgProcess
