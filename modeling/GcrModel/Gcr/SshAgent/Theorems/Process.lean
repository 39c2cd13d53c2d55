import GcrModel.Gcr.SshAgent.Process

namespace SshAgentProcess

open Transition (Outcome)

variable {s s' : State} {e : Event} {result : Option Result} {k t : Nat}

-- What a step can be.
inductive Goes (s : State) : Event → Option Result → State → Prop
  | spawnFailed {t : Nat} : s.pid = 0 → Goes s (.connect t none) (some .spawnFailed) s
  | started {t pid : Nat} : s.pid = 0 → Goes s (.connect t (some pid)) (some .waiting)
    { agentStartInlock s pid with waiting := Function.update s.waiting t (some false) }
  | called {t : Nat} {spawn : Option Nat} : s.pid ≠ 0 → Goes s (.connect t spawn) (some s.proceed) s
  | waits {t : Nat} : s.ready = false → Goes s (.wake t) (some .waiting) s
  | goesOn {t : Nat} : Goes s (.wake t) (some s.proceed) { s with waiting := Function.update s.waiting t none }
  | timeout {t : Nat} : Goes s (.timeout t) none { s with waiting := Function.update s.waiting t (some true) }
  | output {k : Nat} {readable hangUp failed : Bool} : (s.children k).output.active →
    Goes s (.output k readable hangUp failed) none (onOutputWatch s k readable hangUp failed)
  | exit {k : Nat} : (s.children k).alive → Goes s (.exit k) none (s.setChild k { s.children k with alive := false })
  | childWatch {k : Nat} : (s.children k).watch.active → (s.children k).alive = false →
    Goes s (.childWatch k) none (onChildWatch s k)
  | finalize : Goes s .finalize none (gcrSshAgentProcessFinalize s)

theorem goes_of_connect {spawn : Option Nat} {r : Result} (h : gcrSshAgentProcessConnect s t spawn = (r, s')) :
    Goes s (.connect t spawn) (some r) s' := by
  unfold gcrSshAgentProcessConnect at h
  split at h
  case isTrue hpid =>
    cases spawn
    case none =>
      obtain ⟨rfl, rfl⟩ := Prod.mk.inj h
      exact .spawnFailed hpid
    case some pid =>
      obtain ⟨rfl, rfl⟩ := Prod.mk.inj h
      exact .started hpid
  case isFalse hpid =>
    obtain ⟨rfl, rfl⟩ := Prod.mk.inj h
    exact .called hpid

theorem goes_of_wake {timedout : Bool} {r : Result} (h : wake s t timedout = (r, s')) :
    Goes s (.wake t) (some r) s' := by
  unfold wake at h
  split at h
  case isTrue hwaits =>
    obtain ⟨rfl, rfl⟩ := Prod.mk.inj h
    exact .waits hwaits.2.1
  case isFalse =>
    obtain ⟨rfl, rfl⟩ := Prod.mk.inj h
    exact .goesOn

theorem goes_of_after (h : after s e = .ok (s', result)) : s.finalized = false ∧ Goes s e result s' := by
  unfold after at h
  split at h
  case isTrue =>
    split at h
    · split at h <;> cases h
    · cases h
  case isFalse hfinalized =>
    refine ⟨by simpa using hfinalized, ?_⟩
    cases e
    case connect t spawn =>
      dsimp only at h
      split at h
      · cases h
      · obtain ⟨rfl, rfl⟩ := Prod.mk.inj (Outcome.ok.inj h)
        exact goes_of_connect rfl
    case wake t =>
      cases hwaiting : s.waiting t
      case none => simp [hwaiting] at h
      case some timedout =>
        obtain ⟨rfl, rfl⟩ := by simpa [hwaiting] using h
        exact goes_of_wake rfl
    case timeout t =>
      dsimp only at h
      split at h
      · obtain ⟨rfl, rfl⟩ := Prod.mk.inj (Outcome.ok.inj h)
        exact .timeout
      · cases h
    case output k readable hangUp failed =>
      dsimp only at h
      split at h
      case isTrue hactive =>
        obtain ⟨rfl, rfl⟩ := Prod.mk.inj (Outcome.ok.inj h)
        exact .output hactive
      case isFalse => cases h
    case exit k =>
      dsimp only at h
      split at h
      case isTrue halive =>
        obtain ⟨rfl, rfl⟩ := Prod.mk.inj (Outcome.ok.inj h)
        exact .exit halive
      case isFalse => cases h
    case childWatch k =>
      dsimp only at h
      split at h
      case isTrue hexited =>
        obtain ⟨rfl, rfl⟩ := Prod.mk.inj (Outcome.ok.inj h)
        obtain ⟨hactive, halive⟩ : (s.children k).watch.active ∧ (s.children k).alive = false := by simpa using hexited
        exact .childWatch hactive halive
      case isFalse => cases h
    case finalize =>
      obtain ⟨rfl, rfl⟩ := Prod.mk.inj (Outcome.ok.inj h)
      exact .finalize

-- The counter of a watch says whether it has been removed.
def Watch.Once (w : Watch) : Prop :=
  w.removed = if w.active then 0 else 1

-- Only the child that was spawned last may be there, and its pid, its output and its watches are those of the object
-- until its exit is noticed.
structure Inv (s : State) : Prop where
  current  : s.pid ≠ 0 → 0 < s.spawned ∧ s.last.pid = s.pid ∧ s.last.watch.active ∧
    s.childId = some (s.spawned - 1) ∧ s.outputId = some (s.spawned - 1)
  others   : ∀ k, s.pid = 0 ∨ k + 1 ≠ s.spawned → (s.children k).alive = false ∧ (s.children k).watch.active = false
  idle     : s.pid = 0 → s.childId = none ∧ s.outputId = none
  output   : s.output = if s.spawned = 0 then none else some (s.spawned - 1)
  fresh    : ∀ k, s.spawned ≤ k → s.children k = {}
  unclosed : ∀ k, (s.children k).closed = 0
  once     : ∀ k, k < s.spawned → (s.children k).output.Once ∧ (s.children k).watch.Once

theorem State.setChild_children {child : Child} {j : Nat} :
    (s.setChild k child).children j = if j = k then child else s.children j :=
  Function.update_apply _ _ _ _

theorem inv_init : ∀ s : State, s = {} → Inv s := by
  rintro _ rfl
  exact ⟨by simp, by simp, by simp, by simp, by simp, by simp, by simp⟩

-- Whether the child is ready and who waits does not matter.
theorem Inv.put (hi : Inv s) (ready : Bool) (waiting : Nat → Option Bool) :
    Inv { s with ready := ready, waiting := waiting } :=
  ⟨hi.current, hi.others, hi.idle, hi.output, hi.fresh, hi.unclosed, hi.once⟩

theorem Inv.lt_spawned (hi : Inv s) (hk : s.children k ≠ {}) : k < s.spawned := by
  by_contra hn
  exact hk (hi.fresh k (by omega))

-- What has nothing to do with the process and the child watch may change.
theorem Inv.setChild (hi : Inv s) {child : Child} (hk : k < s.spawned) (hpid : child.pid = (s.children k).pid)
    (halive : child.alive → (s.children k).alive) (hclosed : child.closed = 0)
    (hwatch : child.watch = (s.children k).watch) (houtput : child.output.Once) : Inv (s.setChild k child) where
  current  := fun hne => by
    obtain ⟨hpos, hlast, hactive, hids⟩ := hi.current hne
    refine ⟨hpos, ?_, ?_, hids⟩
    · refine Eq.trans ?_ hlast
      rw [State.last, State.setChild_children]
      split
      case isTrue heq => rw [hpid, ← heq]; rfl
      case isFalse    => rfl
    · rw [State.last, State.setChild_children]
      split
      case isTrue heq => rw [hwatch, ← heq]; exact hactive
      case isFalse    => exact hactive
  others   := fun j hj => by
    have hothers := hi.others j hj
    rw [State.setChild_children]
    split
    case isFalse => exact hothers
    case isTrue heq =>
      subst heq
      refine ⟨?_, hwatch ▸ hothers.2⟩
      cases h : child.alive
      case false => rfl
      case true  => exact absurd (halive h) (by simp [hothers.1])
  idle     := hi.idle
  output   := hi.output
  fresh    := fun j hj => by
    have hj : s.spawned ≤ j := hj
    rw [State.setChild_children, if_neg (by omega)]
    exact hi.fresh j hj
  unclosed := fun j => by
    rw [State.setChild_children]
    split
    · exact hclosed
    · exact hi.unclosed j
  once     := fun j hj => by
    have honce := hi.once j hj
    rw [State.setChild_children]
    split
    case isFalse => exact honce
    case isTrue heq =>
      subst heq
      exact ⟨houtput, hwatch ▸ honce.2⟩

theorem Watch.Once.remove {w : Watch} (ho : w.Once) (ha : w.active) : w.remove.Once := by
  simp [Watch.Once, Watch.remove, ha] at ho ⊢
  exact ho

theorem agentStart_children {pid j : Nat} : (agentStartInlock s pid).children j =
    if j = s.spawned then { pid := pid, alive := true, output := ⟨true, 0⟩, watch := ⟨true, 0⟩ } else s.children j :=
  State.setChild_children

theorem agentStart_last {pid : Nat} : (agentStartInlock s pid).last =
    { pid := pid, alive := true, output := ⟨true, 0⟩, watch := ⟨true, 0⟩ } := by
  rw [State.last, agentStart_children]
  exact if_pos rfl

theorem Inv.started (hi : Inv s) (hpid : s.pid = 0) {pid : Nat} (hne : pid ≠ 0) : Inv (agentStartInlock s pid) where
  current  := fun _ => ⟨Nat.succ_pos _, by rw [agentStart_last]; rfl, by rw [agentStart_last], rfl, rfl⟩
  others   := fun k hk => by
    have hk : k + 1 ≠ s.spawned + 1 := hk.resolve_left hne
    rw [agentStart_children, if_neg (by omega)]
    exact hi.others k (.inl hpid)
  idle     := fun h => absurd h hne
  output   := by simp [agentStartInlock]
  fresh    := fun k hk => by
    have hk : s.spawned + 1 ≤ k := hk
    rw [agentStart_children, if_neg (by omega)]
    exact hi.fresh k (by omega)
  unclosed := fun k => by
    rw [agentStart_children]
    split
    · rfl
    · exact hi.unclosed k
  once     := fun k hk => by
    have hk : k < s.spawned + 1 := hk
    rw [agentStart_children]
    split
    · exact ⟨rfl, rfl⟩
    · exact hi.once k (by omega)

-- A child whose watch is there is the current one.
theorem Inv.of_watch (hi : Inv s) (hactive : (s.children k).watch.active) : s.pid ≠ 0 ∧ k + 1 = s.spawned := by
  by_contra hn
  rw [not_and_or, not_not] at hn
  exact absurd (hi.others k hn).2 (by simp [hactive])

theorem Inv.last_eq (hk : k + 1 = s.spawned) : s.last = s.children k := by
  rw [State.last, ← hk, Nat.add_sub_cancel]

-- The pid in a child watch is always that of the object.
theorem onChildWatch_eq (hi : Inv s) (hactive : (s.children k).watch.active) : onChildWatch s k =
    { s.setChild k { s.children k with watch := (s.children k).watch.remove } with
      pid := 0, outputId := none, childId := none } := by
  obtain ⟨hne, hk⟩ := hi.of_watch hactive
  obtain ⟨_, hlast, _⟩ := hi.current hne
  rw [Inv.last_eq hk] at hlast
  exact if_neg (not_not.mpr hlast)

theorem onChildWatch_children {j : Nat} : (onChildWatch s k).children j =
    if j = k then { s.children k with watch := (s.children k).watch.remove } else s.children j := by
  unfold onChildWatch
  dsimp only
  split <;> exact State.setChild_children

theorem onChildWatch_spawned : (onChildWatch s k).spawned = s.spawned := by
  unfold onChildWatch
  dsimp only
  split <;> rfl

theorem Inv.childWatch (hi : Inv s) (hactive : (s.children k).watch.active) (halive : (s.children k).alive = false) :
    Inv (onChildWatch s k) where
  current  := fun hne => by simp [onChildWatch_eq hi hactive] at hne
  others   := fun j _ => by
    obtain ⟨_, hk⟩ := hi.of_watch hactive
    rw [onChildWatch_children]
    split
    case isTrue       => exact ⟨halive, rfl⟩
    case isFalse hne  => exact hi.others j (.inr fun hj => hne (by omega))
  idle     := fun _ => by simp [onChildWatch_eq hi hactive]
  output   := by
    rw [onChildWatch_spawned, onChildWatch_eq hi hactive]
    exact hi.output
  fresh    := fun j hj => by
    obtain ⟨_, hk⟩ := hi.of_watch hactive
    rw [onChildWatch_spawned] at hj
    rw [onChildWatch_children, if_neg (by omega)]
    exact hi.fresh j hj
  unclosed := fun j => by
    rw [onChildWatch_children]
    split
    · exact hi.unclosed k
    · exact hi.unclosed j
  once     := fun j hj => by
    rw [onChildWatch_spawned] at hj
    have honce := hi.once j hj
    rw [onChildWatch_children]
    split
    case isFalse => exact honce
    case isTrue heq =>
      subst heq
      exact ⟨honce.1, honce.2.remove hactive⟩

theorem Inv.onOutputWatch (hi : Inv s) (readable hangUp failed : Bool) (hactive : (s.children k).output.active) :
    Inv (onOutputWatch s k readable hangUp failed) := by
  have hk : k < s.spawned := hi.lt_spawned fun heq => by simp [heq] at hactive
  have honce := (hi.once k hk).1
  have hafter : (if hangUp || failed then (s.children k).output.remove else (s.children k).output).Once := by
    split
    · exact honce.remove hactive
    · exact honce
  let child : Child :=
    { s.children k with
      announced := (s.children k).announced || readable
      output    := if hangUp || failed then (s.children k).output.remove else (s.children k).output }
  have hchild : Inv (s.setChild k child) := hi.setChild hk rfl id (hi.unclosed k) rfl hafter
  exact hchild.put (s.ready || readable) s.waiting

theorem Inv.exit (hi : Inv s) (halive : (s.children k).alive) :
    Inv (s.setChild k { s.children k with alive := false }) := by
  have hk : k < s.spawned := hi.lt_spawned fun heq => by simp [heq] at halive
  exact hi.setChild hk rfl (fun h => by cases h) (hi.unclosed k) rfl (hi.once k hk).1

-- As long as the object is there a step keeps the invariant.
theorem Goes.inv (hg : Goes s e result s') (hi : Inv s) (hgiven : e.Given s) (hf : s'.finalized = false) : Inv s' := by
  cases hg
  case spawnFailed               => exact hi
  case started hpid              => exact (hi.started hpid hgiven).put _ _
  case called                    => exact hi
  case waits                     => exact hi
  case goesOn                    => exact hi.put _ _
  case timeout                   => exact hi.put _ _
  case output hactive            => exact hi.onOutputWatch _ _ _ hactive
  case exit halive               => exact hi.exit halive
  case childWatch hactive halive => exact hi.childWatch hactive halive
  case finalize                  => cases hf

-- What is right of all states where the object is there.
theorem Inv.alive (hi : Inv s) (ha : (s.children k).alive) : k + 1 = s.spawned := by
  by_contra hne
  exact absurd (hi.others k (.inr hne)).1 (by simp [ha])

theorem Inv.last_alive (hi : Inv s) (ha : (s.children k).alive) : s.last.alive := by
  rw [Inv.last_eq (hi.alive ha)]
  exact ha

theorem Watch.Once.le {w : Watch} (ho : w.Once) : w.removed ≤ 1 := by
  rw [ho]
  split <;> omega

theorem Inv.removed_le (hi : Inv s) : (s.children k).output.removed ≤ 1 ∧ (s.children k).watch.removed ≤ 1 := by
  by_cases hk : k < s.spawned
  case pos => exact ⟨(hi.once k hk).1.le, (hi.once k hk).2.le⟩
  case neg => simp [hi.fresh k (by omega)]

theorem Inv.correct (hi : Inv s') (hf : s'.finalized = false) (hannounced : s'.Announced)
    (hattempts : result = some .attempted → s.pid ≠ 0 ∧ s.last.announced)
    (hpatient : ∀ t spawn, e = .connect t spawn → result = some .refused → ∀ t', s.waiting t' ≠ some false)
    (hrestarts : ∀ t spawn, e = .connect t spawn → (∀ k, (s.children k).alive = false) →
      result = some .spawnFailed ∨ s'.spawned = s.spawned + 1) : Correct s (e, result) s' where
  single    := fun k k' ha ha' => by
    have hk := hi.alive ha
    have hk' := hi.alive ha'
    omega
  announced := hannounced
  attempts  := hattempts
  patient   := fun t spawn heq => hpatient t spawn (congrArg Prod.fst heq) (congrArg Prod.snd heq)
  restarts  := hrestarts
  once      := fun k => ⟨by simp [hi.unclosed k], hi.removed_le⟩
  closed    := fun h => absurd h (by simp [hf])

-- What finalize closes and removes.
theorem close_children : s.close.children k =
    { s.children k with closed := (s.children k).closed + if s.output = some k then 1 else 0 } := by
  unfold State.close
  cases houtput : s.output
  case none   => rfl
  case some j =>
    rw [State.setChild_children]
    by_cases hk : k = j
    case pos => simp [hk]
    case neg => simp [hk, Ne.symm hk]

theorem removeOutput_children : s.removeOutput.children k =
    { s.children k with
      output := if s.outputId = some k then (s.children k).output.remove else (s.children k).output } := by
  unfold State.removeOutput
  cases houtputId : s.outputId
  case none   => rfl
  case some j =>
    rw [State.setChild_children]
    by_cases hk : k = j
    case pos => simp [hk]
    case neg => simp [hk, Ne.symm hk]

theorem removeChild_children : s.removeChild.children k =
    { s.children k with
      watch := if s.childId = some k then (s.children k).watch.remove else (s.children k).watch } := by
  unfold State.removeChild
  cases hchildId : s.childId
  case none   => rfl
  case some j =>
    rw [State.setChild_children]
    by_cases hk : k = j
    case pos => simp [hk]
    case neg => simp [hk, Ne.symm hk]

-- The other fields stay.
theorem close_fields : s.close.outputId = s.outputId ∧ s.close.childId = s.childId ∧ s.close.spawned = s.spawned ∧
    s.close.pid = s.pid ∧ s.close.ready = s.ready := by
  unfold State.close
  split <;> exact ⟨rfl, rfl, rfl, rfl, rfl⟩

theorem removeOutput_fields : s.removeOutput.childId = s.childId ∧ s.removeOutput.spawned = s.spawned ∧
    s.removeOutput.pid = s.pid ∧ s.removeOutput.ready = s.ready := by
  unfold State.removeOutput
  split <;> exact ⟨rfl, rfl, rfl, rfl⟩

theorem removeChild_fields : s.removeChild.spawned = s.spawned ∧ s.removeChild.pid = s.pid ∧
    s.removeChild.ready = s.ready := by
  unfold State.removeChild
  split <;> exact ⟨rfl, rfl, rfl⟩

theorem finalize_children : (gcrSshAgentProcessFinalize s).children k =
    { s.children k with
      closed := (s.children k).closed + if s.output = some k then 1 else 0
      output := if s.outputId = some k then (s.children k).output.remove else (s.children k).output
      watch  := if s.childId = some k then (s.children k).watch.remove else (s.children k).watch } := by
  have hchild : (gcrSshAgentProcessFinalize s).children k = s.close.removeOutput.removeChild.children k := rfl
  rw [hchild, removeChild_children, removeOutput_children, close_children, removeOutput_fields.1, close_fields.1,
    close_fields.2.1]

theorem finalize_fields : (gcrSshAgentProcessFinalize s).spawned = s.spawned ∧ (gcrSshAgentProcessFinalize s).pid = s.pid ∧
    (gcrSshAgentProcessFinalize s).ready = s.ready := by
  obtain ⟨_, _, h₁, h₁', h₁''⟩ := close_fields (s := s)
  obtain ⟨_, h₂, h₂', h₂''⟩ := removeOutput_fields (s := s.close)
  obtain ⟨h₃, h₃', h₃''⟩ := removeChild_fields (s := s.close.removeOutput)
  exact ⟨h₃.trans (h₂.trans h₁), h₃'.trans (h₂'.trans h₁'), h₃''.trans (h₂''.trans h₁'')⟩

theorem finalize_correct_iff (hi : Inv s) (hq : s.Announced) :
    Correct s (.finalize, none) (gcrSshAgentProcessFinalize s) ↔
      s.spawned ≤ 1 ∧ ∀ k, s.outputId = some k → (s.children k).output.active := by
  obtain ⟨hspawned, hpid, hready⟩ := finalize_fields (s := s)
  have hids : ∀ {k}, s.outputId = some k ∨ s.childId = some k → s.pid ≠ 0 ∧ k + 1 = s.spawned := by
    intro k hk
    by_cases hzero : s.pid = 0
    case pos => simp [hi.idle hzero] at hk
    case neg =>
      obtain ⟨hpos, _, _, hchildId, houtputId⟩ := hi.current hzero
      refine ⟨hzero, ?_⟩
      have heq : s.spawned - 1 = k := by simpa [hchildId, houtputId] using hk
      omega
  refine ⟨fun hc => ⟨?_, fun k hk => ?_⟩, fun h => ?_⟩
  case refine_1 =>
    -- Only one output is closed.
    by_contra hmany
    have hclosed := hc.closed rfl 0 (by omega)
    rw [finalize_children, hi.unclosed, hi.output, if_neg (show s.spawned ≠ 0 by omega)] at hclosed
    have hne : ¬some (s.spawned - 1) = some 0 := by simp; omega
    simp [hne] at hclosed
  case refine_2 =>
    -- A watch that has ended is removed again.
    by_contra hactive
    obtain ⟨_, hlast⟩ := hids (.inl hk)
    have honce := (hi.once k (by omega)).1
    have hremoved := (hc.once k).2.1
    rw [finalize_children] at hremoved
    simp only [hk, if_true, Watch.remove] at hremoved
    rw [honce, if_neg hactive] at hremoved
    omega
  case refine_3 =>
    obtain ⟨hle, hactive⟩ := h
    refine ⟨fun k k' ha ha' => ?_, fun hne hr => ?_, by simp, by simp, by simp, fun k => ⟨?_, ?_, ?_⟩, fun _ k hk => ?_⟩
    · rw [finalize_children] at ha ha'
      have hk := hi.alive (k := k) ha
      have hk' := hi.alive (k := k') ha'
      omega
    · rw [State.last, hspawned, finalize_children]
      exact hq (hpid ▸ hne) (hready ▸ hr)
    · rw [finalize_children, hi.unclosed]
      dsimp only
      split <;> omega
    · rw [finalize_children]
      dsimp only
      split
      case isFalse    => exact hi.removed_le.1
      case isTrue hid =>
        obtain ⟨_, hlast⟩ := hids (.inl hid)
        exact ((hi.once k (by omega)).1.remove (hactive k hid)).le
    · rw [finalize_children]
      dsimp only
      split
      case isFalse    => exact hi.removed_le.2
      case isTrue hid =>
        obtain ⟨hne, hlast⟩ := hids (.inr hid)
        have hwatch := (hi.current hne).2.2.1
        rw [Inv.last_eq hlast] at hwatch
        exact ((hi.once k (by omega)).2.remove hwatch).le
    · rw [hspawned] at hk
      obtain rfl : k = 0 := by omega
      have houtput : s.output = some 0 := by
        rw [hi.output, if_neg (by omega), show s.spawned - 1 = 0 by omega]
      simp [finalize_children, hi.unclosed, houtput]

-- Whether the last child has announced itself after an event of a child.
theorem setChild_announced {child : Child} : (s.setChild k child).last.announced =
    if s.spawned - 1 = k then child.announced else s.last.announced := by
  have hlast : (s.setChild k child).last = (s.setChild k child).children (s.spawned - 1) := rfl
  rw [hlast, State.setChild_children]
  split <;> rfl

theorem onOutputWatch_announced_iff {readable hangUp failed : Bool} (hk : k < s.spawned) (hq : s.Announced) :
    (onOutputWatch s k readable hangUp failed).Announced ↔
      (readable = true → s.pid ≠ 0 → k + 1 = s.spawned ∨ s.last.announced) := by
  have hlast : (onOutputWatch s k readable hangUp failed).last.announced =
      if s.spawned - 1 = k then (s.children k).announced || readable else s.last.announced := setChild_announced
  have hannounced : (onOutputWatch s k readable hangUp failed).Announced ↔ (s.pid ≠ 0 → (s.ready || readable) →
      (if s.spawned - 1 = k then (s.children k).announced || readable else s.last.announced) = true) := by
    rw [← hlast]
    exact Iff.rfl
  rw [hannounced]
  by_cases heq : s.spawned - 1 = k
  case pos =>
    have hk' : k + 1 = s.spawned := by omega
    refine iff_of_true (fun hne hready => ?_) fun _ _ => .inl hk'
    rw [if_pos heq]
    cases readable
    case true  => simp
    case false =>
      have hq := hq hne (by simpa using hready)
      rw [Inv.last_eq hk'] at hq
      simp [hq]
  case neg =>
    have hk' : ¬k + 1 = s.spawned := by omega
    rw [if_neg heq]
    refine ⟨fun h hreadable hne => .inr (h hne (by simp [hreadable])), fun h hne hready => ?_⟩
    cases readable
    case true  => exact (h rfl hne).resolve_left hk'
    case false => exact hq hne (by simpa using hready)

theorem Goes.correct_iff (hg : Goes s e result s') (hi : Inv s) (hgiven : e.Given s) (hf : s.finalized = false)
    (hq : s.Announced) : Correct s (e, result) s' ↔ Regular s e := by
  have hinv := fun hf' => hg.inv hi hgiven hf'
  cases hg
  case spawnFailed hpid =>
    refine iff_of_true ((hinv hf).correct hf hq (by simp) (by simp) (by simp)) ⟨by simp, by simp, ?_, by simp⟩
    exact fun _ _ _ hne => absurd hpid hne
  case started hpid =>
    refine iff_of_true ((hinv hf).correct hf ?_ (by simp) (by simp) fun _ _ _ _ => .inr rfl) ⟨by simp, by simp, ?_, by simp⟩
    · exact fun _ hready => by cases hready
    · exact fun _ _ _ hne => absurd hpid hne
  case called t spawn hpid =>
    refine ⟨fun hc => ⟨by simp, by simp, fun _ _ _ _ => ⟨?_, ?_⟩, by simp⟩, fun hr => (hinv hf).correct hf hq ?_ ?_ ?_⟩
    · -- Without a child that is alive one would have been spawned.
      by_contra hdead
      have hall : ∀ k, (s.children k).alive = false := fun k => by
        cases ha : (s.children k).alive
        case false => rfl
        case true  => exact absurd (hi.last_alive ha) hdead
      obtain hfailed | hspawned := hc.restarts t spawn rfl hall
      · unfold State.proceed at hfailed
        split at hfailed <;> cases hfailed
      · exact absurd hspawned (Nat.ne_of_lt (Nat.lt_succ_self _))
    · by_cases hready : s.ready = true
      case pos => exact .inl hready
      case neg => exact .inr (hc.patient t spawn (by simp [State.proceed, hready]))
    · intro hattempted
      have hready : s.ready = true := by
        by_contra hready
        simp [State.proceed, hready] at hattempted
      exact ⟨hpid, hq hpid hready⟩
    · rintro t' spawn' heq hrefused
      refine (hr.connect t spawn rfl hpid).2.resolve_left fun hready => ?_
      simp [State.proceed, hready] at hrefused
    · rintro t' spawn' heq hall
      exact absurd (hr.connect t spawn rfl hpid).1 (by simp [State.last, hall])
  case waits hready =>
    refine iff_of_true ((hinv hf).correct hf hq (by simp) (by simp) (by simp)) ⟨by simp, ?_, by simp, by simp⟩
    exact fun _ _ h => absurd h (by simp [hready])
  case goesOn t =>
    refine ⟨fun hc => ⟨by simp, fun _ _ hready => ?_, by simp, by simp⟩, fun hr => (hinv hf).correct hf hq ?_ (by simp) (by simp)⟩
    · exact (hc.attempts (by simp [State.proceed, hready])).1
    · intro hattempted
      have hready : s.ready = true := by
        by_contra hready
        simp [State.proceed, hready] at hattempted
      have hpid := hr.wake t rfl hready
      exact ⟨hpid, hq hpid hready⟩
  case timeout =>
    exact iff_of_true ((hinv hf).correct hf hq (by simp) (by simp) (by simp)) ⟨by simp, by simp, by simp, by simp⟩
  case output k readable hangUp failed hactive =>
    have hk : k < s.spawned := hi.lt_spawned fun heq => by simp [heq] at hactive
    refine ⟨fun hc => ⟨?_, by simp, by simp, by simp⟩, fun hr => (hinv hf).correct hf ?_ (by simp) (by simp) (by simp)⟩
    · rintro _ _ _ heq
      obtain ⟨rfl, rfl, rfl, rfl⟩ := Event.output.inj heq
      exact (onOutputWatch_announced_iff hk hq).mp hc.announced rfl
    · refine (onOutputWatch_announced_iff hk hq).mpr ?_
      rintro rfl
      exact hr.output k hangUp failed rfl
  case exit k halive =>
    refine iff_of_true ((hinv hf).correct hf ?_ (by simp) (by simp) (by simp)) ⟨by simp, by simp, by simp, by simp⟩
    intro hne hready
    rw [setChild_announced]
    split
    case isTrue heq => exact heq ▸ hq hne hready
    case isFalse    => exact hq hne hready
  case childWatch k hactive halive =>
    have hf' : (onChildWatch s k).finalized = false := by
      rw [onChildWatch_eq hi hactive]
      exact hf
    refine iff_of_true ((hinv hf').correct hf' ?_ (by simp) (by simp) (by simp)) ⟨by simp, by simp, by simp, by simp⟩
    intro hne
    rw [onChildWatch_eq hi hactive] at hne
    exact absurd rfl hne
  case finalize =>
    rw [finalize_correct_iff hi hq]
    exact ⟨fun h => ⟨by simp, by simp, by simp, fun _ => h⟩, fun hr => hr.finalize rfl⟩

variable {ts : List (State × (Event × Option Result) × State)}

-- The agent is started and awaited correctly along a run if and only if all steps meet the condition.
theorem Run.awaited_iff (hr : Run ts s) :
    (∀ t ∈ ts, Correct t.1 t.2.1 t.2.2) ↔ ∀ t ∈ ts, Regular t.1 t.2.1.1 := by
  have hstep : ∀ s e s', Step s e s' → s.finalized = false ∧ Goes s e.1 e.2 s' := fun _ _ _ hs => goes_of_after hs.2
  refine Transition.Run.forall_step_iff (p := fun s => s.finalized = false → Inv s) (q := State.Announced) (Q := Correct)
    (c := fun s e => Regular s e.1) hr ?init ?inv ?announced
    (fun _ _ _ hc => hc.announced) ?step
  case init => exact fun s hs _ => inv_init s hs
  case inv =>
    intro s e s' hi hs hf
    obtain ⟨hfinalized, hg⟩ := hstep s e s' hs
    exact hg.inv (hi hfinalized) hs.1 hf
  case announced =>
    rintro s rfl hne
    exact absurd rfl hne
  case step =>
    intro s e s' hi hq hs
    obtain ⟨hfinalized, hg⟩ := hstep s e s' hs
    exact hg.correct_iff (hi hfinalized) hs.1 hfinalized hq

-- Two threads, of which the first waits for the child that it spawned.
def firstWaits : State :=
  { agentStartInlock {} 7 with waiting := Function.update (fun _ => none) 0 (some false) }

def twoCalls : List (State × (Event × Option Result) × State) :=
  [(firstWaits, (.connect 1 none, some .refused), firstWaits), ({}, (.connect 0 (some 7), some .waiting), firstWaits)]

theorem run_twoCalls : Run twoCalls firstWaits :=
  .step (.step (.start rfl) ⟨by simp [Event.Given], rfl⟩) ⟨trivial, rfl⟩

-- The second call is refused while the first one still waits.
theorem Run.not_awaited : ¬∀ ts s, Run ts s → ∀ t ∈ ts, Correct t.1 t.2.1 t.2.2 := by
  intro h
  have hc := h _ _ run_twoCalls _ List.mem_cons_self
  exact hc.patient 1 none rfl 0 rfl

theorem Run.awaited_iff_twoCalls :
    (∀ t ∈ twoCalls, Correct t.1 t.2.1 t.2.2) ↔ ∀ t ∈ twoCalls, Regular t.1 t.2.1.1 :=
  Run.awaited_iff run_twoCalls

end SshAgentProcess
