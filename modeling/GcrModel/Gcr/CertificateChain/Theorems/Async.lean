import GcrModel.Gcr.CertificateChain.Theorems.Build

namespace CertificateChain

open scoped List

variable {s s' : State} {e : Event} {ts : List (State × Event × State)}

-- The chain is as `perform_build_chain` leaves it behind for the input.
def ResultOf (self input : ChainPrivate) : Prop :=
  ∃ env fuel pv, performBuildChain env fuel input = some (.ok pv) ∧ self = cleanupChainPrivate pv

-- No certificate is lost, and the status is not out of date.
def Kept (s : State) : Prop :=
  (s.self.status = .unknown ∧ s.since <+~ s.self.objects) ∨
  ∃ input, s.built = some input ∧ ResultOf s.self input ∧ s.added <+~ input.objects

-- The step does not complete a build with success that was started before a certificate was added, or
-- on a chain from which a build had removed certificates.
def Current (s : State) : Event → Prop
  | .build env fuel purpose peer flags => ∀ self,
    gcrCertificateChainBuild env fuel s.self purpose peer flags = some (.ok (), self) → s.added <+~ s.self.objects
  | .buildFinish id  => ∀ task ∈ findTask s id, task.result = some (.ok ()) →
    task.added = s.added ∧ task.added <+~ task.input.objects
  | _                => True

structure Task.Valid (task : Task) : Prop where
  pending : task.result = none → task.pv = task.input
  done    : task.result = some (.ok ()) → ResultOf (cleanupChainPrivate task.pv) task.input

structure State.Valid (s : State) : Prop where
  since   : s.since <+~ s.self.objects
  unknown : s.built = none → s.self.status = .unknown
  built   : ∀ input ∈ s.built, ResultOf s.self input
  tasks   : ∀ task ∈ s.tasks, task.Valid

namespace State.Valid

theorem new : State.new.Valid where
  since := .refl _
  unknown _ := rfl
  built _ h := by simp [State.new] at h
  tasks _ h := by simp [State.new] at h

theorem add (h : s.Valid) (certificate : Object) : (add s certificate).Valid where
  since := by
    have hobjects : (gcrCertificateChainAdd s.self certificate).objects = s.self.objects ++ [certificate] := by
      simp [gcrCertificateChainAdd, ChainPrivate.objects]
    rw [CertificateChain.add, hobjects]
    exact (List.subperm_append_right _).mpr h.since
  unknown _ := rfl
  built _ hb := by simp [CertificateChain.add] at hb
  tasks := h.tasks

theorem complete (h : s.Valid) {self input : ChainPrivate} (hr : ResultOf self input) : (complete s self input).Valid where
  since := List.nil_subperm
  unknown hb := by simp [CertificateChain.complete] at hb
  built _ hb := by
    obtain rfl := Option.some.inj hb
    exact hr
  tasks := h.tasks

theorem mono (h : s.Valid) {tasks : List Task} (ht : ∀ task ∈ tasks, task.Valid) : { s with tasks := tasks }.Valid :=
  { h with tasks := ht }

theorem findTask (h : s.Valid) {id : Nat} {task : Task} (ht : findTask s id = some task) : task.Valid :=
  h.tasks _ (List.mem_of_find?_eq_some ht)

theorem build (h : s.Valid) {env : Lookups} {fuel : Nat} {purpose : String} {peer : Option String} {flags : UInt32}
    (hs : build s env fuel purpose peer flags = some s') : s'.Valid := by
  rw [CertificateChain.build] at hs
  split at hs
  case h_1 => simp at hs
  case h_2 self hbuild =>
    obtain rfl := Option.some.inj hs
    obtain ⟨outcome, hperform, heq⟩ := Option.map_eq_some_iff.mp hbuild
    cases outcome
    case error e => simp at heq
    case ok pv =>
      obtain ⟨-, rfl⟩ := Prod.mk.inj heq
      exact h.complete ⟨env, fuel, pv, hperform, rfl⟩
  case h_3 e self hbuild =>
    obtain rfl := Option.some.inj hs
    obtain ⟨outcome, -, heq⟩ := Option.map_eq_some_iff.mp hbuild
    cases outcome
    case error e =>
      obtain ⟨-, rfl⟩ := Prod.mk.inj heq
      exact h
    case ok pv => simp at heq

theorem threadBuildChain (h : s.Valid) {id : Nat} {env : Lookups} {fuel : Nat}
    (hs : threadBuildChain s id env fuel = some s') : s'.Valid := by
  have hset (task : Task) (ht : task.Valid) : (setTask s task).Valid := by
    refine h.mono fun task' hmem => ?_
    rcases List.mem_cons.mp hmem with rfl | hmem
    · exact ht
    · exact h.tasks _ (List.mem_of_mem_filter hmem)
  rw [CertificateChain.threadBuildChain] at hs
  split at hs
  case h_1 => simp at hs
  case h_2 task hfind =>
    have htask := h.findTask hfind
    split at hs
    case h_1 => simp at hs
    case h_2 hpending =>
      split at hs
      case h_1 => simp at hs
      case h_2 pv hperform =>
        obtain rfl := Option.some.inj hs
        refine hset _ ⟨by simp, fun _ => ?_⟩
        exact ⟨env, fuel, pv, htask.pending hpending ▸ hperform, rfl⟩
      case h_3 e hperform =>
        obtain rfl := Option.some.inj hs
        exact hset _ ⟨by simp, by simp⟩

theorem buildFinish (h : s.Valid) {id : Nat} (hs : buildFinish s id = some s') : s'.Valid := by
  have herase : { s with tasks := s.tasks.filter (·.id ≠ id) }.Valid :=
    h.mono fun _ hmem => h.tasks _ (List.mem_of_mem_filter hmem)
  rw [CertificateChain.buildFinish] at hs
  split at hs
  case h_1 => simp at hs
  case h_2 task hfind =>
    dsimp only at hs
    split at hs
    case h_1 => simp at hs
    case h_2 =>
      obtain rfl := Option.some.inj hs
      exact herase
    case h_3 hdone =>
      obtain rfl := Option.some.inj hs
      exact herase.complete ((h.findTask hfind).done hdone)

theorem buildAsync (h : s.Valid) (id : Nat) (purpose : String) (peer : Option String) (flags : UInt32) :
    (buildAsync s id purpose peer flags).Valid := by
  refine h.mono fun task hmem => ?_
  rcases List.mem_cons.mp hmem with rfl | hmem
  · exact ⟨fun _ => rfl, by simp⟩
  · exact h.tasks _ hmem

theorem step (h : s.Valid) (hs : Step s e s') : s'.Valid := by
  cases e
  case add certificate =>
    obtain rfl := Option.some.inj hs
    exact h.add certificate
  case build => exact h.build hs
  case buildAsync id purpose peer flags =>
    rw [Step, after] at hs
    split at hs
    case isTrue => simp at hs
    case isFalse =>
      obtain rfl := Option.some.inj hs
      exact h.buildAsync ..
  case thread => exact h.threadBuildChain hs
  case buildFinish => exact h.buildFinish hs

end State.Valid

theorem Run.valid (r : Run ts s) : s.Valid :=
  Transition.Run.invariant r (fun _ h => h ▸ .new) fun _ _ _ => State.Valid.step

-- What the last completed build was given has all certificates that were added up to now.
def Included (s : State) : Prop :=
  ∀ input ∈ s.built, s.added <+~ input.objects

theorem Included.step (h : Included s) (hc : Current s e) (hs : Step s e s') : Included s' := by
  cases e
  case add certificate =>
    obtain rfl := Option.some.inj hs
    intro input hb
    simp [add] at hb
  case build env fuel purpose peer flags =>
    rw [Step, after, build] at hs
    split at hs
    case h_1 => simp at hs
    case h_2 self hbuild =>
      obtain rfl := Option.some.inj hs
      intro input hb
      obtain rfl := Option.some.inj hb
      exact hc self hbuild
    case h_3 =>
      obtain rfl := Option.some.inj hs
      exact h
  case buildAsync =>
    rw [Step, after] at hs
    split at hs
    case isTrue => simp at hs
    case isFalse =>
      obtain rfl := Option.some.inj hs
      exact h
  case thread id env fuel =>
    rw [Step, after, threadBuildChain] at hs
    split at hs
    case h_1 => simp at hs
    case h_2 =>
      split at hs
      case h_1 => simp at hs
      case h_2 =>
        split at hs
        case h_1 => simp at hs
        case h_2 | h_3 =>
          obtain rfl := Option.some.inj hs
          exact h
  case buildFinish id =>
    rw [Step, after, buildFinish] at hs
    split at hs
    case h_1 => simp at hs
    case h_2 task hfind =>
      dsimp only at hs
      split at hs
      case h_1 => simp at hs
      case h_2 =>
        obtain rfl := Option.some.inj hs
        exact h
      case h_3 hdone =>
        obtain rfl := Option.some.inj hs
        obtain ⟨hadded, hinput⟩ := hc task hfind hdone
        intro input hb
        obtain rfl := Option.some.inj hb
        exact hadded ▸ hinput

theorem Run.included (r : Run ts s) (h : ∀ t ∈ ts, Current t.1 t.2.1) : Included s := by
  induction r
  case start hs =>
    subst hs
    intro input hb
    simp [State.new] at hb
  case step hs ih =>
    have hc := List.forall_mem_cons.mp h
    exact (ih hc.2).step hc.1 hs

-- As long as only builds are completed that were given all certificates of the chain, no certificate
-- is lost.
theorem Run.kept (r : Run ts s) (h : ∀ t ∈ ts, Current t.1 t.2.1) : Kept s := by
  have hv := r.valid
  cases hb : s.built
  case none => exact .inl ⟨hv.unknown hb, hv.since⟩
  case some input => exact .inr ⟨input, hb, hv.built _ hb, r.included h _ hb⟩

-- Nothing is pinned, anchored or found.
def Lookups.empty : Lookups :=
  .small (fun _ => false) (fun _ => false) (fun _ => none)

theorem Run.next (r : Run ts s) (e : Event) (h : after s e = some s') : Run ((s, e, s') :: ts) s' :=
  .step r h

theorem Run.kept_build : ∃ ts s, Run ts s ∧ s.self.status = .incomplete ∧ s.self.objects = [.small 1 2] ∧ Kept s := by
  have r₀ : Run [] .new := .start rfl
  have r₁ := r₀.next (.add (.small 1 2)) rfl
  have r₂ := r₁.next (.buildAsync 0 "server" none 0) rfl
  have r₃ := r₂.next (.thread 0 .empty 2) rfl
  have r₄ := r₃.next (.buildFinish 0) rfl
  refine ⟨_, _, r₄, rfl, rfl, Run.kept r₄ ?_⟩
  simp only [List.forall_mem_cons, List.not_mem_nil, false_imp_iff, implies_true, and_true]
  refine ⟨fun task ht _ => ?_, trivial, trivial, trivial⟩
  obtain rfl := Option.some.inj ht
  exact ⟨rfl, .refl _⟩

-- A certificate is added while a build is going on in another thread.
theorem Run.not_kept : ∃ ts s, Run ts s ∧ ¬Kept s := by
  have r₀ : Run [] .new := .start rfl
  have r₁ := r₀.next (.add (.small 1 2)) rfl
  have r₂ := r₁.next (.buildAsync 0 "server" none 0) rfl
  have r₃ := r₂.next (.add (.small 2 3)) rfl
  have r₄ := r₃.next (.thread 0 .empty 2) rfl
  have r₅ := r₄.next (.buildFinish 0) rfl
  refine ⟨_, _, r₅, ?_⟩
  rintro (⟨hunknown, -⟩ | ⟨input, hb, -, hsub⟩)
  · exact Status.noConfusion hunknown
  · obtain rfl := Option.some.inj hb
    exact absurd hsub.length_le (by decide)

end CertificateChain
