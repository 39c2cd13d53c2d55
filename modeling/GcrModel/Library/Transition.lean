import Mathlib.Data.List.Basic

-- Labelled transition systems: runs from an initial state, what holds in all of their states and of
-- all of their steps.
namespace Transition

variable {σ ε : Type*}

-- A run that took the steps `ts`, the last one first, and got to a state.
inductive Run (init : σ → Prop) (step : σ → ε → σ → Prop) : List (σ × ε × σ) → σ → Prop
  | start {s : σ} : init s → Run init step [] s
  | step {ts : List (σ × ε × σ)} {s s' : σ} {e : ε} :
    Run init step ts s → step s e s' → Run init step ((s, e, s') :: ts) s'

-- What becomes of an event: it cannot happen, it makes the program abort, or there is a next state.
inductive Outcome (σ : Type*)
  | refused
  | aborted
  | ok (s : σ)

def Outcome.ofOption : Option σ → Outcome σ
  | none   => .aborted
  | some s => .ok s

-- The program does not abort, and the next state, if there is one, is as stated.
inductive Outcome.All (p : σ → Prop) : Outcome σ → Prop
  | refused : All p .refused
  | ok {s : σ} : p s → All p (.ok s)

theorem Outcome.all_iff {p : σ → Prop} {o : Outcome σ} : o.All p ↔ o ≠ .aborted ∧ ∀ s, o = .ok s → p s where
  mp  := by
    rintro (_ | ⟨hp⟩)
    · simp
    · exact ⟨by simp, fun _ heq => Outcome.ok.inj heq ▸ hp⟩
  mpr := by
    rintro ⟨hne, hp⟩
    cases o
    case refused => exact .refused
    case aborted => exact absurd rfl hne
    case ok s    => exact .ok (hp s rfl)

def Reachable (init : σ → Prop) (step : σ → ε → σ → Prop) (s : σ) : Prop :=
  ∃ ts, Run init step ts s

variable {init : σ → Prop} {step : σ → ε → σ → Prop} {s : σ} {ts : List (σ × ε × σ)}

-- What holds initially and is preserved by every step holds in every state of a run.
theorem Run.invariant {p : σ → Prop} (r : Run init step ts s) (h₀ : ∀ s, init s → p s)
    (hs : ∀ s e s', p s → step s e s' → p s') : p s := by
  induction r
  case start h      => exact h₀ _ h
  case step _ hs' ih => exact hs _ _ _ ih hs'

theorem Reachable.invariant {p : σ → Prop} (r : Reachable init step s) (h₀ : ∀ s, init s → p s)
    (hs : ∀ s e s', p s → step s e s' → p s') : p s :=
  have ⟨_, r⟩ := r
  r.invariant h₀ hs

-- A run whose steps meet a condition is one of the system that only has such steps.
theorem Run.restrict {c : σ → ε → Prop} (r : Run init step ts s) (h : ∀ t ∈ ts, c t.1 t.2.1) :
    Run init (fun s e s' => step s e s' ∧ c s e) ts s := by
  induction r
  case start hi => exact .start hi
  case step hs' ih =>
    obtain ⟨hc, hts⟩ := List.forall_mem_cons.mp h
    exact .step (ih hts) ⟨hs', hc⟩

-- What a step does from the states of an invariant, every step of a run does.
theorem Run.forall_step {p : σ → Prop} {Q : σ → ε → σ → Prop} (r : Run init step ts s)
    (h₀ : ∀ s, init s → p s) (hs : ∀ s e s', p s → step s e s' → p s')
    (h : ∀ s e s', p s → step s e s' → Q s e s') : ∀ t ∈ ts, Q t.1 t.2.1 t.2.2 := by
  induction r
  case start => simp
  case step r' hs' ih => exact List.forall_mem_cons.mpr ⟨h _ _ _ (r'.invariant h₀ hs) hs', ih⟩

-- A property of steps that holds of a step, from where it held before, if and only if the step meets a condition holds
-- of all steps if and only if all of them meet the condition.
theorem Run.forall_step_iff {p q : σ → Prop} {Q : σ → ε → σ → Prop} {c : σ → ε → Prop} (r : Run init step ts s)
    (h₀ : ∀ s, init s → p s) (hs : ∀ s e s', p s → step s e s' → p s') (hq : ∀ s, init s → q s)
    (hQ : ∀ s e s', Q s e s' → q s') (h : ∀ s e s', p s → q s → step s e s' → (Q s e s' ↔ c s e)) :
    (∀ t ∈ ts, Q t.1 t.2.1 t.2.2) ↔ ∀ t ∈ ts, c t.1 t.2.1 := by
  have hlast : ∀ {ts s}, Run init step ts s → (∀ t ∈ ts, Q t.1 t.2.1 t.2.2) → q s := by
    rintro ts s (hi | ⟨_, _⟩) hall
    · exact hq s hi
    · exact hQ _ _ _ (hall _ List.mem_cons_self)
  induction r
  case start => simp
  case step r' hs' ih =>
    rw [List.forall_mem_cons, List.forall_mem_cons]
    refine Iff.trans (and_congr_left fun hall => ?_) (and_congr_right fun _ => ih)
    exact h _ _ _ (r'.invariant h₀ hs) (hlast r' hall) hs'

-- A property that holds initially and that a step keeps if and only if it meets a condition holds along
-- a run if and only if all steps meet the condition.
theorem Run.forall_iff {p q : σ → Prop} {c : σ → ε → Prop} (r : Run init step ts s)
    (h₀ : ∀ s, init s → p s) (hs : ∀ s e s', p s → step s e s' → p s') (hq : ∀ s, init s → q s)
    (h : ∀ s e s', p s → q s → step s e s' → (q s' ↔ c s e)) :
    (∀ t ∈ ts, q t.2.2) ↔ ∀ t ∈ ts, c t.1 t.2.1 :=
  r.forall_step_iff h₀ hs hq (fun _ _ _ => id) h

-- Two properties of steps that are the same under an invariant are the same along every run.
theorem Run.forall_congr {p : σ → Prop} {P Q : σ → ε → σ → Prop} (r : Run init step ts s)
    (h₀ : ∀ s, init s → p s) (hs : ∀ s e s', p s → step s e s' → p s')
    (h : ∀ s e s', p s → step s e s' → (P s e s' ↔ Q s e s')) :
    (∀ t ∈ ts, P t.1 t.2.1 t.2.2) ↔ ∀ t ∈ ts, Q t.1 t.2.1 t.2.2 := by
  induction r
  case start => simp
  case step r' hs' ih =>
    rw [List.forall_mem_cons, List.forall_mem_cons, ih]
    exact and_congr_left fun _ => h _ _ _ (r'.invariant h₀ hs) hs'

end Transition

-- Monitors: a state that follows a sequence of events, and what it allows on the way.
namespace Monitor

variable {σ ε : Type*} (step : σ → ε → σ) (allows : σ → ε → Prop)

def after (s : σ) (events : List ε) : σ :=
  events.foldl step s

def Accepts : σ → List ε → Prop
  | _, []           => True
  | s, e :: events => allows s e ∧ Accepts (step s e) events

variable {step allows} {s : σ} {e : ε} {events events' : List ε}

@[simp]
theorem after_nil : after step s [] = s :=
  rfl

@[simp]
theorem after_cons : after step s (e :: events) = after step (step s e) events :=
  rfl

@[simp]
theorem after_append : after step s (events ++ events') = after step (after step s events) events' :=
  List.foldl_append

@[simp]
theorem accepts_nil : Accepts step allows s [] :=
  trivial

@[simp]
theorem accepts_cons : Accepts step allows s (e :: events) ↔ allows s e ∧ Accepts step allows (step s e) events :=
  Iff.rfl

@[simp]
theorem accepts_append :
    Accepts step allows s (events ++ events') ↔
      Accepts step allows s events ∧ Accepts step allows (after step s events) events' := by
  induction events generalizing s
  case nil => simp
  case cons e events ih => simp [ih, and_assoc]

-- A monitor accepts events if and only if it allows each of them in the state after those before it.
theorem accepts_iff :
    Accepts step allows s events ↔
      ∀ before e rest, events = before ++ e :: rest → allows (after step s before) e := by
  constructor
  · rintro h before e rest rfl
    exact ((accepts_cons).mp ((accepts_append).mp h).2).1
  · intro h
    induction events generalizing s
    case nil => trivial
    case cons e events ih =>
      refine ⟨h [] e events rfl, ih fun before e' rest heq => ?_⟩
      exact h (e :: before) e' rest (by rw [heq]; rfl)

-- What is accepted in a state is accepted in one that allows at least as much and keeps doing so.
theorem accepts_of_simulates {r : σ → σ → Prop} (hstep : ∀ s s', r s s' → ∀ e, r (step s e) (step s' e))
    (hallows : ∀ s s', r s s' → ∀ e, allows s e → allows s' e) {s s' : σ} (h : r s s')
    (haccepts : Accepts step allows s events) :
    Accepts step allows s' events ∧ r (after step s events) (after step s' events) := by
  induction events generalizing s s'
  case nil              => exact ⟨trivial, h⟩
  case cons e events ih =>
    obtain ⟨hallowed, hevents⟩ := haccepts
    obtain ⟨haccepts', hr⟩ := ih (hstep s s' h e) hevents
    exact ⟨⟨hallows s s' h e hallowed, haccepts'⟩, hr⟩

end Monitor
