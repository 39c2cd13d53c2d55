import GcrModel.Library.Transition

-- gcr-ssh-agent-process.c: the ssh-agent that service threads connect to.
namespace SshAgentProcess

open Transition (Outcome)

-- A source of the main loop, and how many times it was removed.
structure Watch where
  active  : Bool := false
  removed : Nat := 0

def Watch.remove (w : Watch) : Watch :=
  ⟨false, w.removed + 1⟩

-- A child that was spawned, whether its own output was ever readable, and how many times its output was closed here.
structure Child where
  pid       : Nat := 0
  alive     : Bool := false
  announced : Bool := false
  closed    : Nat := 0
  output    : Watch := {}
  watch     : Watch := {}

-- The output and the watches are known by the child that they belong to. A thread that waits has a timeout, which may
-- be over.
structure State where
  pid       : Nat := 0
  output    : Option Nat := none
  outputId  : Option Nat := none
  childId   : Option Nat := none
  ready     : Bool := false
  children  : Nat → Child := fun _ => {}
  spawned   : Nat := 0
  waiting   : Nat → Option Bool := fun _ => none
  finalized : Bool := false

def State.setChild (s : State) (k : Nat) (child : Child) : State :=
  { s with children := Function.update s.children k child }

-- What a call comes to.
inductive Result
  | spawnFailed
  | waiting
  | refused
  | attempted
  deriving DecidableEq

def agentStartInlock (s : State) (pid : Nat) : State :=
  { s.setChild s.spawned { pid := pid, alive := true, output := ⟨true, 0⟩, watch := ⟨true, 0⟩ } with
    ready    := false
    output   := some s.spawned
    outputId := some s.spawned
    pid      := pid
    childId  := some s.spawned
    spawned  := s.spawned + 1 }

-- A source goes away when its callback returns FALSE.
def onOutputWatch (s : State) (k : Nat) (readable hangUp failed : Bool) : State :=
  let child := s.children k
  let output := if hangUp || failed then child.output.remove else child.output
  { s.setChild k { child with announced := child.announced || readable, output := output } with
    ready := s.ready || readable }

def onChildWatch (s : State) (k : Nat) : State :=
  let child := s.children k
  let s := s.setChild k { child with watch := child.watch.remove }
  if child.pid ≠ s.pid then s else { s with pid := 0, outputId := none, childId := none }

-- The end of `gcr_ssh_agent_process_connect`.
def State.proceed (s : State) : Result :=
  if s.ready then .attempted else .refused

-- `gcr_ssh_agent_process_connect` up to the loop, where a new child is not ready.
def gcrSshAgentProcessConnect (s : State) (t : Nat) (spawn : Option Nat) : Result × State :=
  if s.pid = 0 then
    match spawn with
    | none     => (.spawnFailed, s)
    | some pid => (.waiting, { agentStartInlock s pid with waiting := Function.update s.waiting t (some false) })
  else (s.proceed, s)

-- The loop with the lock held again.
def wake (s : State) (t : Nat) (timedout : Bool) : Result × State :=
  if s.pid ≠ 0 ∧ s.ready = false ∧ timedout = false then (.waiting, s)
  else (s.proceed, { s with waiting := Function.update s.waiting t none })

def State.close (s : State) : State :=
  match s.output with
  | none   => s
  | some k => s.setChild k { s.children k with closed := (s.children k).closed + 1 }

def State.removeOutput (s : State) : State :=
  match s.outputId with
  | none   => s
  | some k => s.setChild k { s.children k with output := (s.children k).output.remove }

def State.removeChild (s : State) : State :=
  match s.childId with
  | none   => s
  | some k => s.setChild k { s.children k with watch := (s.children k).watch.remove }

def gcrSshAgentProcessFinalize (s : State) : State :=
  { s.close.removeOutput.removeChild with finalized := true }

-- The pid that a spawn gives, if it does not fail; what `poll` reports of an output, and whether it cannot be read.
inductive Event
  | connect (t : Nat) (spawn : Option Nat)
  | wake (t : Nat)
  | timeout (t : Nat)
  | output (k : Nat) (readable hangUp failed : Bool)
  | exit (k : Nat)
  | childWatch (k : Nat)
  | finalize

def after (s : State) (e : Event) : Outcome (State × Option Result) :=
  if s.finalized then
    match e with
    | .output k _ _ _ => if (s.children k).output.active then .aborted else .refused
    | _               => .refused
  else
    match e with
    | .connect t spawn =>
      if (s.waiting t).isSome then .refused
      else
        let (result, s) := gcrSshAgentProcessConnect s t spawn
        .ok (s, some result)
    | .wake t          =>
      match s.waiting t with
      | none          => .refused
      | some timedout =>
        let (result, s) := wake s t timedout
        .ok (s, some result)
    | .timeout t       =>
      if (s.waiting t).isSome then .ok ({ s with waiting := Function.update s.waiting t (some true) }, none) else .refused
    | .output k readable hangUp failed =>
      if (s.children k).output.active then .ok (onOutputWatch s k readable hangUp failed, none) else .refused
    | .exit k          =>
      if (s.children k).alive then .ok (s.setChild k { s.children k with alive := false }, none) else .refused
    | .childWatch k    =>
      if (s.children k).watch.active && !(s.children k).alive then .ok (onChildWatch s k, none) else .refused
    | .finalize        => .ok (gcrSshAgentProcessFinalize s, none)

-- A pid is not 0, and a thread in a call has a reference.
def Event.Given (s : State) : Event → Prop
  | .connect _ (some pid) => pid ≠ 0
  | .finalize             => ∀ t, s.waiting t = none
  | _                     => True

def Step (s : State) (e : Event × Option Result) (s' : State) : Prop :=
  e.1.Given s ∧ after s e.1 = .ok (s', e.2)

def Run : List (State × (Event × Option Result) × State) → State → Prop :=
  Transition.Run (· = {}) Step

-- The child that was spawned last.
def State.last (s : State) : Child :=
  s.children (s.spawned - 1)

-- A child is only taken for ready where it announced it itself.
def State.Announced (s : State) : Prop :=
  s.pid ≠ 0 → s.ready → s.last.announced

structure Correct (s : State) (e : Event × Option Result) (s' : State) : Prop where
  single    : ∀ k k', (s'.children k).alive → (s'.children k').alive → k = k'
  announced : s'.Announced
  attempts  : e.2 = some .attempted → s.pid ≠ 0 ∧ s.last.announced
  -- A thread waits for the child as long as it is not ready, has not exited and the timeout is not over.
  patient   : ∀ t spawn, e = (.connect t spawn, some .refused) → ∀ t', s.waiting t' ≠ some false
  restarts  : ∀ t spawn, e.1 = .connect t spawn → (∀ k, (s.children k).alive = false) →
    e.2 = some .spawnFailed ∨ s'.spawned = s.spawned + 1
  once      : ∀ k, (s'.children k).closed ≤ 1 ∧ (s'.children k).output.removed ≤ 1 ∧ (s'.children k).watch.removed ≤ 1
  closed    : s'.finalized → ∀ k, k < s'.spawned → (s'.children k).closed = 1

-- The output of an earlier child is not readable before the present one is ready; no thread goes on when the child has
-- become ready and exited; a call is made when the child has not exited unnoticed, and while no thread waits for it; and
-- there was one child at most, whose output was still watched if it has not exited.
structure Regular (s : State) (e : Event) : Prop where
  output   : ∀ k hangUp failed, e = .output k true hangUp failed → s.pid ≠ 0 → k + 1 = s.spawned ∨ s.last.announced
  wake     : ∀ t, e = .wake t → s.ready → s.pid ≠ 0
  connect  : ∀ t spawn, e = .connect t spawn → s.pid ≠ 0 →
    s.last.alive ∧ (s.ready ∨ ∀ t', s.waiting t' ≠ some false)
  finalize : e = .finalize → s.spawned ≤ 1 ∧ ∀ k, s.outputId = some k → (s.children k).output.active

end SshAgentProcess
