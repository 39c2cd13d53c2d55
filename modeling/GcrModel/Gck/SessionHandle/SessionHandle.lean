import GcrModel.Library.Transition

-- gck-session.c, gck-slot.c and gck-enumerator.c: who opens sessions, refers to them and gives their handles back.
namespace SessionHandle

open Transition (Outcome)

-- A session that is not referred to is finalized.
structure Session where
  handle    : Nat := 0
  loginUser : Bool := false
  discarded : Bool := false
  refs      : Nat := 0

-- The arguments of a call that initializes a session, and what its thread returned.
structure OpenSession where
  session   : Nat
  autoLogin : Bool
  result    : Option Bool := none

-- What a reference is held by: the application (or an object that it has), a task, or an enumerator for its
-- session and for each of its results.
inductive Holder
  | app
  | task
  | session (enumerator : Nat)
  | found (enumerator : Nat)
  | results (enumerator : Nat)
  deriving DecidableEq

-- What happens to a handle: `C_OpenSession` returns it or a session is made from it, and it is given to the
-- handlers of discard-handle.
inductive Change
  | gained (handle : Nat)
  | discarded (handle : Nat)

structure State where
  sessions   : Nat → Session := fun _ => {}
  created    : Nat := 0
  calls      : Nat → Option OpenSession := fun _ => none
  references : List (Holder × Nat) := []
  changes    : List Change := []

def State.setSession (s : State) (i : Nat) (session : Session) : State :=
  { s with sessions := Function.update s.sessions i session }

-- `g_object_ref`
def State.ref (s : State) (holder : Holder) (i : Nat) : State :=
  { s.setSession i { s.sessions i with refs := (s.sessions i).refs + 1 } with references := (holder, i) :: s.references }

-- A reference that is taken over.
def State.pass (s : State) (holder holder' : Holder) (i : Nat) : State :=
  { s with references := (holder', i) :: s.references.erase (holder, i) }

def gckSessionDispose (s : State) (i : Nat) : State :=
  let self := s.sessions i
  if self.handle ≠ 0 ∧ !self.discarded then
    { s.setSession i { self with discarded := true } with changes := s.changes ++ [.discarded self.handle] }
  else s

def gckSessionFinalize (s : State) (i : Nat) : Outcome State :=
  let self := s.sessions i
  if self.handle = 0 ∨ self.discarded then .ok (s.setSession i { self with refs := 0 }) else .aborted

-- `g_object_unref`, which must not find a session that is finalized.
def gObjectUnref (s : State) (i : Nat) : Outcome State :=
  match (s.sessions i).refs with
  | 0     => .aborted
  | 1     => gckSessionFinalize (gckSessionDispose s i) i
  | n + 2 => .ok (s.setSession i { s.sessions i with refs := n + 1 })

def State.unref (s : State) (holder : Holder) (i : Nat) : Outcome State :=
  gObjectUnref { s with references := s.references.erase (holder, i) } i

-- What the module answers: the handle that `C_OpenSession` returns if it succeeds, and whether the login does.
structure Answers where
  opened : Option Nat
  login  : Bool

-- Whether the call succeeds, with `args->session`.
def performOpenSession (session : Nat) (autoLogin : Bool) (answers : Answers) : Bool × Nat :=
  -- First step, open session
  let (ok, session) :=
    if session = 0 then
      match answers.opened with
      | none   => (false, 0)
      | some h => (true, h)
    else (true, session)
  if !ok || !autoLogin then (ok, session) else (answers.login, session)

-- A handle is new where there was none before.
def State.gain (s : State) (before after : Nat) : State :=
  if before = 0 ∧ after ≠ 0 then { s with changes := s.changes ++ [.gained after] } else s

-- `g_object_new`
def State.create (s : State) (handle : Nat) (loginUser : Bool) (holder : Holder) : State :=
  State.gain
    { s with
      sessions   := Function.update s.sessions s.created { handle := handle, loginUser := loginUser, refs := 1 }
      created    := s.created + 1
      references := (holder, s.created) :: s.references } 0 handle

-- `gck_session_initable_init`, with the reference that `g_initable_new` gives back where it fails.
def initableInit (s : State) (i : Nat) (cancelled : Bool) (answers : Answers) : Outcome State :=
  let self := s.sessions i
  if self.handle ≠ 0 ∧ !self.loginUser then .ok s
  else if cancelled then s.unref .app i
  else
    let (ok, session) := performOpenSession self.handle self.loginUser answers
    let s := s.gain self.handle session
    if ok then .ok (s.setSession i { self with handle := session }) else s.unref .app i

-- `gck_session_initable_init_async`
def initableInitAsync (s : State) (i : Nat) : State :=
  let self := s.sessions i
  let result := if self.handle ≠ 0 ∧ !self.loginUser then some true else none
  { s with calls := Function.update s.calls i (some ⟨self.handle, self.loginUser, result⟩) }

def openSessionThread (s : State) (i : Nat) (call : OpenSession) (cancelled : Bool) (answers : Answers) : State :=
  if cancelled then { s with calls := Function.update s.calls i (some { call with result := some false }) }
  else
    let (ok, session) := performOpenSession call.session call.autoLogin answers
    { s.gain call.session session with
      calls := Function.update s.calls i (some { call with session := session, result := some ok }) }

-- `gck_session_initable_init_finish`. The task and its arguments go away, and where it succeeded
-- `g_async_initable_new_finish` returns a reference.
def initableInitFinish (s : State) (i : Nat) (call : OpenSession) (ok cancelled : Bool) : Outcome State :=
  let s := { s with calls := Function.update s.calls i none }
  if ok && !cancelled then .ok ((s.setSession i { s.sessions i with handle := call.session }).pass .task .app i)
  else s.unref .task i

inductive Event
  -- `gck_session_open` and `gck_slot_open_session`, or `g_initable_new` with a handle.
  | openSession (handle : Nat) (loginUser cancelled : Bool) (answers : Answers)
  | openSessionAsync (handle : Nat) (loginUser : Bool)
  | thread (i : Nat) (cancelled : Bool) (answers : Answers)
  -- `gck_slot_open_session_finish` gives the reference up where it is cancelled.
  | openSessionFinish (i : Nat) (cancelled : Bool)
  | fromHandle (handle : Nat)
  | ref (i : Nat)
  | unref (i : Nat)
  -- The enumerator `k`.
  | enumerateSession (k i : Nat)
  | stateSlot (k : Nat) (opened : Option Nat)
  | stateFind (k i : Nat)
  | stateResults (k i : Nat) (read : Bool)
  | stateSessionBackward (k i : Nat)
  | extractResult (k i : Nat)
  | resultFree (k i : Nat) (found : Bool)

def State.has (s : State) (holder : Holder) (i : Nat) (o : Outcome State) : Outcome State :=
  if (holder, i) ∈ s.references then o else .refused

-- An event is refused where the one that makes it does not hold a reference.
def after (s : State) : Event → Outcome State
  | .openSession handle loginUser cancelled answers =>
    initableInit (s.create handle loginUser .app) s.created cancelled answers
  | .openSessionAsync handle loginUser => .ok (initableInitAsync (s.create handle loginUser .task) s.created)
  | .thread i cancelled answers        =>
    match s.calls i with
    | none      => .refused
    | some call =>
      match call.result with
      | some _ => .refused
      | none   => .ok (openSessionThread s i call cancelled answers)
  | .openSessionFinish i cancelled     =>
    match s.calls i with
    | none      => .refused
    | some call =>
      match call.result with
      | none    => .refused
      | some ok => initableInitFinish s i call ok cancelled
  | .fromHandle handle         => .ok (s.create handle false .app)
  | .ref i                     => s.has .app i (.ok (s.ref .app i))
  | .unref i                   => s.has .app i (s.unref .app i)
  | .enumerateSession k i      =>
    if ∃ r ∈ s.references, r.1 = .session k then .refused else s.has .app i (.ok (s.ref (.session k) i))
  | .stateSlot k opened        =>
    if ∃ r ∈ s.references, r.1 = .session k then .refused
    else
      match opened with
      | none   => .ok s
      | some h => .ok (s.create h false (.session k))
  | .stateFind k i             => s.has (.session k) i (.ok (s.ref (.found k) i))
  | .stateResults k i read     =>
    s.has (.found k) i (if read then .ok (s.pass (.found k) (.results k) i) else s.unref (.found k) i)
  | .stateSessionBackward k i  => s.has (.session k) i (s.unref (.session k) i)
  | .extractResult k i         => s.has (.results k) i ((s.ref .app i).unref (.results k) i)
  | .resultFree k i found      =>
    let holder := if found then .found k else .results k
    s.has holder i (s.unref holder i)

-- A handle that a session object has, or a call in its arguments.
def State.Uses (s : State) (h : Nat) : Prop :=
  ∃ i, (0 < (s.sessions i).refs ∧ (s.sessions i).handle = h) ∨ ∃ call ∈ s.calls i, call.session = h

-- What PKCS#11 says of the handle of a new session.
def State.Fresh (s : State) (opened : Option Nat) : Prop :=
  ∀ h ∈ opened, h ≠ 0 ∧ ¬s.Uses h

def Event.opened : Event → Option Nat
  | .openSession _ _ _ answers => answers.opened
  | .thread _ _ answers        => answers.opened
  | .stateSlot _ opened        => opened
  | _                          => none

def Step (s : State) (e : Event) (s' : State) : Prop :=
  s.Fresh e.opened ∧ after s e = .ok s'

def Run : List (State × Event × State) → State → Prop :=
  Transition.Run (· = {}) Step

-- The handles that were gained and not discarded.
def Change.follow (held : Nat → Bool) : Change → Nat → Bool
  | .gained h    => Function.update held h true
  | .discarded h => Function.update held h false

def held (changes : List Change) : Nat → Bool :=
  Monitor.after Change.follow (fun _ => false) changes

def Change.allowed (held : Nat → Bool) : Change → Prop
  | .gained _    => True
  | .discarded h => held h

-- The handles that are held are those in use, no handle is discarded that is not held, and no assertion fails.
structure Kept (s : State) : Prop where
  held    : ∀ h, h ≠ 0 → (held s.changes h ↔ s.Uses h)
  once    : Monitor.Accepts Change.follow Change.allowed (fun _ => false) s.changes
  asserts : ∀ e, after s e ≠ .aborted

-- Sessions are made from handles that no session uses.
def Wraps (s : State) : Event → Prop
  | .openSession handle _ _ _    => handle ≠ 0 → ¬s.Uses handle
  | .openSessionAsync handle _   => handle ≠ 0 → ¬s.Uses handle
  | .fromHandle handle           => handle ≠ 0 → ¬s.Uses handle
  | _                            => True

-- No call fails after it has opened a session.
def Regular (s : State) : Event → Prop
  | .openSession handle loginUser cancelled answers =>
    handle = 0 → !cancelled → answers.opened.isSome → loginUser → answers.login
  | .openSessionFinish i cancelled                  =>
    ∀ call ∈ s.calls i, call.session ≠ (s.sessions i).handle → call.result = some true ∧ !cancelled
  | _                                               => True

end SessionHandle
