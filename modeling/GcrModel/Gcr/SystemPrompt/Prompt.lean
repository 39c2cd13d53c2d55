import GcrModel.GLib.Strings
import GcrModel.Library.Transition

-- gcr-system-prompt.c: one prompt with its operations, the main loop and the prompter.
namespace SystemPrompt

open GLib
open Transition (Outcome)

-- `GCR_DBUS_PROMPT_REPLY_YES`
def replyYes : Bytes := ascii ['y', 'e', 's']

-- `GCR_DBUS_PROMPT_REPLY_NO`
def replyNo : Bytes := ascii ['n', 'o']

-- `GCR_DBUS_PROMPT_REPLY_NONE`
def replyNone : Bytes := []

inductive Kind
  | init
  | password
  | confirm
  | close
  deriving DecidableEq

-- A call that a result is passed to.
inductive Flight
  | busGet
  | beginPrompting
  | performPrompt
  | stopPrompting
  deriving DecidableEq

-- The result of an operation with its closure: how often its callback was called and is scheduled to be called, its
-- sources, whether an error was set, whether the callback keeps a reference and how many it has, and all references.
structure Op where
  kind      : Kind := .init
  keeps     : Bool := false
  calls     : Nat := 0
  idles     : Nat := 0
  flight    : Option Flight := none
  waiting   : Bool := false
  timeout   : Bool := false
  watch     : Bool := false
  cancelled : Bool := false
  failed    : Bool := false
  held      : Nat := 0
  refs      : Nat := 0

-- The pointers that are only compared to NULL are whether they are not. The prompts that were begun and stopped with the
-- prompter are counted.
structure State where
  timeoutSeconds : Int := -1
  received       : Bool := false
  secret         : Option Bytes := none
  connection     : Bool := false
  begunPrompting : Bool := false
  closed         : Bool := false
  registered     : Bool := false
  promptPath     : Bool := true
  promptOwner    : Bool := false
  pending        : Option Nat := none
  lastResponse   : Option Bytes := none
  ops            : Nat → Op := fun _ => {}
  next           : Nat := 0
  begun          : Nat := 0
  stopped        : Nat := 0
  aborted        : Bool := false

def State.modify (s : State) (i : Nat) (f : Op → Op) : State :=
  { s with ops := Function.update s.ops i (f (s.ops i)) }

def Op.unref (op : Op) : Op :=
  { op with refs := op.refs - 1 }

-- `g_simple_async_result_complete`
def Op.complete (op : Op) : Op :=
  { op with calls := op.calls + 1, held := op.held + op.keeps.toNat, refs := op.refs + op.keeps.toNat }

-- `g_simple_async_result_complete_in_idle`
def Op.completeInIdle (op : Op) : Op :=
  { op with idles := op.idles + 1, refs := op.refs + 1 }

def Op.call (op : Op) (flight : Flight) : Op :=
  { op with flight := some flight, refs := op.refs + 1 }

def State.new (s : State) (op : Op) : State :=
  { s.modify s.next (fun _ => { op with refs := 1 }) with next := s.next + 1 }

-- What is done with the pending result.
def closePending (s : State) : State :=
  match s.pending with
  | none     => s
  | some res => { s.modify res fun op => { op.completeInIdle.unref with cancelled := true } with pending := none }

-- The signal for a prompt that was not closed finds it closed.
def performClose (s : State) (async : Option Nat) : State :=
  let s := closePending { s with closed := true }
  let called := s.begunPrompting && s.connection && s.promptPath && s.promptOwner
  let s := { s with
    registered     := false
    begunPrompting := false
    promptPath     := false
    connection     := false
    stopped        := s.stopped + called.toNat }
  match async with
  | none   => s
  | some i => if called then s.modify i (·.call .stopPrompting) else s.modify i Op.completeInIdle

-- Without a callback in the calls of the prompt itself.
def gcrSystemPromptCloseAsync (s : State) (keeps : Bool) : State :=
  let i := s.next
  let s := s.new { kind := .close, keeps := keeps }
  (performClose s (some i)).modify i Op.unref

-- `gcr_system_prompt_real_close`
def realClose (s : State) : State :=
  if s.closed then s else performClose { s with closed := true } none

def performInitAsync (s : State) (i : Nat) : Outcome State :=
  if s.connection = false then .ok (s.modify i (·.call .busGet))
  else if s.begunPrompting = false then
    if s.promptPath = false then .aborted else .ok (s.modify i (·.call .beginPrompting))
  else if s.pending = none then
    if (0 < s.timeoutSeconds ∧ (s.ops i).timeout = true) ∨ (s.ops i).waiting = true then .aborted
    else .ok { s.modify i fun op => { op with
        timeout := op.timeout || 0 < s.timeoutSeconds
        waiting := true
        refs    := op.refs + 1 } with
      pending := some i }
  else .aborted

def Outcome.bind {α β : Type} (f : α → Outcome β) : Outcome α → Outcome β
  | .refused => .refused
  | .aborted => .aborted
  | .ok a    => f a

-- A last reference that is given up after the step.
def Outcome.unref (i : Nat) : Outcome State → Outcome State :=
  Outcome.bind fun s => .ok (s.modify i Op.unref)

-- `gcr_system_prompt_real_init_async`
def realInitAsync (s : State) (keeps : Bool) : Outcome State :=
  Outcome.unref s.next (performInitAsync (s.new { kind := .init, keeps := keeps }) s.next)

-- An object without a path is not registered, which is no error.
def onBusConnected (s : State) (i : Nat) (connected registers : Bool) : Outcome State :=
  let s := s.modify i fun op => { op with flight := none }
  if s.connection = true then .aborted
  else if connected = false then .ok (s.modify i fun op => { op with failed := true }.complete.unref)
  else
    let s : State := { s.modify i fun op => { op with watch := true } with
      connection := true
      registered := s.promptPath && registers }
    if s.promptPath = true ∧ registers = false then .ok (s.modify i fun op => { op with failed := true }.complete.unref)
    else Outcome.unref i (performInitAsync s i)

-- The reply of a prompter on a connection that is gone is not looked at and is no error.
def onPrompterBeginPrompting (s : State) (i : Nat) (ok : Bool) : Outcome State :=
  let s := { s.modify i fun op => { op with flight := none } with begun := s.begun + ok.toNat }
  if ok = true ∨ s.connection = false then
    let s := { s with begunPrompting := true }
    if s.promptPath = false then .ok s else Outcome.unref i (performInitAsync s i)
  else .ok (s.modify i fun op => { op with failed := true }.complete.unref)

def onCallTimeout (s : State) (i : Nat) : State :=
  let s := gcrSystemPromptCloseAsync (s.modify i fun op => { op with timeout := false }) false
  s.modify i fun op => { op with failed := true }.complete

def onCallCancelled (s : State) (i : Nat) : State :=
  gcrSystemPromptCloseAsync (s.modify i fun op => { op with waiting := false, failed := true }) false

def onPrompterPresent (s : State) : State :=
  { s with promptOwner := true }

def onPrompterVanished (s : State) (i : Nat) : State :=
  if s.promptOwner = true then { s.modify i fun op => { op with cancelled := true } with promptOwner := false } else s

def onPerformPromptComplete (s : State) (i : Nat) (ok : Bool) : Outcome State :=
  let s := s.modify i fun op => { op with flight := none }
  if ok = false then .ok { s.modify i fun op => { op with failed := true }.complete.unref with pending := none }
  else if (s.ops i).waiting = true then .aborted
  else .ok (s.modify i fun op => { op.unref with waiting := true })

-- Where an operation is pending there is a warning, and no result for the one that is started. The functions on a connection
-- that is NULL do nothing, with the reference for the call taken.
def performPromptAsync (s : State) (kind : Kind) (keeps registers : Bool) : State :=
  if s.pending.isSome then { s.modify s.next (fun _ => { kind := kind, keeps := keeps }) with next := s.next + 1 }
  else
    let i := s.next
    let connected := s.connection
    let s := s.new { kind := kind, keeps := keeps }
    if s.closed = true then
      { s.modify i (·.completeInIdle.unref) with lastResponse := some replyNone }
    else
      { s.modify i fun op => { op with
          watch  := connected
          flight := if connected then some .performPrompt else none
          refs   := op.refs + 1 } with
        secret     := if s.received then s.secret else none
        registered := connected && registers
        pending    := some i }

-- The response of the prompter, with the secret where its exchange can be read.
def promptMethodReady (s : State) (response : Bytes) (exchange : Option (Option Bytes)) : State :=
  match s.pending with
  | none     => s
  | some res =>
    { s.modify res (·.complete.unref) with
      lastResponse := some response
      received     := s.received || exchange.isSome
      secret       := exchange.getD s.secret
      pending      := none }

def promptMethodDone (s : State) : State :=
  performClose { s with begunPrompting := false } none

inductive Reply
  | cancel
  | proceed
  deriving DecidableEq

def handleLastResponse (s : State) : Reply :=
  match s.lastResponse with
  | none          => .cancel
  | some response =>
    if response = replyYes then .proceed
    else if response = replyNo ∨ response = replyNone then .cancel
    else .cancel

-- `gcr_system_prompt_password_finish`
def passwordFinish (s : State) (i : Nat) : Option Bytes :=
  if (s.ops i).failed = true then none
  else if handleLastResponse s = .proceed then s.secret
  else none

-- `gcr_system_prompt_confirm_finish`
def confirmFinish (s : State) (i : Nat) : Reply :=
  if (s.ops i).failed = true then .cancel else handleLastResponse s

inductive Event
  | init (keeps : Bool)
  | busConnected (i : Nat) (connected registers : Bool)
  | beginPrompting (i : Nat) (ok : Bool)
  | password (keeps registers : Bool)
  | confirm (keeps registers : Bool)
  | performPrompt (i : Nat) (ok : Bool)
  | ready (response : Bytes) (exchange : Option (Option Bytes))
  | done
  | present (i : Nat)
  | vanished (i : Nat)
  | timeout (i : Nat)
  -- The caller cancels an operation, and the source for this is noticed.
  | cancel (i : Nat)
  | cancelled (i : Nat)
  | close (keeps : Bool)
  -- `gcr_prompt_close`
  | promptClose
  | stopPrompting (i : Nat)
  | idle (i : Nat)
  | unref (i : Nat)

def when (c : Prop) [Decidable c] (o : Outcome State) : Outcome State :=
  if c then o else .refused

-- Sources and watches are there until the last reference is given up.
def after (s : State) : Event → Outcome State
  | .init keeps                         => realInitAsync s keeps
  | .busConnected i connected registers =>
    when ((s.ops i).flight = some .busGet) (onBusConnected s i connected registers)
  | .beginPrompting i ok                =>
    when ((s.ops i).flight = some .beginPrompting) (onPrompterBeginPrompting s i ok)
  | .password keeps registers           => .ok (performPromptAsync s .password keeps registers)
  | .confirm keeps registers            => .ok (performPromptAsync s .confirm keeps registers)
  | .performPrompt i ok                 =>
    when ((s.ops i).flight = some .performPrompt) (onPerformPromptComplete s i ok)
  | .ready response exchange            => when (s.registered = true) (.ok (promptMethodReady s response exchange))
  | .done                               => when (s.registered = true) (.ok (promptMethodDone s))
  | .present i                          =>
    when ((s.ops i).watch = true ∧ 0 < (s.ops i).refs) (.ok (onPrompterPresent s))
  | .vanished i                         =>
    when ((s.ops i).watch = true ∧ 0 < (s.ops i).refs) (.ok (onPrompterVanished s i))
  | .timeout i                          =>
    when ((s.ops i).timeout = true ∧ 0 < (s.ops i).refs) (.ok (onCallTimeout s i))
  | .cancel i                           =>
    when (i < s.next) (.ok (s.modify i fun op => { op with cancelled := true }))
  | .cancelled i                        =>
    when ((s.ops i).waiting = true ∧ (s.ops i).cancelled = true ∧ 0 < (s.ops i).refs) (.ok (onCallCancelled s i))
  | .close keeps                        => .ok (gcrSystemPromptCloseAsync s keeps)
  | .promptClose                        => .ok (realClose s)
  | .stopPrompting i                    =>
    when ((s.ops i).flight = some .stopPrompting) (.ok (s.modify i fun op => { op with flight := none }.complete.unref))
  | .idle i                             =>
    when (0 < (s.ops i).idles) (.ok (s.modify i fun op => { op with idles := op.idles - 1 }.complete.unref))
  | .unref i                            =>
    when (0 < (s.ops i).held) (.ok (s.modify i fun op => { op.unref with held := op.held - 1 }))

def Step (s : State) (e : Event) (s' : State) : Prop :=
  s.aborted = false ∧ (after s e = .ok s' ∨ after s e = .aborted ∧ s' = { s with aborted := true })

def Run : List (State × Event × State) → State → Prop :=
  Transition.Run (fun s => ∃ timeoutSeconds, s = { timeoutSeconds := timeoutSeconds }) Step

-- What a call that a result waits for can still complete.
def Flight.completes : Flight → Bool
  | .performPrompt => false
  | _              => true

-- The callback of an operation is scheduled, or will be when a call returns or when the prompter calls.
def State.Awaits (s : State) (i : Nat) : Prop :=
  0 < (s.ops i).idles ∨ (∃ flight, (s.ops i).flight = some flight ∧ flight.completes = true) ∨
    s.pending = some i ∧ s.connection = true ∧ s.registered = true

-- The references that a result should have.
def State.holders (s : State) (i : Nat) : Nat :=
  (decide (s.pending = some i)).toNat + (s.ops i).idles + (s.ops i).flight.isSome.toNat + (s.ops i).held

-- There is no answer of the user.
def State.Dismissed (s : State) (i : Nat) : Prop :=
  ((s.ops i).kind = .password → passwordFinish s i = none) ∧
    ((s.ops i).kind = .confirm → confirmFinish s i = .cancel)

-- No assertion fails, a callback is called at most once and is not forgotten, no reference is lost or given up twice, a
-- result is pending until its operation is completed, and what is completed when the prompt is closed has no answer.
structure Correct (s s' : State) : Prop where
  goes      : s'.aborted = false
  once      : ∀ i, (s'.ops i).calls + (s'.ops i).idles ≤ 1
  awaited   : ∀ i, i < s'.next → (s'.ops i).calls = 0 → s'.Awaits i
  released  : ∀ i, (s'.ops i).refs = s'.holders i
  pending   : ∀ i, s'.pending = some i → (s'.ops i).calls + (s'.ops i).idles = 0
  kept      : ∀ i, s.pending = some i → s'.pending = some i ∨ s'.pending = none
  stopped   : s'.stopped ≤ s'.begun
  dismissed : ∀ i, (s.ops i).calls < (s'.ops i).calls → s'.closed = true → s'.Dismissed i

-- No operation is pending while the prompt is being opened or another one is started, it is registered and not closed then,
-- no timeout is over and no PerformPrompt fails, and no answer is left from before when it is closed.
structure Regular (s : State) (e : Event) : Prop where
  init     : ∀ keeps, e = .init keeps → s.connection = true → s.begunPrompting = true → s.pending = none
  bus      : ∀ i connected registers, e = .busConnected i connected registers →
    s.connection = false ∧ (connected = true → s.closed = false)
  begins   : ∀ i ok, e = .beginPrompting i ok →
    s.connection = true ∧ (ok = true → s.pending = none ∧ s.registered = true)
  prompt   : ∀ keeps registers, e = .password keeps registers ∨ e = .confirm keeps registers → s.pending = none ∧
    (s.closed = false → s.connection = true ∧ registers = true)
  perform  : ∀ i ok, e = .performPrompt i ok → ok = true
  timeout  : ∀ i, e ≠ .timeout i
  password : ∀ i, e = .idle i → s.closed = true → (s.ops i).kind = .password →
    (s.ops i).failed = true ∨ s.lastResponse ≠ some replyYes ∨ s.secret = none
  confirm  : ∀ i, e = .idle i → s.closed = true → (s.ops i).kind = .confirm →
    (s.ops i).failed = true ∨ s.lastResponse ≠ some replyYes

end SystemPrompt
