import GcrModel.Library.Transition

-- The system prompter: which callbacks are registered, which wait, and which have a prompt.
namespace SystemPrompter

open Transition (Outcome)

inductive Mode
  | single
  | multiple
  deriving DecidableEq

structure Callback where
  path : String
  name : String
  deriving DecidableEq

-- A key of the hash table of the callbacks, with the watch of its name.
structure Registration where
  callback : Callback
  watch    : Nat
  deriving DecidableEq

structure ActivePrompt where
  callback  : Callback
  -- The cancellable of its operations
  cancelled : Bool
  ready     : Bool
  received  : Bool

-- What is outstanding for a prompt: a PromptReady call with its response, or the user.
inductive Operation
  | promptReady (response : String)
  | password
  | confirm
  deriving DecidableEq

-- An active prompt is known by its place in the list of all prompts, as it lives on while an operation
-- of it is outstanding.
structure State where
  mode       : Mode
  registered : Bool
  callbacks  : List Registration
  waiting    : List Registration
  active     : List (Callback × Nat)
  prompts    : List ActivePrompt
  pending    : List (Nat × Operation)
  watches    : Nat
  -- The registrations for which PromptDone was sent, and those for which a prompt was made.
  done       : List Nat
  started    : List Nat

def State.new (mode : Mode) : State where
  mode       := mode
  registered := true
  callbacks  := []
  waiting    := []
  active     := []
  prompts    := []
  pending    := []
  watches    := 1
  done       := []
  started    := []

-- The key of a callback, as `g_hash_table_lookup_extended` gives it.
def lookupCallback (s : State) (callback : Callback) : Option Registration :=
  s.callbacks.find? (·.callback = callback)

def lookupActive (s : State) (callback : Callback) : Option Nat :=
  s.active.lookup callback

def cancelUnlessReady (active : ActivePrompt) : ActivePrompt :=
  if active.ready then active else { active with cancelled := true }

-- `gcr_prompt_close` comes back to `on_prompt_close`, which does not find the callback any more.
def promptStopPrompting (s : State) (callback : Callback) (sendDoneMessage : Bool) : State :=
  match lookupCallback s callback with
  | none              => s
  | some origCallback =>
    let s := { s with
      callbacks := s.callbacks.filter (·.callback ≠ callback)
      waiting   := s.waiting.erase origCallback }
    let s :=
      match lookupActive s callback with
      | none    => s
      | some id => { s with
        active  := s.active.filter (·.1 ≠ callback)
        prompts := s.prompts.modify id cancelUnlessReady }
    if sendDoneMessage then { s with done := origCallback.watch :: s.done } else s

-- The call is not made where there is no connection.
def promptSendReady (s : State) (id : Nat) (response : String) : Option State :=
  match s.prompts[id]? with
  | none        => none
  | some active =>
    if active.ready then none
    else if s.registered then some { s with pending := (id, .promptReady response) :: s.pending }
    else some s

-- `created` is whether `new-prompt` gives a prompt.
def promptNextReady (s : State) (created : Bool) : Option State :=
  if s.mode = .single ∧ 0 < s.active.length then some s
  else
    match s.waiting with
    | []                  => some s
    | callback :: waiting =>
      match lookupActive s callback.callback with
      | some _ => none
      | none   =>
        if created then
          promptSendReady { s with
            waiting := waiting
            active  := (callback.callback, s.prompts.length) :: s.active
            prompts := s.prompts ++ [⟨callback.callback, false, false, false⟩]
            started := callback.watch :: s.started } s.prompts.length ""
        else some { s with waiting := waiting }

def onCallerVanished (s : State) (name : String) : State :=
  (s.callbacks.filter (·.callback.name = name)).foldl (fun s r => promptStopPrompting s r.callback false) s

def prompterMethodBeginPrompting (s : State) (callback : Callback) (created : Bool) : Option State :=
  match lookupCallback s callback with
  | some _ => some s
  | none   =>
    promptNextReady { s with
      callbacks := ⟨callback, s.watches⟩ :: s.callbacks
      waiting   := s.waiting ++ [⟨callback, s.watches⟩]
      watches   := s.watches + 1 } created

-- `valid` is whether the secret exchange takes what was received.
def prompterMethodPerformPrompt (s : State) (callback : Callback) (type : String) (valid : Bool) : State :=
  match lookupActive s callback with
  | none    => s
  | some id =>
    match s.prompts[id]? with
    | none        => s
    | some active =>
      if active.ready && valid then
        if type = "confirm" then
          { s with
            prompts := s.prompts.set id { active with ready := false, received := true }
            pending := (id, .confirm) :: s.pending }
        else if type = "password" then
          { s with
            prompts := s.prompts.set id { active with ready := false, received := true }
            pending := (id, .password) :: s.pending }
        else { s with prompts := s.prompts.set id { active with received := true } }
      else s

def prompterMethodStopPrompting (s : State) (callback : Callback) (created : Bool) : Option State :=
  promptNextReady (promptStopPrompting s callback true) created

inductive Result
  | success
  | error
  | cancelled
  deriving DecidableEq

-- An operation whose cancellable is cancelled finishes with `G_IO_ERROR_CANCELLED`, whatever it came to.
def onPromptReadyComplete (s : State) (id : Nat) (result : Result) (created : Bool) : Option State :=
  match s.prompts[id]? with
  | none        => none
  | some active =>
    if active.ready then none
    else
      let s := { s with prompts := s.prompts.set id { active with ready := true } }
      let result := if active.cancelled then .cancelled else result
      if result = .cancelled ∧ active.cancelled then some s
      else if result ≠ .success then promptNextReady (promptStopPrompting s active.callback false) created
      else some s

-- What the user answers
inductive Answer
  | password (reply : Option String)
  | confirm (reply : Option Bool)

def Answer.operation : Answer → Operation
  | password _ => .password
  | confirm _  => .confirm

def Answer.response : Answer → String
  | password none        => "no"
  | password (some _)    => "yes"
  | confirm (some true)  => "yes"
  | confirm (some false) => "no"
  | confirm none         => ""

-- `on_prompt_password` and `on_prompt_confirm`
def onPromptAnswer (s : State) (id : Nat) (answer : Answer) : Option State :=
  match s.prompts[id]? with
  | none        => none
  | some active => if active.ready then none else promptSendReady s id answer.response

def gcrSystemPrompterUnregister (s : State) : Option State :=
  let s := s.callbacks.foldl (fun s r => promptStopPrompting s r.callback true) s
  if s.active.isEmpty && s.callbacks.isEmpty && s.waiting.isEmpty then some { s with registered := false }
  else none

inductive Event
  | beginPrompting (callback : Callback) (created : Bool)
  | performPrompt (callback : Callback) (type : String) (valid : Bool)
  | stopPrompting (callback : Callback) (created : Bool)
  | callerVanished (name : String)
  | promptClose (callback : Callback)
  | promptReady (id : Nat) (response : String) (result : Result) (created : Bool)
  | answer (id : Nat) (answer : Answer)
  | unregister
  | register

def after (s : State) : Event → Outcome State
  | .beginPrompting callback created =>
    if s.registered then .ofOption (prompterMethodBeginPrompting s callback created) else .refused
  | .performPrompt callback type valid =>
    if s.registered then .ok (prompterMethodPerformPrompt s callback type valid) else .refused
  | .stopPrompting callback created =>
    if s.registered then .ofOption (prompterMethodStopPrompting s callback created) else .refused
  | .callerVanished name => .ok (onCallerVanished s name)
  | .promptClose callback =>
    if (lookupActive s callback).isSome then .ok (promptStopPrompting s callback true) else .refused
  | .promptReady id response result created =>
    if (id, .promptReady response) ∈ s.pending then
      .ofOption (onPromptReadyComplete { s with pending := s.pending.erase (id, .promptReady response) } id result created)
    else .refused
  | .answer id answer =>
    if (id, answer.operation) ∈ s.pending then
      .ofOption (onPromptAnswer { s with pending := s.pending.erase (id, answer.operation) } id answer)
    else .refused
  | .unregister => if s.registered then .ofOption (gcrSystemPrompterUnregister s) else .refused
  | .register   => if s.registered then .refused else .ok { s with registered := true }

def Step (s : State) (e : Event) (s' : State) : Prop :=
  after s e = .ok s'

def Run (mode : Mode) : List (State × Event × State) → State → Prop :=
  Transition.Run (· = State.new mode) Step

end SystemPrompter
