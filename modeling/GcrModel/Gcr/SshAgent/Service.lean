import Mathlib.Data.Fintype.Basic
import GcrModel.Egg.Buffer.Buffer
import GcrModel.Library.Transition

-- gcr-ssh-agent-service.c: a thread for each client hands requests on to the ssh-agent and keeps a table of the keys
-- that it has.
namespace SshAgent

open GLib

inductive Operation
  | requestIdentities
  | signRequest
  | addIdentity
  | removeIdentity
  | removeAllIdentities
  | relayRequest
  deriving DecidableEq

-- The operation that handles a request.
def operation (req : Bytes) : Operation :=
  match EggBuffer.getByte req 4 with
  | some (11, _)                => .requestIdentities
  | some (13, _)                => .signRequest
  | some (17, _) | some (25, _) => .addIdentity
  | some (18, _)                => .removeIdentity
  | some (19, _)                => .removeAllIdentities
  | _                           => .relayRequest

-- The byte array that an operation takes for the key.
def requestKey (req : Bytes) : Option Bytes :=
  (EggBuffer.getByteArray req 5).map fun (blob, _) => blob.getD []

def parseIdentities (resp : Bytes) : Nat → Nat → Option (List Bytes)
  | _, 0              => some []
  | offset, count + 1 =>
    (EggBuffer.getByteArray resp offset).bind fun (blob, offset) =>
      (EggBuffer.getString resp offset).bind fun (_, offset) =>
        (parseIdentities resp offset count).map (blob.getD [] :: ·)

def parseIdentitiesAnswer (resp : Bytes) : Option (List Bytes) :=
  (EggBuffer.getByte resp 4).bind fun (op, offset) =>
    if op ≠ 12 then none
    else (EggBuffer.getUint32 resp offset).bind fun (count, offset) => parseIdentities resp offset count.toNat

-- `addKey`, `removeKey` and `clearKeys`, each of which locks the table once.
inductive KeyUpdate
  | addKey (key : Bytes)
  | removeKey (key : Bytes)
  | clearKeys
  deriving DecidableEq

def KeyUpdate.apply (keys : Finset Bytes) : KeyUpdate → Finset Bytes
  | addKey key    => insert key keys
  | removeKey key => keys.erase key
  | clearKeys     => ∅

-- What an operation does with the table once there is an answer.
def keyUpdates (req resp : Bytes) : List KeyUpdate :=
  match operation req with
  | .addIdentity         => ((requestKey req).map KeyUpdate.addKey).toList
  | .requestIdentities   => ((parseIdentitiesAnswer resp).getD []).map .addKey
  | .removeIdentity      => ((requestKey req).map KeyUpdate.removeKey).toList
  | .removeAllIdentities => [.clearKeys]
  | .signRequest         => []
  | .relayRequest        => []

-- Where the thread of a client is.
inductive Thread
  | reading
  | handling (req : Bytes)
  | loading (req : Bytes) (key : Bytes)
  | relaying (req : Bytes)
  -- What is left to do with the table, and the request that is relayed then, if it was not yet.
  | updating (todo : List KeyUpdate) (req : Option Bytes)

-- The ssh-agent with its keys. One that exited is still there until it is noticed.
inductive Process
  | none
  | running (held : Finset Bytes)
  | exited

def Process.held : Process → Finset Bytes
  | running held => held
  | none         => ∅
  | exited       => ∅

structure Service where
  keys    : Finset Bytes := ∅
  process : Process := .none
  -- The exits for which `onClosed` was not called yet.
  closed  : Nat := 0
  threads : Nat → Thread := fun _ => .reading

-- `handleRequest` up to the request to the ssh-agent. A key is loaded when there is a preloaded one.
def Thread.handle (keys : Finset Bytes) (preloaded : Bool) (req : Bytes) : Thread :=
  match operation req, requestKey req with
  | .signRequest, some key => if key ∈ keys ∨ ¬preloaded then relaying req else loading req key
  | _, _                   => relaying req

def Service.setThread (s : Service) (i : Nat) (t : Thread) : Service :=
  { s with threads := Function.update s.threads i t }

-- The ssh-agent only changes its keys for requests that it answers with success, and then as the request says.
def AgentAnswers (req resp : Bytes) (held held' : Finset Bytes) : Prop :=
  if resp[4]? = some 6 then
    match operation req with
    | .addIdentity         => held ⊆ held'
    | .removeIdentity      => ∀ key ∈ held, key ∈ held' ∨ requestKey req = some key
    | .removeAllIdentities => True
    | _                    => held' = held
  else held' = held

inductive ServiceEvent
  | receive (i : Nat) (req : Bytes)
  | handle (i : Nat) (preloaded : Bool)
  | sshAdd (i : Nat) (status : Bool)
  | answer (i : Nat) (resp : Bytes)
  | disconnect (i : Nat)
  | update (i : Nat)
  | done (i : Nat)
  | start
  | exit
  | childWatch
  | onClosed

inductive Service.Step : Service → ServiceEvent → Service → Prop
  | receive {s i req} : s.threads i = .reading → Step s (.receive i req) (s.setThread i (.handling req))
  | handle {s i req preloaded} : s.threads i = .handling req →
    Step s (.handle i preloaded) (s.setThread i (.handle s.keys preloaded req))
  | sshAdd {s i req key status} : s.threads i = .loading req key →
    Step s (.sshAdd i status)
      (s.setThread i (if status then .updating [.addKey key] (some req) else .relaying req))
  | answer {s i req resp held held'} : s.threads i = .relaying req → s.process = .running held →
    AgentAnswers req resp held held' →
    Step s (.answer i resp)
      { s.setThread i (.updating (keyUpdates req resp) none) with process := .running held' }
  -- Without an ssh-agent the thread connects to a new one and tries again. Otherwise it ends, and another client
  -- may get it.
  | reconnect {s i req} : s.threads i = .relaying req → s.process = .none →
    Step s (.disconnect i) (s.setThread i (.handling req))
  | disconnect {s i req} : s.threads i = .relaying req → s.process ≠ .none →
    Step s (.disconnect i) (s.setThread i .reading)
  | update {s i update todo req} : s.threads i = .updating (update :: todo) req →
    Step s (.update i) { s.setThread i (.updating todo req) with keys := update.apply s.keys }
  | done {s i req} : s.threads i = .updating [] req →
    Step s (.done i) (s.setThread i (req.elim .reading .relaying))
  | start {s} : s.process = .none → Step s .start { s with process := .running ∅ }
  | exit {s held} : s.process = .running held → Step s .exit { s with process := .exited }
  | childWatch {s} : s.process = .exited → Step s .childWatch { s with process := .none, closed := s.closed + 1 }
  | onClosed {s} : s.closed ≠ 0 → Step s .onClosed { s with keys := ∅, closed := s.closed - 1 }

end SshAgent
