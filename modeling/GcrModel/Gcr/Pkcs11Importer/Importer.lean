import GcrModel.Gck.Attributes.Attributes
import GcrModel.Library.Transition

-- gcr-pkcs11-importer.c: the queue, and how it is supplemented before its objects are created.
namespace Pkcs11Importer

open GLib Gck Attributes

section Supplement

-- The attributes of an item change on the way, and the number that it got in the queue does not.
structure Item where
  id    : Nat
  attrs : Attributes

-- CertificateKeyPair
structure CertificateKeyPair where
  certificate : Option Item
  privateKey  : Option Item

abbrev Pairs := List (Bytes × CertificateKeyPair)

-- What comes from elsewhere: fingerprints of keys, hashes with the nonce of something that tells items apart, and a hash
-- table that is gone through in an order of its own.
structure Env where
  fingerprint  : Attributes → Option Bytes
  hash         : Bytes → Bytes
  pointer      : Item → Bytes
  iterate      : Pairs → Pairs
  iterate_perm : ∀ pairs, (iterate pairs).Perm pairs

variable (env : Env)

-- Do we have a consistent label across all objects?
def supplementPrep (queue : List Item) : Attributes :=
  match queue.map fun item => find item.attrs ckaLabel with
  | []              => [⟨ckaLabel, some []⟩]
  | label :: labels =>
    match label with
    | some attr => if labels.all (· = some attr) then [⟨ckaLabel, attr.value⟩] else [⟨ckaLabel, some []⟩]
    | none      => [⟨ckaLabel, some []⟩]

def supplementWithAttributes (builder supplements : Attributes) : Attributes :=
  builder ++ supplements.filter fun attr => attr.value ≠ none ∧ attr.value ≠ some []

def supplementIdForData (builder : Attributes) (data : Bytes) : Attributes :=
  if find builder ckaId = none then add builder ckaId (some (env.hash data)) else builder

-- What all objects of a class are to have.
def withClass (attrs : Attributes) (klass : Nat) : Attributes :=
  let attrs := setBoolean attrs ckaToken true
  if klass = ckoCertificate then setBoolean attrs ckaPrivate false
  else if klass = ckoPrivateKey then
    let attrs := setBoolean attrs ckaPrivate true
    let attrs := addBoolean attrs ckaDecrypt true
    let attrs := addBoolean attrs ckaSign true
    let attrs := addBoolean attrs ckaSignRecover true
    let attrs := addBoolean attrs ckaUnwrap true
    addBoolean attrs ckaSensitive true
  else attrs

-- The first certificate and the first key are taken.
def CertificateKeyPair.put (pair : CertificateKeyPair) (klass : Nat) (item : Item) : CertificateKeyPair :=
  if klass = ckoCertificate then { pair with certificate := pair.certificate.or (some item) }
  else if klass = ckoPrivateKey then { pair with privateKey := pair.privateKey.or (some item) }
  else pair

def put (klass : Nat) (item : Item) (fingerprint : Bytes) : Pairs → Pairs
  | []               => [(fingerprint, CertificateKeyPair.put ⟨none, none⟩ klass item)]
  | (f, pair) :: rest =>
    if f = fingerprint then (f, pair.put klass item) :: rest else (f, pair) :: put klass item fingerprint rest

-- The first loop. It is left at an item without a class, as is the function.
def classify : List Item → Pairs → List Item × Option Pairs
  | [],            pairs => ([], some pairs)
  | item :: queue, pairs =>
    match findUlong item.attrs ckaClass with
    | none       => (item :: queue, none)
    | some klass =>
      let item' := { item with attrs := withClass item.attrs klass }
      let pairs := match env.fingerprint item.attrs with
        | some finger => put klass item' finger pairs
        | none        => pairs
      (item' :: (classify queue pairs).1, (classify queue pairs).2)

-- The key and the certificate get the same id.
def supplementPair (supplements : Attributes) (entry : Bytes × CertificateKeyPair) : List Item :=
  match entry.2.certificate, entry.2.privateKey with
  | some certificate, some privateKey =>
    [privateKey, certificate].map fun item =>
      { item with attrs := supplementIdForData env (supplementWithAttributes item.attrs supplements) entry.1 }
  | _,                _               => []

def CertificateKeyPair.complete (pair : CertificateKeyPair) : List Item :=
  match pair.certificate, pair.privateKey with
  | some certificate, some privateKey => [privateKey, certificate]
  | _,                _               => []

def paired (pairs : Pairs) : List Item :=
  pairs.flatMap fun entry => entry.2.complete

def supplementUnpaired (supplements : Option Attributes) (item : Item) : Item :=
  let attrs := match supplements with
    | some supplements => supplementWithAttributes item.attrs supplements
    | none             => item.attrs
  { item with attrs := supplementIdForData env attrs (env.pointer item) }

def supplementAttributes (queue : List Item) (supplements : Attributes) : List Item :=
  match classify env queue [] with
  | (queue, none)       => queue
  | (queue, some pairs) =>
    -- Used the supplements for the pairs, don't use for unpaired stuff
    let rest := if paired pairs = [] then some supplements else none
    (env.iterate pairs).flatMap (supplementPair env supplements) ++
      (queue.filter fun item => item.id ∉ (paired pairs).map (·.id)).map (supplementUnpaired env rest)

end Supplement

-- gcr-pkcs11-importer.c: the imports of an importer.
section Import

-- What an import waits for. The call that creates an object has returned whether it did, or nothing yet.
inductive Waiting
  | openSession
  | supplement
  | createObject (item : Item) (result : Option Bool)

-- A task with the data of the import, and what it returned. Nothing was started without a state to wait for.
structure Task where
  waiting    : Option Waiting := none
  cancelled  : Bool := false
  supplement : Attributes := []
  returned   : List Bool := []

structure State where
  queue       : List Item := []
  objects     : List Item := []
  session     : Bool := false
  interaction : Bool := false
  tasks       : Nat → Task := fun _ => {}
  -- How many imports were started and how many items were queued, and the items that were asked to be created.
  started     : Nat := 0
  queued      : Nat := 0
  requested   : List Nat := []

variable (env : Env)

def State.setTask (s : State) (i : Nat) (task : Task) : State :=
  { s with tasks := Function.update s.tasks i task }

def State.wait (s : State) (i : Nat) (waiting : Waiting) : State :=
  s.setTask i { s.tasks i with waiting := some waiting }

-- `g_task_return_boolean` and `g_task_return_error`
def State.returns (s : State) (i : Nat) (result : Bool) : State :=
  s.setTask i { s.tasks i with waiting := none, returned := (s.tasks i).returned ++ [result] }

def stateCancelled (s : State) (i : Nat) : State :=
  s.returns i false

def nextState (s : State) (i : Nat) (state : State → Nat → State) : State :=
  if (s.tasks i).cancelled then stateCancelled s i else state s i

-- Pop first one off the list
def stateCreateObject (s : State) (i : Nat) : State :=
  match s.queue with
  | []            => s.returns i true
  | item :: queue =>
    State.wait { s with queue := queue, requested := s.requested ++ [item.id] } i (.createObject item none)

def completeCreateObject (s : State) (i : Nat) (object : Option Item) : State :=
  match object with
  | none        => s.returns i false
  | some object => nextState { s with objects := s.objects ++ [object] } i stateCreateObject

def completeSupplement (s : State) (i : Nat) (error : Bool) : State :=
  if error then s.returns i false
  else nextState { s with queue := supplementAttributes env s.queue (s.tasks i).supplement } i stateCreateObject

def stateSupplement (s : State) (i : Nat) : State :=
  if s.interaction then s.wait i .supplement else completeSupplement env s i false

def completeOpenSession (s : State) (i : Nat) (session : Bool) : State :=
  if session then nextState { s with session := true } i (stateSupplement env) else s.returns i false

def stateOpenSession (s : State) (i : Nat) : State :=
  s.wait i .openSession

def queueItem (s : State) (attrs : Attributes) : State :=
  { s with queue := s.queue ++ [⟨s.queued, attrs⟩], queued := s.queued + 1 }

-- An interaction prepares the supplement as it likes.
def importAsync (s : State) (cancelled : Bool) (prepared : Attributes) : State :=
  let supplement := if s.interaction then prepared else supplementPrep s.queue
  nextState { s.setTask s.started { cancelled := cancelled, supplement := supplement } with started := s.started + 1 }
    s.started stateOpenSession

inductive Event
  | queue (attrs : Attributes)
  | setInteraction (interaction : Bool)
  | importAsync (cancelled : Bool) (prepared : Attributes)
  | cancel (i : Nat)
  | onOpenSession (i : Nat) (session : Bool)
  -- The attributes that the interaction has left in the builder, unless there was an error.
  | onSupplementDone (i : Nat) (supplement : Option Attributes)
  -- The thread of `gck_session_create_object_async`, with the result of C_CreateObject.
  | createObject (i : Nat) (created : Bool)
  | onCreateObject (i : Nat)

-- A call that is cancelled before its thread runs does not get to the module, and one that is cancelled before it is
-- finished gives an error.
inductive Step (env : Env) : State → Event → State → Prop
  | queue {s attrs} : Step env s (.queue attrs) (queueItem s attrs)
  | setInteraction {s interaction} :
    Step env s (.setInteraction interaction) { s with interaction := interaction }
  | importAsync {s cancelled prepared} : Step env s (.importAsync cancelled prepared) (importAsync s cancelled prepared)
  | cancel {s i} : i < s.started → Step env s (.cancel i) (s.setTask i { s.tasks i with cancelled := true })
  | onOpenSession {s i session} : (s.tasks i).waiting = some .openSession →
    Step env s (.onOpenSession i session) (completeOpenSession env s i session)
  | supplementError {s i} : (s.tasks i).waiting = some .supplement →
    Step env s (.onSupplementDone i none) (completeSupplement env s i true)
  | onSupplementDone {s i supplement} : (s.tasks i).waiting = some .supplement →
    Step env s (.onSupplementDone i (some supplement))
      (completeSupplement env (s.setTask i { s.tasks i with supplement := supplement }) i false)
  | createObject {s i item created} : (s.tasks i).waiting = some (.createObject item none) →
    Step env s (.createObject i created) (s.wait i (.createObject item (some (!(s.tasks i).cancelled && created))))
  | onCreateObject {s i item result} : (s.tasks i).waiting = some (.createObject item (some result)) →
    Step env s (.onCreateObject i)
      (completeCreateObject s i (if result && !(s.tasks i).cancelled then some item else none))

def Run (env : Env) : List (State × Event × State) → State → Prop :=
  Transition.Run (· = {}) (Step env)

def ids (items : List Item) : List Nat :=
  items.map (·.id)

-- The task is busy with the item.
def Task.creates (task : Task) (id : Nat) : Prop :=
  ∃ item result, task.waiting = some (.createObject item result) ∧ item.id = id

-- Every queued item has its object, is in the queue, or an import that has not completed is creating it.
def Kept (s : State) : Prop :=
  ∀ id < s.queued, id ∈ ids s.objects ∨ id ∈ ids s.queue ∨ ∃ i, (s.tasks i).creates id

-- The queue as a step finds it, or as it has arranged it.
inductive Arranged (env : Env) (s : State) : List Item → Prop
  | same : Arranged env s s.queue
  | queued {attrs} : Arranged env s (s.queue ++ [⟨s.queued, attrs⟩])
  | supplemented {supplements}
      (h : (ids (supplementAttributes env s.queue supplements)).Perm (ids s.queue)) :
    Arranged env s (supplementAttributes env s.queue supplements)

-- Why an import returns FALSE: it is cancelled, or the call failed that it waited for.
def Fails (s : State) (i : Nat) : Event → Prop
  | .importAsync cancelled _       => cancelled = true
  | .onOpenSession _ session       => session = false ∨ (s.tasks i).cancelled = true
  | .onSupplementDone _ supplement => supplement = none ∨ (s.tasks i).cancelled = true
  | .onCreateObject _              =>
    (∃ item, (s.tasks i).waiting = some (.createObject item (some false))) ∨ (s.tasks i).cancelled = true
  | _                              => False

-- What an import waited for has returned.
def Event.Answers (i : Nat) : Event → Prop
  | .onOpenSession j _    => j = i
  | .onSupplementDone j _ => j = i
  | .onCreateObject j     => j = i
  | _                     => False

-- What is required of a step:
-- (1) An import has completed once, or it waits for something and has not completed.
-- (2) The items that are asked to be created are taken from the front of the queue.
-- (3) No item is asked to be created twice, nor one that has its object or is in the queue.
-- (4) No item is lost.
-- (5) There is nothing left in the queue where an import succeeds.
-- (6) An import only fails for a reason.
-- (7) An import that goes on when a call has returned creates the next item, or supplements the queue behind the session.
structure Imports (env : Env) (s : State) (e : Event) (s' : State) : Prop where
  completed : ∀ i < s'.started, (s'.tasks i).returned.length = if (s'.tasks i).waiting.isSome then 0 else 1
  ordered   : ∃ arranged new, Arranged env s arranged ∧ ids arranged = new ++ ids s'.queue ∧
    s'.requested = s.requested ++ new
  once      : (s'.requested ++ ids s'.queue).Nodup ∧ (ids s'.objects).Nodup ∧ ∀ id ∈ ids s'.objects, id ∈ s'.requested
  kept      : Kept s'
  success   : ∀ i, (s'.tasks i).returned ≠ (s.tasks i).returned → true ∈ (s'.tasks i).returned → s'.queue = []
  failure   : ∀ i, (s'.tasks i).returned ≠ (s.tasks i).returned → false ∈ (s'.tasks i).returned → Fails s i e
  onward    : ∀ i, e.Answers i → ∀ waiting, (s'.tasks i).waiting = some waiting →
    (waiting = .supplement ∧ (s.tasks i).waiting = some .openSession) ∨
      ∃ item, waiting = .createObject item none ∧ s'.requested = s.requested ++ [item.id]

-- An object is created when its creation is tried.
def Creates (s : State) : Event → Prop
  | .onCreateObject i => (s.tasks i).cancelled = false ∧
      ∀ item result, (s.tasks i).waiting = some (.createObject item (some result)) → result = true
  | _                 => True

end Import

end Pkcs11Importer
