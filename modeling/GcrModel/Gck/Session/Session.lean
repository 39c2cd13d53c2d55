import GcrModel.Gck.Session.Operations
import GcrModel.Gck.Enumerator.Enumerator

-- gck-session.c: the calls on a session that start an operation.
namespace Session

open GLib

-- What a perform function returns and leaves in its arguments, with the calls that it made.
structure Performed (σ α : Type*) where
  rv     : RV
  args   : α
  calls  : List Event
  module : σ

structure Crypt where
  op          : CryptOperation
  key         : Nat
  mechanism   : Mechanism
  input       : Bytes
  interaction : Bool

structure CryptResult where
  result  : Option Bytes := none
  nResult : Nat := 0

structure Verify where
  key         : Nat
  mechanism   : Mechanism
  input       : Bytes
  signature   : Bytes
  interaction : Bool

variable {σ α β : Type*} (f : Functions σ)

-- `g_malloc0` returns NULL for no bytes, so that the second call only asks for the length as well.
def completeCrypt (args : Crypt) (nResult : Nat) (calls : List Event) (module : σ) : Performed σ CryptResult :=
  if nResult = 0 then
    let ((rv, nResult), module) := f.lengthOf args.op args.input module
    ⟨rv, { nResult := nResult }, calls ++ [.complete (.crypt args.op) true rv []], module⟩
  else
    let ((rv, output), module) := f.complete args.op args.input nResult module
    ⟨rv, ⟨some output, output.length⟩, calls ++ [.complete (.crypt args.op) false rv output], module⟩

def performCrypt (fuel : Nat) (args : Crypt) (module : σ) : Option (Performed σ CryptResult) :=
  let (rv, module) := f.init (.crypt args.op) args.mechanism args.key module
  let calls := [.init (.crypt args.op) rv]
  if rv ≠ ckrOk then some ⟨rv, {}, calls, module⟩
  else
    match authenticateKey f args.interaction args.key fuel module with
    | none              => none
    | some (rv, module) =>
      if rv ≠ ckrOk then some ⟨rv, {}, calls, module⟩
      else
        let ((rv, nResult), module) := f.lengthOf args.op args.input module
        let calls := calls ++ [.complete (.crypt args.op) true rv []]
        if rv ≠ ckrOk then some ⟨rv, { nResult := nResult }, calls, module⟩
        else some (completeCrypt f args nResult calls module)

def performVerify (fuel : Nat) (args : Verify) (module : σ) : Option (Performed σ Unit) :=
  let (rv, module) := f.init .verify args.mechanism args.key module
  let calls := [.init .verify rv]
  if rv ≠ ckrOk then some ⟨rv, (), calls, module⟩
  else
    match authenticateKey f args.interaction args.key fuel module with
    | none              => none
    | some (rv, module) =>
      if rv ≠ ckrOk then some ⟨rv, (), calls, module⟩
      else
        let (rv, module) := f.verify args.input args.signature module
        some ⟨rv, (), calls ++ [.complete .verify false rv []], module⟩

-- `g_array_append_vals`, whose length is a guint, as that of the array is. It does not return when there is no room.
def gArrayAppendVals (array data : List Nat) : Option (List Nat) :=
  let len := data.length % 0x100000000
  if array.length + len ≤ 0xFFFFFFFF then some (array ++ data.take len) else none

structure Finding (σ : Type*) where
  nBatch : Nat := 4
  nFound : Nat := 4
  array  : List Nat := []
  calls  : List Event
  module : σ

-- Reallocate and double in size, the first time and each time we found as many as batch.
def Finding.grown (s : Finding σ) : Nat :=
  if s.nFound = s.nBatch then 2 * s.nBatch else s.nBatch

def Finding.answer (s : Finding σ) : (RV × List Nat) × σ :=
  f.findObjects s.grown s.module

def Finding.after (s : Finding σ) (array : List Nat) : Finding σ :=
  let ((rv, batch), module) := s.answer f
  ⟨s.grown, batch.length, array, s.calls ++ [.findObjects rv batch], module⟩

-- A round of the loop in `perform_find_objects`. The result is none where the array gets too long.
def findRound (s : Finding σ) : Option (RV × Finding σ) ⊕ Finding σ :=
  let ((rv, batch), _) := s.answer f
  if rv ≠ ckrOk then .inl (some (rv, s.after f s.array))
  else
    match gArrayAppendVals s.array batch with
    | none       => .inl none
    | some array => if batch.length > 0 then .inr (s.after f array) else .inl (some (rv, s.after f array))

def performFindObjects (fuel : Nat) (attrs : List (Nat × Bytes)) (module : σ) : Option (Performed σ (List Nat)) :=
  let (rv, module) := f.findObjectsInit attrs module
  let calls := [.init .search rv]
  if rv ≠ ckrOk then some ⟨rv, [], calls, module⟩
  else
    match (Loop.run (findRound f) fuel { calls := calls, module := module }).join with
    | none         => none
    | some (rv, s) =>
      if rv = ckrOk then
        let (rv, module) := f.findObjectsFinal s.module
        some ⟨rv, s.array, s.calls ++ [.findObjectsFinal rv], module⟩
      else some ⟨rv, [], s.calls, s.module⟩

-- The enumerator of `gck_session_enumerate_objects`. It has no other slots and modules.
structure SessionEnumerator where
  handler     : Enumerator.Handler := .session
  wantObjects : Nat := 0
  attributes  : Option (List (Nat × Bytes))
  attrTypes   : List Nat
  session     : Option Nat
  found       : Option (List Nat) := none
  results     : List (Nat × Option (List (Nat × Bytes))) := []

-- What a handler called with `forward` true returns.
structure Handled (σ : Type*) where
  args    : SessionEnumerator
  handler : Option Enumerator.Handler
  calls   : List Event := []
  module  : σ

structure Search (σ : Type*) where
  found  : List Nat
  calls  : List Event
  module : σ

def searchRound (s : Search σ) : Search σ ⊕ Search σ :=
  let ((rv, objects), module) := f.findObjects 128 s.module
  let s := { s with calls := s.calls ++ [.findObjects rv objects], module := module }
  if rv ≠ ckrOk ∨ objects.length = 0 then .inl s else .inr { s with found := s.found ++ objects }

def stateFind (fuel : Nat) (args : SessionEnumerator) (module : σ) : Option (Handled σ) :=
  match args.session with
  | none         => none
  | some session =>
    if args.wantObjects = 0 then none
    else
      let args := { args with found := some (args.found.getD []) }
      if session = 0 then some { args := args, handler := none, module := module }
      else
        let (rv, module) := f.findObjectsInit args.attributes module
        let calls := [.init .search rv]
        if rv = ckrOk then
          match Loop.run (searchRound f) fuel ⟨args.found.getD [], calls, module⟩ with
          | none   => none
          | some s =>
            let (rv, module) := f.findObjectsFinal s.module
            some ⟨{ args with found := some s.found }, some .results, s.calls ++ [.findObjectsFinal rv], module⟩
        else some ⟨args, some .results, calls, module⟩

-- The attributes of an object, if they are wanted, or whether they could not be read.
def readAttributes (attrTypes : List Nat) (handle : Nat) (module : σ) :
    Option (Option (List (Nat × Bytes))) × σ :=
  if attrTypes.length = 0 then (some none, module)
  else
    let (rv, module) := f.attributeSizes handle attrTypes module
    if Enumerator.isGetAttributeRvOk rv then
      let ((rv, attrs), module) := f.attributeValues handle attrTypes module
      (if Enumerator.isGetAttributeRvOk rv then some (some attrs) else none, module)
    else (none, module)

-- The loop over `count`, with whether all that are wanted were there.
def takeResults : Nat → SessionEnumerator → List Nat → σ → SessionEnumerator × Bool × σ
  | 0, args, found, module                => ({ args with found := some found }, true, module)
  | _ + 1, args, [], module               => ({ args with found := some [] }, false, module)
  | want + 1, args, handle :: found, module =>
    match readAttributes f args.attrTypes handle module with
    | (none, module)       => takeResults want args found module
    | (some attrs, module) => takeResults want { args with results := args.results ++ [(handle, attrs)] } found module

-- `rewind_state (args, state_slots)`
def rewindToSlots (args : SessionEnumerator) : SessionEnumerator :=
  { args with session := none }

def stateResults (args : SessionEnumerator) (module : σ) : Option (Handled σ) :=
  match args.session, args.found with
  | some session, some found =>
    if session = 0 then some { args := args, handler := none, module := module }
    else
      match takeResults f args.wantObjects args found module with
      | (args, true, module)  => some { args := args, handler := none, module := module }
      | (args, false, module) => some { args := rewindToSlots args, handler := some .slots, module := module }
  | _, _ => none

def forward (fuel : Nat) (args : SessionEnumerator) (module : σ) : Option (Handled σ) :=
  match args.handler with
  | .modules => some { args := args, handler := none, module := module }
  | .slots   => some { args := args, handler := some .modules, module := module }
  | .slot    => none
  | .session => args.session.map fun _ => { args := args, handler := some .find, module := module }
  | .find    => stateFind f fuel args module
  | .results => stateResults f args module

structure Enumerating (σ : Type*) where
  args   : SessionEnumerator
  calls  : List Event
  module : σ

-- The round of the inner loop of `perform_enumerate_next`.
def forwardRound (fuel : Nat) (s : Enumerating σ) : Option (Enumerating σ) ⊕ Enumerating σ :=
  match forward f fuel s.args s.module with
  | none   => .inl none
  | some h =>
    match h.handler with
    | none         => .inl (some ⟨h.args, s.calls ++ h.calls, h.module⟩)
    | some handler => .inr ⟨{ h.args with handler := handler }, s.calls ++ h.calls, h.module⟩

-- An enumerator and those that are chained to it.
def performEnumerateNext (fuel wantObjects : Nat) :
    Nat → List SessionEnumerator → σ → Option (Performed σ (List SessionEnumerator))
  | _, [], module                 => some ⟨ckrOk, [], [], module⟩
  | count, state :: chained, module =>
    match (Loop.run (forwardRound f fuel) fuel ⟨{ state with wantObjects := wantObjects - count }, [], module⟩).join with
    | none   => none
    | some s =>
      if count + s.args.results.length ≥ wantObjects then some ⟨ckrOk, s.args :: chained, s.calls, s.module⟩
      else
        (performEnumerateNext fuel wantObjects (count + s.args.results.length) chained s.module).map fun p =>
          { p with args := s.args :: p.args, calls := s.calls ++ p.calls }

-- What a call on the session returns.
inductive Reply (α : Type*)
  | refused
  | error (rv : RV)
  | ok (value : α)

structure Returned (σ α : Type*) where
  reply  : Reply α
  calls  : List Event
  module : σ

-- How a call is made, and whether its cancellable is cancelled before it begins and before it is finished.
inductive How
  | sync (cancelled : Bool)
  | async (cancelled cancelledLater : Bool)

def Reply.map (g : α → β) : Reply α → Reply β
  | .refused  => .refused
  | .error rv => .error rv
  | .ok value => .ok (g value)

def callSync (cancelled : Bool) (perform : σ → Option (Performed σ α)) (module : σ) : Option (Returned σ α) :=
  if cancelled then some ⟨.error ckrFunctionCanceled, [], module⟩
  else (perform module).map fun p => ⟨if p.rv = ckrOk then .ok p.args else .error p.rv, p.calls, p.module⟩

-- `g_task_propagate_boolean`
def basicFinish (cancelledLater : Bool) (r : Returned σ α) : Returned σ α :=
  if cancelledLater then { r with reply := .error ckrFunctionCanceled } else r

def call (how : How) (perform : σ → Option (Performed σ α)) (module : σ) : Option (Returned σ α) :=
  match how with
  | .sync cancelled                 => callSync cancelled perform module
  | .async cancelled cancelledLater => (callSync cancelled perform module).map (basicFinish cancelledLater)

-- `crypt_sync`, or `crypt_async` and `crypt_finish`
def crypt (how : How) (fuel : Nat) (args : Crypt) (module : σ) : Option (Returned σ CryptResult) :=
  if args.key = 0 then some ⟨.refused, [], module⟩ else call how (performCrypt f fuel args) module

def gckSessionEncrypt (how : How) (fuel key : Nat) (mechanism : Mechanism) (input : Bytes) (interaction : Bool) :
    σ → Option (Returned σ CryptResult) :=
  crypt f how fuel ⟨.encrypt, key, mechanism, input, interaction⟩

def gckSessionDecrypt (how : How) (fuel key : Nat) (mechanism : Mechanism) (input : Bytes) (interaction : Bool) :
    σ → Option (Returned σ CryptResult) :=
  crypt f how fuel ⟨.decrypt, key, mechanism, input, interaction⟩

def gckSessionSign (how : How) (fuel key : Nat) (mechanism : Mechanism) (input : Bytes) (interaction : Bool) :
    σ → Option (Returned σ CryptResult) :=
  crypt f how fuel ⟨.sign, key, mechanism, input, interaction⟩

def gckSessionVerify (how : How) (fuel : Nat) (args : Verify) (module : σ) : Option (Returned σ Unit) :=
  if args.key = 0 then some ⟨.refused, [], module⟩ else call how (performVerify f fuel args) module

def gckSessionFindHandles (how : How) (fuel : Nat) (attrs : List (Nat × Bytes)) :
    σ → Option (Returned σ (List Nat)) :=
  call how (performFindObjects f fuel attrs)

-- The results that there are do not need a call.
def gckEnumeratorNext (how : How) (fuel wantObjects : Nat) (states : List SessionEnumerator) :
    σ → Option (Returned σ (List SessionEnumerator)) :=
  call how (performEnumerateNext f fuel wantObjects 0 states)

inductive Call
  | encrypt (key : Nat) (mechanism : Mechanism) (input : Bytes) (interaction : Bool)
  | decrypt (key : Nat) (mechanism : Mechanism) (input : Bytes) (interaction : Bool)
  | sign (key : Nat) (mechanism : Mechanism) (input : Bytes) (interaction : Bool)
  | verify (args : Verify)
  | findHandles (attrs : List (Nat × Bytes))
  | enumerateNext (wantObjects : Nat) (states : List SessionEnumerator)

inductive Value
  | crypt (result : CryptResult)
  | verified
  | handles (handles : List Nat)
  | states (states : List SessionEnumerator)

def Returned.value (g : α → Value) (r : Returned σ α) : Returned σ Value :=
  { r with reply := r.reply.map g }

def perform (fuel : Nat) (how : How) (module : σ) : Call → Option (Returned σ Value)
  | .encrypt key mechanism input interaction =>
    (gckSessionEncrypt f how fuel key mechanism input interaction module).map (·.value .crypt)
  | .decrypt key mechanism input interaction =>
    (gckSessionDecrypt f how fuel key mechanism input interaction module).map (·.value .crypt)
  | .sign key mechanism input interaction =>
    (gckSessionSign f how fuel key mechanism input interaction module).map (·.value .crypt)
  | .verify args                      => (gckSessionVerify f how fuel args module).map (·.value fun _ => .verified)
  | .findHandles attrs                => (gckSessionFindHandles f how fuel attrs module).map (·.value .handles)
  | .enumerateNext wantObjects states =>
    (gckEnumeratorNext f how fuel wantObjects states module).map (·.value .states)

-- The session between two calls, with all calls to its module and what the last call on it returned.
structure State (σ : Type*) where
  module   : σ
  calls    : List Event := []
  returned : Option (Returned σ Value) := none

-- A call that returns.
def Step (s : State σ) (e : How × Call) (s' : State σ) : Prop :=
  ∃ fuel r, perform f fuel e.1 s.module e.2 = some r ∧ s' = ⟨r.module, s.calls ++ r.calls, some r⟩

def Run : List (State σ × (How × Call) × State σ) → State σ → Prop :=
  Transition.Run (fun s => s.calls = [] ∧ s.returned = none) (Step f)

variable (rules : Rules)

def Delivered (r : Returned σ Value) : Prop :=
  match r.reply with
  | .ok (.crypt c)        => lastOutput r.calls = some (c.result.getD []) ∧ c.nResult = (c.result.getD []).length
  | .ok (.handles handles) => handles = found r.calls
  | _                     => True

-- Every call found the session without an active operation and left it so.
structure Kept (s : State σ) : Prop where
  ended     : rules.active s.calls = idle
  admitted  : rules.Admits idle s.calls
  delivered : ∀ r ∈ s.returned, Delivered r

def How.begins : How → Bool
  | .sync cancelled    => !cancelled
  | .async cancelled _ => !cancelled

def How.finishes : How → Bool
  | .sync _                 => true
  | .async _ cancelledLater => !cancelledLater

-- What the authentication of a key comes to.
def Authenticates (interaction : Bool) (key : Nat) (module : σ) (rv : RV) (module' : σ) : Prop :=
  ∃ fuel, authenticateKey f interaction key fuel module = some (rv, module')

-- The calls that complete an operation end it.
def Completes (op : CryptOperation) (input : Bytes) (module : σ) : Prop :=
  let ((rv, nResult), module) := f.lengthOf op input module
  if rv ≠ ckrOk then rules.ends true rv = true
  else if nResult = 0 then rules.ends true (f.lengthOf op input module).1.1 = true
  else (f.complete op input nResult module).1.1 ≠ ckrBufferTooSmall

def Crypt.Regular (args : Crypt) (module : σ) : Prop :=
  args.key ≠ 0 → (f.init (.crypt args.op) args.mechanism args.key module).1 = ckrOk → ∀ rv module',
    Authenticates f args.interaction args.key (f.init (.crypt args.op) args.mechanism args.key module).2 rv module' →
    rv = ckrOk ∧ Completes f rules args.op args.input module'

def Verify.Regular (args : Verify) (module : σ) : Prop :=
  args.key ≠ 0 → (f.init .verify args.mechanism args.key module).1 = ckrOk → ∀ rv module',
    Authenticates f args.interaction args.key (f.init .verify args.mechanism args.key module).2 rv module' →
    rv = ckrOk ∧ (f.verify args.input args.signature module').1 ≠ ckrBufferTooSmall

-- The states of a search in which `C_FindObjects` is called.
def Searches (attrs : List (Nat × Bytes)) (module : σ) (s : Finding σ) : Prop :=
  Relation.ReflTransGen (Loop.Next (findRound f))
    { calls := [.init .search (f.findObjectsInit attrs module).1], module := (f.findObjectsInit attrs module).2 } s

-- No call of a search fails. In one that succeeds, each call finds fewer handles than a guint can count.
structure FindHandles.Regular (how : How) (attrs : List (Nat × Bytes)) (module : σ) : Prop where
  succeeds : (f.findObjectsInit attrs module).1 = ckrOk → ∀ s, Searches f attrs module s →
    (s.answer f).1.1 = ckrOk
  counts   : (f.findObjectsInit attrs module).1 = ckrOk → how.finishes → ∀ s, Searches f attrs module s →
    (s.answer f).1.2 = [] → (f.findObjectsFinal (s.answer f).2).1 = ckrOk → ∀ u, Searches f attrs module u →
    (u.answer f).1.2.length < 0x100000000

def Call.Regular (how : How) (module : σ) : Call → Prop
  | .encrypt key mechanism input interaction => Crypt.Regular f rules ⟨.encrypt, key, mechanism, input, interaction⟩ module
  | .decrypt key mechanism input interaction => Crypt.Regular f rules ⟨.decrypt, key, mechanism, input, interaction⟩ module
  | .sign key mechanism input interaction    => Crypt.Regular f rules ⟨.sign, key, mechanism, input, interaction⟩ module
  | .verify args                             => Verify.Regular f args module
  | .findHandles attrs                       => FindHandles.Regular f how attrs module
  | .enumerateNext _ _                       => True

def Regular (s : State σ) (e : How × Call) : Prop :=
  e.1.begins → e.2.Regular f rules e.1 s.module

end Session
