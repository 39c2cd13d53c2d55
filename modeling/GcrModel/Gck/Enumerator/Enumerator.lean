import GcrModel.Library.Loop
import GcrModel.Library.Transition

-- `GckEnumerator`: the states that an enumerator goes through, forward and backward.
namespace Enumerator

-- `CK_RV`, where zero is `CKR_OK`.
abbrev RV := Nat

-- `GCK_IS_GET_ATTRIBUTE_RV_OK`, with `CKR_ATTRIBUTE_SENSITIVE` and `CKR_ATTRIBUTE_TYPE_INVALID`.
def isGetAttributeRvOk (rv : RV) : Bool :=
  rv == 0 || rv == 0x11 || rv == 0x12

abbrev Attributes := List (Nat × List UInt8)

structure TokenInfo where
  label          : Option String
  manufacturerId : Option String
  model          : Option String
  serialNumber   : Option String

structure GckUriData where
  anyUnrecognized : Bool
  tokenInfo       : Option TokenInfo
  attributes      : Option Attributes

structure SessionOptions where
  readWrite : Bool
  loginUser : Bool

-- An object on a token, with what `C_GetAttributeValue` answers for it: when it is asked for the sizes
-- and when it is asked for the values.
structure TokenObject where
  handle     : Nat
  sizesRv    : RV
  valuesRv   : RV
  attributes : Attributes

-- What the functions of a module answer for a slot. `C_FindObjects` is called again until it fails or
-- finds nothing.
structure FunctionList where
  openSession     : Bool → RV × Nat
  findObjectsInit : Option Attributes → RV
  findObjects     : Option Attributes → List (RV × List TokenObject)

structure Slot where
  handle    : Nat
  tokenInfo : Option TokenInfo
  functions : FunctionList

structure Module where
  slots : List Slot

structure Session where
  handle  : Nat
  slot    : Slot
  options : SessionOptions

-- A class of objects, with the attributes of its `GckObjectCache` interface.
structure ObjectClass where
  name         : String
  defaultTypes : Option (List Nat)

-- What is set on a `GckEnumerator` object.
structure GckEnumerator where
  objectClass : ObjectClass
  attrTypes   : Option (List Nat)

structure GckEnumeratorResult where
  object  : TokenObject
  session : Session
  attrs   : Option Attributes

inductive Handler
  | modules
  | slots
  | slot
  | session
  | find
  | results
  deriving DecidableEq

-- A `NULL` list is empty, and so is a `NULL` queue of results.
structure GckEnumeratorState where
  enumerator     : GckEnumerator
  wantObjects    : Nat
  handler        : Handler
  modules        : List Module
  uriData        : GckUriData
  sessionOptions : SessionOptions
  objectClass    : Option ObjectClass
  attrTypes      : List Nat
  slots          : List Slot
  slot           : Option Slot
  tokenInfo      : Option TokenInfo
  funcs          : Option FunctionList
  session        : Option Session
  found          : Option (List GckEnumeratorResult)
  results        : List GckEnumeratorResult

def stateModulesBackward (_ : GckEnumeratorState) : Option (GckEnumeratorState × Handler) :=
  none

def stateSlotsBackward (args : GckEnumeratorState) : Option (GckEnumeratorState × Handler) :=
  match args.slot with
  | some _ => none
  | none   => some ({ args with slots := [] }, .modules)

def stateSlotBackward (args : GckEnumeratorState) : Option (GckEnumeratorState × Handler) :=
  match args.slot, args.funcs, args.session with
  | some _, some _, none => some ({ args with slot := none, funcs := none, tokenInfo := none }, .slots)
  | _, _, _              => none

def stateSessionBackward (args : GckEnumeratorState) : Option (GckEnumeratorState × Handler) :=
  match args.funcs, args.session, args.tokenInfo with
  | some _, some _, some _ => some ({ args with session := none }, .slot)
  | _, _, _                => none

def stateFindBackward (args : GckEnumeratorState) : Option (GckEnumeratorState × Handler) :=
  some (args, .session)

def stateResultsBackward (args : GckEnumeratorState) : Option (GckEnumeratorState × Handler) :=
  match args.funcs, args.objectClass, args.found with
  | some _, some _, some _ => some (args, .find)
  | _, _, _                => none

-- A handler called with `forward` false. There is no result where an assertion fails.
def backward (args : GckEnumeratorState) : Option (GckEnumeratorState × Handler) :=
  match args.handler with
  | .modules => stateModulesBackward args
  | .slots   => stateSlotsBackward args
  | .slot    => stateSlotBackward args
  | .session => stateSessionBackward args
  | .find    => stateFindBackward args
  | .results => stateResultsBackward args

def rewindRound (handler : Handler) (args : GckEnumeratorState) : Option GckEnumeratorState ⊕ GckEnumeratorState :=
  if args.handler = handler then .inl (some args)
  else
    match backward args with
    | none                 => .inl none
    | some (args, handler) => .inr { args with handler := handler }

-- One round for each of the six handlers is enough.
def rewindState (args : GckEnumeratorState) (handler : Handler) : Option GckEnumeratorState :=
  (Loop.run (rewindRound handler) 6 args).join

def cleanupState (args : GckEnumeratorState) : Option GckEnumeratorState :=
  match rewindState args .modules with
  | none      => none
  | some args =>
    match args.slots, args.slot, args.tokenInfo, args.funcs, args.session with
    | [], none, none, none, none =>
      some { args with found := none, results := [], modules := [], objectClass := none }
    | _, _, _, _, _ => none

-- `gck_module_get_info` is only logged, and taken to succeed.
def stateModules (args : GckEnumeratorState) : Option (GckEnumeratorState × Option Handler) :=
  match args.slots with
  | _ :: _ => none
  | []     =>
    match args.modules with
    | []                 => some (args, none)
    | module₁ :: modules => some ({ args with modules := modules, slots := module₁.slots }, some .slots)

-- `return rewind_state (args, handler);`
def rewindTo (args : GckEnumeratorState) (handler : Handler) : Option (GckEnumeratorState × Option Handler) :=
  (rewindState args handler).map (·, some handler)

def matchInfoString : Option String → Option String → Bool
  | none, _             => true
  | some _, none        => false
  | some m, some string => m == string

def gckTokenInfoMatch (m info : TokenInfo) : Bool :=
  matchInfoString m.label info.label && matchInfoString m.manufacturerId info.manufacturerId &&
    matchInfoString m.model info.model && matchInfoString m.serialNumber info.serialNumber

def matched (uriData : GckUriData) (tokenInfo : TokenInfo) : Bool :=
  if uriData.anyUnrecognized then false
  else
    match uriData.tokenInfo with
    | some m => gckTokenInfoMatch m tokenInfo
    | none   => true

def stateSlots (args : GckEnumeratorState) : Option (GckEnumeratorState × Option Handler) :=
  match args.slot with
  | some _ => none
  | none   =>
    match args.slots with
    | []            => rewindTo args .modules
    | slot :: slots =>
      match slot.tokenInfo with
      | none           => some ({ args with slots := slots }, some .slots)
      | some tokenInfo =>
        if matched args.uriData tokenInfo then
          some ({ args with
            slots     := slots
            funcs     := some slot.functions
            slot      := some slot
            tokenInfo := some tokenInfo }, some .slot)
        else some ({ args with slots := slots }, some .slots)

def stateSlot (args : GckEnumeratorState) : Option (GckEnumeratorState × Option Handler) :=
  match args.slot, args.funcs, args.session with
  | some slot, some funcs, none =>
    let (rv, session) := funcs.openSession args.sessionOptions.readWrite
    if rv ≠ 0 then rewindTo args .slots
    else some ({ args with session := some ⟨session, slot, args.sessionOptions⟩ }, some .session)
  | _, _, _ => none

-- Whether or not the token wants and gets a login, the objects are looked for.
def stateSession (args : GckEnumeratorState) : Option (GckEnumeratorState × Option Handler) :=
  match args.funcs, args.session, args.tokenInfo with
  | some _, some _, some _ => some (args, some .find)
  | _, _, _                => none

def findObjects : List (RV × List TokenObject) → List TokenObject
  | []                    => []
  | (rv, objects) :: rest => if rv ≠ 0 || objects.isEmpty then [] else objects ++ findObjects rest

-- What is found in a session.
def findResults (uriData : GckUriData) (funcs : FunctionList) (session : Session) : List GckEnumeratorResult :=
  if funcs.findObjectsInit uriData.attributes = 0 then
    (findObjects (funcs.findObjects uriData.attributes)).map (⟨·, session, none⟩)
  else []

def stateFind (args : GckEnumeratorState) : Option (GckEnumeratorState × Option Handler) :=
  match args.session, args.funcs with
  | some session, some funcs =>
    if args.wantObjects = 0 then none
    else
      let found := args.found.getD []
      -- `g_return_val_if_fail (session, NULL)`
      if session.handle = 0 then some ({ args with found := some found }, none)
      else some ({ args with found := some (found ++ findResults args.uriData funcs session) }, some .results)
  | _, _ => none

-- The result that is put in the queue, if the attributes that are asked for can be read.
def readResult (attrTypes : List Nat) (result : GckEnumeratorResult) : Option GckEnumeratorResult :=
  if attrTypes.isEmpty then some result
  else
    let rv := if isGetAttributeRvOk result.object.sizesRv then result.object.valuesRv else result.object.sizesRv
    if isGetAttributeRvOk rv then some { result with attrs := some result.object.attributes } else none

-- The loop over `count`: the results that are found and those that are left, and whether all that are
-- wanted were there.
def takeResults (attrTypes : List Nat) :
    Nat → List GckEnumeratorResult → List GckEnumeratorResult → List GckEnumeratorResult × List GckEnumeratorResult × Bool
  | 0, found, results                  => (found, results, true)
  | _ + 1, [], results                 => ([], results, false)
  | want + 1, result :: found, results =>
    takeResults attrTypes want found (results ++ (readResult attrTypes result).toList)

def stateResults (args : GckEnumeratorState) : Option (GckEnumeratorState × Option Handler) :=
  match args.funcs, args.objectClass, args.found with
  | some _, some _, some found =>
    if args.session.any (·.handle = 0) then some (args, none)
    else
      let (found, results, all) := takeResults args.attrTypes args.wantObjects found args.results
      let args := { args with found := some found, results := results }
      if all then some (args, none) else rewindTo args .slots
  | _, _, _ => none

-- A handler called with `forward` true.
def forward (args : GckEnumeratorState) : Option (GckEnumeratorState × Option Handler) :=
  match args.handler with
  | .modules => stateModules args
  | .slots   => stateSlots args
  | .slot    => stateSlot args
  | .session => stateSession args
  | .find    => stateFind args
  | .results => stateResults args

-- The round of the inner loop of `perform_enumerate_next`.
def forwardRound (args : GckEnumeratorState) : Option GckEnumeratorState ⊕ GckEnumeratorState :=
  match forward args with
  | none                      => .inl none
  | some (args, none)         => .inl (some args)
  | some (args, some handler) => .inr { args with handler := handler }

def Handler.rounds : Handler → Nat
  | modules => 0
  | slots   => 1
  | results => 2
  | find    => 3
  | session => 4
  | slot    => 5

-- More rounds than are left to go.
def rounds (args : GckEnumeratorState) : Nat :=
  args.handler.rounds + 6 * args.slots.length + args.modules.foldr (fun m n => 6 * m.slots.length + 2 + n) 0

def runHandlers (args : GckEnumeratorState) : Option GckEnumeratorState :=
  (Loop.run forwardRound (rounds args + 1) args).join

-- A state with those of the chained enumerators.
def performEnumerateNext (wantObjects count : Nat) : List GckEnumeratorState → Option (List GckEnumeratorState)
  | []               => some []
  | state :: chained =>
    match runHandlers { state with wantObjects := wantObjects - count } with
    | none       => none
    | some state =>
      if count + state.results.length ≥ wantObjects then some (state :: chained)
      else (performEnumerateNext wantObjects (count + state.results.length) chained).map (state :: ·)

structure GckObject where
  objectClass : Option ObjectClass
  handle      : Nat
  session     : Session
  attributes  : Option Attributes

def newObject (state : GckEnumeratorState) (result : GckEnumeratorResult) : GckObject where
  objectClass := state.objectClass
  handle      := result.object.handle
  session     := result.session
  attributes  := result.attrs

def extractResult : List GckEnumeratorState → Option GckObject × List GckEnumeratorState
  | []               => (none, [])
  | state :: chained =>
    match state.results with
    | result :: results => (some (newObject state result), { state with results := results } :: chained)
    | []                => ((extractResult chained).1, state :: (extractResult chained).2)

def extractResults : Nat → List GckEnumeratorState → List GckObject × List GckEnumeratorState
  | 0, states        => ([], states)
  | want + 1, states =>
    match extractResult states with
    | (none, states)        => ([], states)
    | (some object, states) => (object :: (extractResults want states).1, (extractResults want states).2)

-- The attributes that are asked for.
def GckEnumerator.types (self : GckEnumerator) : List Nat :=
  (self.attrTypes.or self.objectClass.defaultTypes).getD []

def checkOutState (state : GckEnumeratorState) : GckEnumeratorState :=
  { state with
    objectClass := some state.enumerator.objectClass
    attrTypes   := state.enumerator.types }

-- How an enumerator can be made.
inductive Source
  | modules (modules : List Module) (sessionOptions : SessionOptions)
  | slots (slots : List Slot) (sessionOptions : SessionOptions)
  | session (session : Session)

structure Creation where
  source  : Source
  uriData : GckUriData
  self    : GckEnumerator

-- `gck_enumerator_init`
def gckEnumeratorInit (self : GckEnumerator) (uriData : GckUriData) : GckEnumeratorState where
  enumerator     := self
  wantObjects    := 0
  handler        := .modules
  modules        := []
  uriData        := uriData
  sessionOptions := ⟨false, false⟩
  objectClass    := none
  attrTypes      := []
  slots          := []
  slot           := none
  tokenInfo      := none
  funcs          := none
  session        := none
  found          := none
  results        := []

-- `_gck_enumerator_new_for_modules`, `_gck_enumerator_new_for_slots` and `_gck_enumerator_new_for_session`
def Creation.state (c : Creation) : GckEnumeratorState :=
  let state := gckEnumeratorInit c.self c.uriData
  match c.source with
  | .modules modules options =>
    { state with sessionOptions := options, modules := modules, handler := .modules }
  | .slots slots options =>
    { state with sessionOptions := options, slots := slots, handler := .slots }
  | .session session =>
    { state with
      session   := some session
      handler   := .session
      slot      := some session.slot
      tokenInfo := session.slot.tokenInfo
      funcs     := some session.slot.functions }

end Enumerator

-- The calls on an enumerator.
namespace Enumerator

open Transition (Outcome)

structure EnumerateNext where
  state       : List GckEnumeratorState
  wantObjects : Nat
  -- What the thread returned: whether it was cancelled before it began.
  result      : Option (Except Unit Unit)

-- Where the states of the enumerator and of those that are chained to it are.
inductive Place
  | idle (state : List GckEnumeratorState)
  | running (args : EnumerateNext)
  | finalized

-- What a call returned.
structure Reply where
  objects    : List GckObject
  error      : Bool
  maxObjects : Nat

structure State where
  place    : Place
  -- All objects that were returned, and what the last call returned.
  returned : List GckObject
  reply    : Option Reply

def State.new (cs : List Creation) : State where
  place    := .idle (cs.map Creation.state)
  returned := []
  reply    := none

inductive Event
  | next (cancelled : Bool)
  | nextN (maxObjects : Int) (cancelled : Bool)
  | nextAsync (maxObjects : Int)
  | thread (cancelled : Bool)
  | nextFinish (cancelled : Bool)
  | dispose

-- `max_objects <= 0 ? G_MAXINT : max_objects`
def wantedObjects (maxObjects : Int) : Nat :=
  if maxObjects ≤ 0 then 2147483647 else maxObjects.toNat

def gckEnumeratorNext (state : List GckEnumeratorState) (cancelled : Bool) :
    Option (Reply × List GckEnumeratorState) :=
  let state := state.map checkOutState
  match extractResult state with
  | (some object, state) => some (⟨[object], false, 1⟩, state)
  | (none, state)        =>
    if cancelled then some (⟨[], true, 1⟩, state)
    else
      match performEnumerateNext 1 0 state with
      | none       => none
      | some state => some (⟨(extractResult state).1.toList, false, 1⟩, (extractResult state).2)

def gckEnumeratorNextN (state : List GckEnumeratorState) (maxObjects : Int) (cancelled : Bool) :
    Option (Reply × List GckEnumeratorState) :=
  let want := wantedObjects maxObjects
  let (results, state) := extractResults want (state.map checkOutState)
  let left := want - results.length
  if left = 0 then some (⟨results, false, want⟩, state)
  else if cancelled then some (⟨results, results.isEmpty, want⟩, state)
  else
    match performEnumerateNext left 0 state with
    | none       => none
    | some state => some (⟨results ++ (extractResults left state).1, false, want⟩, (extractResults left state).2)

-- The thread of `gck_enumerator_next_async`
def enumerateThread (args : EnumerateNext) (cancelled : Bool) : Option EnumerateNext :=
  if cancelled then some { args with result := some (.error ()) }
  else
    (performEnumerateNext args.wantObjects 0 args.state).map fun state =>
      { args with state := state, result := some (.ok ()) }

-- The task returns an error as well where it was cancelled after the thread had run.
def gckEnumeratorNextFinish (args : EnumerateNext) (result : Except Unit Unit) (cancelled : Bool) :
    Reply × List GckEnumeratorState :=
  match result, cancelled with
  | .ok _, false =>
    (⟨(extractResults args.wantObjects args.state).1, false, args.wantObjects⟩,
      (extractResults args.wantObjects args.state).2)
  | _, _ => (⟨[], true, args.wantObjects⟩, args.state)

def finalize : List GckEnumeratorState → Option (List GckEnumeratorState)
  | []              => some []
  | state :: states =>
    match cleanupState state with
    | none       => none
    | some state => (finalize states).map (state :: ·)

-- The state after a call has returned.
def State.replied (s : State) : Option (Reply × List GckEnumeratorState) → Outcome State
  | none                => .aborted
  | some (reply, state) => .ok ⟨.idle state, s.returned ++ reply.objects, some reply⟩

-- A call is refused where a `g_return_if_fail` fails.
def after (s : State) : Event → Outcome State
  | .next cancelled =>
    match s.place with
    | .idle state => s.replied (gckEnumeratorNext state cancelled)
    | _           => .refused
  | .nextN maxObjects cancelled =>
    match s.place with
    | .idle state =>
      if maxObjects = -1 ∨ maxObjects > 0 then s.replied (gckEnumeratorNextN state maxObjects cancelled)
      else .refused
    | _           => .refused
  | .nextAsync maxObjects =>
    match s.place with
    | .idle state =>
      if maxObjects = -1 ∨ maxObjects > 0 then
        .ok ⟨.running ⟨state.map checkOutState, wantedObjects maxObjects, none⟩, s.returned, none⟩
      else .refused
    | _           => .refused
  | .thread cancelled =>
    match s.place with
    | .running args =>
      match args.result with
      | some _ => .refused
      | none   =>
        match enumerateThread args cancelled with
        | none      => .aborted
        | some args => .ok ⟨.running args, s.returned, none⟩
    | _             => .refused
  | .nextFinish cancelled =>
    match s.place with
    | .running args =>
      match args.result with
      | none        => .refused
      | some result => s.replied (some (gckEnumeratorNextFinish args result cancelled))
    | _             => .refused
  | .dispose =>
    match s.place with
    | .idle state =>
      match finalize state with
      | none   => .aborted
      | some _ => .ok ⟨.finalized, s.returned, none⟩
    | _           => .refused

def Step (s : State) (e : Event) (s' : State) : Prop :=
  after s e = .ok s'

def Run (cs : List Creation) : List (State × Event × State) → State → Prop :=
  Transition.Run (· = State.new cs) Step

end Enumerator
