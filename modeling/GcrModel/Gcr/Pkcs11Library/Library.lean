import GcrModel.Library.Transition

-- gcr-library.c: the PKCS#11 modules of the process, and the URIs of the slots for trust assertions.
namespace Pkcs11Library

open Transition (Outcome)

-- A `GckModule` object.
abbrev Module := Nat

abbrev Uri := String

abbrev Slot := Nat

-- `p11_kit_config_option` of p11-kit itself (`NULL`) or of a module, and `gck_modules_token_for_uri` and
-- `gck_modules_tokens_for_uri`, which find nothing where they fail.
structure Config where
  trustStore   : Option Module → Option Uri
  trustLookup  : Option Module → Option Uri
  tokenForUri  : List Module → Uri → Option Slot
  tokensForUri : List Module → Uri → List Slot

-- The variables of the file, and how many calls of `gck_modules_initialize_registered_async` are under way. The fields
-- from `storeSet` on only say what happened: what was set explicitly, whether a URI was asked for with the modules
-- initialized, what initializing the registered modules gave, and the modules set and added since then.
structure State where
  allModules         : List Module := []
  initializedModules : Bool := false
  initializedUris    : Bool := false
  trustStoreUri      : Option Uri := none
  trustLookupUris    : Option (List Uri) := none
  inFlight           : Nat := 0
  storeSet           : Option (Option Uri) := none
  lookupSet          : Option (Option (List Uri)) := none
  asked              : Bool := false
  registered         : List (List Module) := []
  modulesSet         : List Module := []
  added              : List Module := []

-- The first module with the option is used where p11-kit itself has none.
def Config.store (config : Config) (modules : List Module) : Option Uri :=
  config.trustStore none <|> modules.findSome? fun m => config.trustStore (some m)

def Config.lookups (config : Config) (modules : List Module) : List Uri :=
  (config.trustLookup none).toList ++ modules.filterMap fun m => config.trustLookup (some m)

def initializeUris (config : Config) (s : State) : State :=
  if s.initializedUris then s
  else if !s.initializedModules then s
  else
    { s with
      trustStoreUri   := config.store s.allModules
      trustLookupUris := some (config.lookups s.allModules)
      initializedUris := true }

-- The part of both ways to initialize under the lock, where there was no error.
def addRegistered (s : State) (results : List Module) : State :=
  if s.initializedModules then { s with registered := results :: s.registered }
  else
    { s with
      allModules         := s.allModules ++ results
      initializedModules := true
      registered         := results :: s.registered }

def onInitializeRegistered (s : State) (results : Option (List Module)) : Bool × State :=
  match results with
  | none         => (false, s)
  | some results => (true, addRegistered s results)

def gcrPkcs11InitializeAsync (s : State) : State :=
  if s.initializedModules then s else { s with inFlight := s.inFlight + 1 }

def gcrPkcs11Initialize (s : State) (results : Option (List Module)) : Bool × State :=
  if s.initializedModules then (true, s) else onInitializeRegistered s results

def gcrPkcs11SetModules (s : State) (modules : List Module) : State :=
  { s with allModules := modules, initializedModules := true, modulesSet := modules, added := [] }

def gcrPkcs11AddModule (s : State) (m : Module) : State :=
  { s with allModules := s.allModules ++ [m], added := s.added ++ [m] }

def State.ask (s : State) : State :=
  if s.initializedModules then { s with asked := true } else s

def gcrPkcs11GetTrustStoreSlot (config : Config) (s : State) : Option Slot × State :=
  if !s.initializedModules then (none, s)
  else
    let s := initializeUris config s
    (s.trustStoreUri.bind (config.tokenForUri s.allModules), s.ask)

def gcrPkcs11GetTrustLookupSlots (config : Config) (s : State) : List Slot × State :=
  if !s.initializedModules then ([], s)
  else
    let s := initializeUris config s
    ((s.trustLookupUris.getD []).flatMap (config.tokensForUri s.allModules), s.ask)

def gcrPkcs11GetTrustStoreUri (config : Config) (s : State) : Option Uri × State :=
  let s := initializeUris config s
  (s.trustStoreUri, s.ask)

def gcrPkcs11SetTrustStoreUri (s : State) (uri : Option Uri) : State :=
  { s with trustStoreUri := uri, initializedUris := true, storeSet := some uri }

def gcrPkcs11GetTrustLookupUris (config : Config) (s : State) : Option (List Uri) × State :=
  let s := initializeUris config s
  (s.trustLookupUris, s.ask)

def gcrPkcs11SetTrustLookupUris (s : State) (uris : Option (List Uri)) : State :=
  { s with trustLookupUris := uris, initializedUris := true, lookupSet := some uris }

-- The calls of an application, with what initializing the registered modules gives, if it does not fail, and the end of
-- a call of `gck_modules_initialize_registered_async`.
inductive Event
  | initializeSync (results : Option (List Module))
  | initializeAsync
  | onInitializeRegistered (results : Option (List Module))
  | getModules
  | setModules (modules : List Module)
  | addModule (m : Module)
  | getTrustStoreSlot
  | getTrustLookupSlots
  | getTrustStoreUri
  | setTrustStoreUri (uri : Option Uri)
  | getTrustLookupUris
  | setTrustLookupUris (uris : Option (List Uri))

def after (config : Config) (s : State) : Event → Outcome State
  | .initializeSync results         => .ok (gcrPkcs11Initialize s results).2
  | .initializeAsync                => .ok (gcrPkcs11InitializeAsync s)
  | .onInitializeRegistered results =>
    if s.inFlight = 0 then .refused
    else .ok (onInitializeRegistered { s with inFlight := s.inFlight - 1 } results).2
  | .getModules                     => .ok s
  | .setModules modules             => .ok (gcrPkcs11SetModules s modules)
  | .addModule m                    => .ok (gcrPkcs11AddModule s m)
  | .getTrustStoreSlot              => .ok (gcrPkcs11GetTrustStoreSlot config s).2
  | .getTrustLookupSlots            => .ok (gcrPkcs11GetTrustLookupSlots config s).2
  | .getTrustStoreUri               => .ok (gcrPkcs11GetTrustStoreUri config s).2
  | .setTrustStoreUri uri           => .ok (gcrPkcs11SetTrustStoreUri s uri)
  | .getTrustLookupUris             => .ok (gcrPkcs11GetTrustLookupUris config s).2
  | .setTrustLookupUris uris        => .ok (gcrPkcs11SetTrustLookupUris s uris)

def Step (config : Config) (s : State) (e : Event) (s' : State) : Prop :=
  after config s e = .ok s'

def Run (config : Config) : List (State × Event × State) → State → Prop :=
  Transition.Run (· = {}) (Step config)

-- The modules that were set, then those that were added, with what one initialization gave somewhere between them.
def Listed (s : State) : Prop :=
  ∃ before results later, s.allModules = s.modulesSet ++ before ++ results ++ later ∧ s.added = before ++ later ∧
    (results = [] ∨ results ∈ s.registered)

-- A setting is what was set explicitly, if anything was, and what is configured for the modules otherwise.
structure Independent (config : Config) (s : State) : Prop where
  store   : s.asked = true → s.trustStoreUri = s.storeSet.getD (config.store s.allModules)
  lookups : s.asked = true →
    s.trustLookupUris.getD [] = (s.lookupSet.map (·.getD [])).getD (config.lookups s.allModules)
  modules : Listed s

def Event.Asks : Event → Prop
  | .getTrustStoreSlot | .getTrustLookupSlots | .getTrustStoreUri | .getTrustLookupUris => True
  | _ => False

-- The modules there are behind a call, where they are initialized.
def Event.modules (s : State) : Event → List Module
  | .setModules modules => modules
  | .addModule m        => s.allModules ++ [m]
  | _                   => s.allModules

-- When a URI is first asked for, not just one of the settings was set, unless nothing is configured for the other one; and
-- later the modules are not changed, unless the same is configured for a setting that was not set.
structure Regular (config : Config) (s : State) (e : Event) : Prop where
  asks    : e.Asks → s.initializedModules → s.asked = false →
    (s.storeSet.isSome → s.lookupSet = none → config.lookups s.allModules = []) ∧
    (s.lookupSet.isSome → s.storeSet = none → config.store s.allModules = none)
  modules : s.asked →
    (s.storeSet = none → config.store (e.modules s) = config.store s.allModules) ∧
    (s.lookupSet = none → config.lookups (e.modules s) = config.lookups s.allModules)

end Pkcs11Library
