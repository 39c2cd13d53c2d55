import GcrModel.Gck.Enumerator.Enumerator

-- The three ways of gck-modules.c, gck-enumerator.c and gck-slot.c to find the tokens that a PKCS#11 URI selects.
namespace Uri

open Enumerator (GckEnumerator GckEnumeratorState Slot SessionOptions gckTokenInfoMatch matchInfoString)

structure ModuleInfo where
  libraryDescription : Option String
  manufacturerId     : Option String

-- `GckUriData` with the field that an enumerator does not read.
structure GckUriData extends Enumerator.GckUriData where
  moduleInfo : Option ModuleInfo

-- A module with what `gck_module_get_info` returns. A session that it opens has a handle.
structure Module extends Enumerator.Module where
  info    : Option ModuleInfo
  handles : ∀ slot ∈ slots, ∀ readWrite, (slot.functions.openSession readWrite).1 = 0 →
    (slot.functions.openSession readWrite).2 ≠ 0

-- `g_return_val_if_fail (info, FALSE)`
def gckModuleInfoMatch (m : ModuleInfo) : Option ModuleInfo → Bool
  | none      => false
  | some info =>
    matchInfoString m.libraryDescription info.libraryDescription && matchInfoString m.manufacturerId info.manufacturerId

def tokenInfoMatch (m : Enumerator.TokenInfo) : Option Enumerator.TokenInfo → Bool
  | none      => false
  | some info => gckTokenInfoMatch m info

def gckModuleMatch (self : Module) (uri : GckUriData) : Bool :=
  if uri.anyUnrecognized then false
  else
    match uri.moduleInfo with
    | some m => gckModuleInfoMatch m self.info
    | none   => true

def gckSlotMatch (module₁ : Module) (self : Slot) (uri : GckUriData) : Bool :=
  if uri.anyUnrecognized then false
  else
    let found := match uri.moduleInfo with
      | some _ => gckModuleMatch module₁ uri
      | none   => true
    if !found then false
    else
      match uri.tokenInfo with
      | some m => tokenInfoMatch m self.tokenInfo
      | none   => true

-- `only_one && results`
def enough (onlyOne : Bool) (results : List Slot) : Bool :=
  onlyOne && !results.isEmpty

-- The loop over the slots of a module.
def slotsForUri (uri : GckUriData) (onlyOne : Bool) : List Slot → List Slot → List Slot
  | [], results            => results
  | slot :: slots, results =>
    if enough onlyOne results then results
    else
      match uri.tokenInfo with
      | none   => slotsForUri uri onlyOne slots (slot :: results)
      | some m => slotsForUri uri onlyOne slots (if tokenInfoMatch m slot.tokenInfo then slot :: results else results)

def modulesForUri (uri : GckUriData) (onlyOne : Bool) : List Module → List Slot → List Slot
  | [], results               => results
  | module₁ :: modules, results =>
    if enough onlyOne results then results
    else if uri.moduleInfo.any (!gckModuleInfoMatch · module₁.info) then modulesForUri uri onlyOne modules results
    else modulesForUri uri onlyOne modules (slotsForUri uri onlyOne module₁.slots results)

def tokensForUri (modules : List Module) (uri : GckUriData) (onlyOne : Bool) : List Slot :=
  if uri.anyUnrecognized then [] else modulesForUri uri onlyOne modules []

def gckModulesTokensForUri (modules : List Module) (uri : GckUriData) : List Slot :=
  tokensForUri modules uri false

def gckModulesTokenForUri (modules : List Module) (uri : GckUriData) : Option Slot :=
  (tokensForUri modules uri true).head?

-- The enumerator of `gck_modules_enumerate_uri` when some objects are wanted from it.
def enumerateUri (modules : List Module) (uri : GckUriData) (options : SessionOptions) (enumerator : GckEnumerator)
    (wantObjects : Nat) : GckEnumeratorState :=
  { Enumerator.checkOutState (Enumerator.Creation.state
      ⟨.modules (modules.map Module.toModule) options, uri.toGckUriData, enumerator⟩) with wantObjects := wantObjects }

-- `state_modules` tells the description of the module that it takes, and `state_slot` opens a session on the slot.
def describes (modules : List Module) (args : GckEnumeratorState) : Prop :=
  args.handler = .modules → ∀ module₁ ∈ modules[modules.length - args.modules.length]?, module₁.info.isSome

def opened (args : GckEnumeratorState) : List Slot :=
  if args.handler = .slot then args.slot.toList else []

-- The slots that are searched up to the end. A call that has what it wants is followed by another one, when its
-- results have been taken.
inductive Searches (modules : List Module) : GckEnumeratorState → List Slot → Prop
  | finish {args} (h : Enumerator.forwardRound args = .inl (some args)) (hend : args.handler = .modules) :
    Searches modules args []
  | next {args args' slots} (h : Loop.Next Enumerator.forwardRound args args') (hinfo : describes modules args)
    (hrest : Searches modules args' slots) : Searches modules args (opened args ++ slots)
  | again {args args' results slots n} (h : Enumerator.forwardRound args = .inl (some args')) (hn : 0 < n)
    (hrest : Searches modules { args' with wantObjects := n, results := results } slots) : Searches modules args slots

-- The slots whose token can be read.
def readable (slots : List Slot) : List Slot :=
  slots.filter (·.tokenInfo.isSome)

-- Those for which `gck_slot_match` is true.
def slotsMatching (modules : List Module) (uri : GckUriData) : List Slot :=
  modules.flatMap fun module₁ => (readable module₁.slots).filter (gckSlotMatch module₁ · uri)

-- All the ways find the same slots. Results are put in front of those that there are.
structure Agrees (modules : List Module) (uri : GckUriData) (options : SessionOptions) (enumerator : GckEnumerator) :
    Prop where
  searched : ∀ n, 0 < n → ∃ slots, Searches modules (enumerateUri modules uri options enumerator n) slots
  same     : ∀ n slots, 0 < n → Searches modules (enumerateUri modules uri options enumerator n) slots →
    slots = slotsMatching modules uri
  tokens   : (readable (gckModulesTokensForUri modules uri)).reverse = slotsMatching modules uri
  token    : (gckModulesTokenForUri modules uri).isSome ↔ gckModulesTokensForUri modules uri ≠ []
  found    : ∀ slot, gckModulesTokenForUri modules uri = some slot → slot ∈ gckModulesTokensForUri modules uri

-- No module that the URI leaves out has a token that it selects.
def SelectsModules (modules : List Module) (uri : GckUriData) : Prop :=
  uri.anyUnrecognized ∨ ∀ module₁ ∈ modules, gckModuleMatch module₁ uri = true ∨
    ∀ slot ∈ readable module₁.slots, uri.tokenInfo.all (tokenInfoMatch · slot.tokenInfo) = false

end Uri
