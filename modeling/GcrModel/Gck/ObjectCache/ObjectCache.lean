import GcrModel.Gck.Attributes.Attributes

-- gck-object-cache.c: attributes are looked up in the cache of an object, or read from the module.
namespace ObjectCache

open Gck

-- The interface of an object, of which each part may be missing, and what its module answers.
structure Env (ε : Type) where
  defaultTypes : Option (List Nat)
  fill         : Option (Option Attributes → Attributes → Option Attributes)
  read         : List Nat → Except ε Attributes

-- If the object is a cache, there are the attributes in it or NULL.
structure Object where
  id    : Nat
  cache : Option (Option Attributes)
  deriving DecidableEq, Repr

-- The attributes or NULL, and the error that is set.
structure Returned (ε : Type) where
  attrs : Option Attributes
  error : Option ε
  deriving DecidableEq, Repr

-- A task that is complete: what it propagates, and the attributes that its call has built.
structure Task (ε : Type) where
  source : Nat
  value  : Except ε Bool
  built  : Option Attributes

variable {ε : Type} (env : Env ε)

def gckObjectGetFull (types : List Nat) : Returned ε :=
  match env.read types with
  | .ok attrs => ⟨some attrs, none⟩
  | .error e  => ⟨none, some e⟩

-- The task that is passed to the callback.
def gckObjectGetAsync (object : Object) (types : List Nat) : Task ε :=
  match env.read types with
  | .ok attrs => ⟨object.id, .ok true, some attrs⟩
  | .error e  => ⟨object.id, .error e, none⟩

def propagate (result : Task ε) : Bool × Option ε :=
  match result.value with
  | .ok ret  => (ret, none)
  | .error e => (false, some e)

def gckObjectGetFinish (result : Task ε) : Returned ε :=
  match propagate result with
  | (true, error)  => ⟨result.built, error⟩
  | (false, error) => ⟨none, error⟩

def fill (cache : Option Attributes) (attrs : Attributes) : Option Attributes :=
  match env.fill with
  | none      => cache
  | some fill => fill cache attrs

-- The types that are passed, or else the default ones if there are any.
def typesToUpdate : Option (List Nat) → Option (List Nat)
  | some types => some types
  | none       =>
    match env.defaultTypes with
    | none       => none
    | some types => if types.length = 0 then none else some types

-- Whether it was successful, the error, and the attributes in the cache.
def update (cache : Option Attributes) (types : Option (List Nat)) : (Bool × Option ε) × Option Attributes :=
  match typesToUpdate env types with
  | none       => ((false, none), cache)
  | some types =>
    match gckObjectGetFull env types with
    | ⟨some attrs, error⟩ => ((true, error), fill env cache attrs)
    | ⟨none, error⟩       => ((false, error), cache)

def onCacheObjectGet (object : Object) (cache : Option Attributes) (result : Task ε) : Task ε × Object :=
  match gckObjectGetFinish result with
  | ⟨some attrs, none⟩ => (⟨object.id, .ok true, none⟩, { object with cache := some (fill env cache attrs) })
  -- Nothing is filled in if there are no attributes.
  | ⟨none, none⟩       => (⟨object.id, .ok true, none⟩, object)
  | ⟨_, some e⟩        => (⟨object.id, .error e, none⟩, object)

-- There is no task if it never completes.
def updateAsync (object : Object) (cache : Option Attributes) (types : Option (List Nat)) : Option (Task ε × Object) :=
  match typesToUpdate env types with
  | none       => none
  | some types => some (onCacheObjectGet env object cache (gckObjectGetAsync env object types))

def gTaskIsValid (result : Task ε) (object : Object) : Bool :=
  result.source = object.id

def updateFinish (object : Object) (result : Task ε) : Bool × Option ε :=
  if gTaskIsValid result object then propagate result else (false, none)

def checkHaveAttributes (attrs : Option Attributes) (types : Option (List Nat)) : Bool :=
  match attrs with
  | none       => false
  | some attrs => (types.getD []).all fun type => (attrs.find type).isSome

def lookup (object : Object) (types : Option (List Nat)) : Returned ε × Object :=
  match object.cache with
  | some cache =>
    if checkHaveAttributes cache types then (⟨cache, none⟩, object)
    else
      match update env cache types with
      | ((false, error), cache) => (⟨none, error⟩, { object with cache := some cache })
      | ((true, error), cache)  => (⟨cache, error⟩, { object with cache := some cache })
  | none => (gckObjectGetFull env (types.getD []), object)

def lookupAsync (object : Object) (types : Option (List Nat)) : Option (Task ε × Object) :=
  match object.cache with
  | some cache =>
    if checkHaveAttributes cache types then some (⟨object.id, .ok true, none⟩, object)
    else updateAsync env object cache types
  | none => some (gckObjectGetAsync env object (types.getD []), object)

def lookupFinish (object : Object) (result : Task ε) : Returned ε :=
  match object.cache with
  | some cache =>
    if !gTaskIsValid result object then
      match updateFinish object result with
      | (false, error) => ⟨none, error⟩
      | (true, error)  => ⟨cache, error⟩
    else ⟨cache, none⟩
  | none => gckObjectGetFinish result

end ObjectCache
