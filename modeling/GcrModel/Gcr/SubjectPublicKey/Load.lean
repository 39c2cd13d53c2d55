import GcrModel.Gck.Attributes.Attributes

-- gcr-subject-public-key.c: how the attributes of a public key are loaded, with the errors that are set.
namespace SubjectPublicKey

open GLib Gck
open Gck.Attributes (find findUlong addUlong setAll)

-- Attributes that are there and not invalid.
def checkValid (types : List Nat) (builder : Attributes) : Bool :=
  types.all fun type => ((find builder type).bind Attribute.value).isSome

def checkObjectBasics (builder : Attributes) : Option (Nat × Nat) :=
  match findUlong builder ckaClass with
  | none       => none
  | some klass =>
    if klass = ckoPublicKey ∨ klass = ckoPrivateKey then (findUlong builder ckaKeyType).map (klass, ·)
    else if klass = ckoCertificate then (findUlong builder ckaCertificateType).map (klass, ·)
    else none

def x509Types : List Nat := [ckaValue]
def rsaTypes : List Nat := [ckaModulus, ckaPublicExponent]
def dsaTypes : List Nat := [ckaPrime, ckaSubprime, ckaBase, ckaValue]
def ecTypes : List Nat := [ckaEcParams, ckaEcPoint]

def checkAttributes (builder : Attributes) : Bool :=
  match checkObjectBasics builder with
  | none               => false
  | some (klass, type) =>
    if klass = ckoCertificate then
      if type = ckcX509 then checkValid x509Types builder else false
    else if type = ckkRsa then checkValid rsaTypes builder
    else if type = ckkDsa then checkValid dsaTypes builder
    else if type = ckkEc then checkValid ecTypes builder
    else false

-- The errors of the module, those that are set here, and that of a task that is cancelled.
inductive Error (ε : Type*)
  | given (error : ε)
  | attributeTypeInvalid
  | unrecognized
  | templateInconsistent
  | cancelled
  deriving DecidableEq

-- The object that is loaded. A read gives attributes, which can be NULL, or an error; the search tells whether there is
-- a public key, and `lookupPublic` is what a read from that key gives.
structure Object (ε : Type*) where
  isCache      : Bool
  cached       : Option Attributes
  lookup       : List Nat → Except ε (Option Attributes)
  findPublic   : Attributes → Except ε Bool
  lookupPublic : List Nat → Except ε (Option Attributes)

-- The builder, and the place for an error.
structure Loading (ε : Type*) where
  builder : Attributes
  lerror  : Option (Error ε)

namespace Loading

variable {ε : Type*}

-- `g_propagate_error` and `g_set_error_literal` leave an error that is there.
def setError (s : Loading ε) (error : Error ε) : Loading ε :=
  { s with lerror := s.lerror.or (some error) }

-- `gck_builder_set_all`, which does nothing with NULL
def setAll (s : Loading ε) (attrs : Option Attributes) : Loading ε :=
  { s with builder := Attributes.setAll s.builder (attrs.getD []) }

end Loading

variable {ε ν : Type*}

def basicTypes : List Nat := [ckaClass, ckaKeyType, ckaCertificateType]

def loadObjectBasics (object : Object ε) (s : Loading ε) : Bool × Loading ε :=
  if (checkObjectBasics s.builder).isSome then (true, s)
  else
    match object.lookup basicTypes with
    | .error error => (false, s.setError (.given error))
    | .ok attrs    =>
      let s := s.setAll attrs
      ((checkObjectBasics s.builder).isSome, s)

-- `load_x509_attributes` and `load_rsa_attributes`
def loadTypes (object : Object ε) (types : List Nat) (s : Loading ε) : Bool × Loading ε :=
  if checkValid types s.builder then (true, s)
  else
    match object.lookup types with
    | .error error => (false, s.setError (.given error))
    | .ok attrs    =>
      let s := s.setAll attrs
      (checkValid types s.builder, s)

def lookupPublicKey (object : Object ε) (s : Loading ε) : Bool × Loading ε :=
  match object.lookup [ckaId] with
  | .error error => (false, s.setError (.given error))
  | .ok attrs    =>
    match find (attrs.getD []) ckaId with
    | none    => (false, s.setError .attributeTypeInvalid)
    | some id =>
      if id.value = none then (false, s.setError .attributeTypeInvalid)
      else
        match object.findPublic (addUlong [] ckaClass ckoPublicKey ++ [id]) with
        | .error error => (false, s.setError (.given error))
        | .ok found    => (found, s)

-- `load_dsa_attributes`, which changes the class, and `load_ec_attributes`
def loadPublicTypes (object : Object ε) (types : List Nat) (setClass : Bool) (s : Loading ε) : Bool × Loading ε :=
  if checkValid types s.builder then (true, s)
  else
    match findUlong s.builder ckaClass with
    | none       => (false, s)
    | some klass =>
      match if klass = ckoPrivateKey then lookupPublicKey object s else (true, s) with
      | (false, s) => (false, s)
      | (true, s)  =>
        match if klass = ckoPrivateKey then object.lookupPublic types else object.lookup types with
        | .error error => (false, s.setError (.given error))
        | .ok attrs    =>
          let publicKey := Attributes.ofUlong ckoPublicKey
          let s := if setClass then { s with builder := Attributes.set s.builder ckaClass publicKey } else s
          let s := s.setAll attrs
          (checkValid types s.builder, s)

def loadKeyType (object : Object ε) (klass type : Nat) (s : Loading ε) : Bool × Loading ε :=
  if klass = ckoCertificate then
    if type = ckcX509 then loadTypes object x509Types s else (false, s)
  else if klass = ckoPublicKey ∨ klass = ckoPrivateKey then
    if type = ckkRsa then loadTypes object rsaTypes s
    else if type = ckkDsa then loadPublicTypes object dsaTypes true s
    else if type = ckkEc then loadPublicTypes object ecTypes false s
    else (false, s)
  else (false, s)

-- Where the class or the type is not found, nothing looks at whether there is an error.
def loadAttributes (object : Object ε) (s : Loading ε) : Bool × Loading ε :=
  match loadObjectBasics object s with
  | (false, s) => (false, s)
  | (true, s)  =>
    match checkObjectBasics s.builder with
    | none               => (false, s)
    | some (klass, type) =>
      match loadKeyType object klass type s with
      | (true, s)  => (true, s)
      | (false, s) => (false, s.setError .unrecognized)

def lookupAttributes (object : Object ε) : Attributes :=
  if object.isCache then object.cached.getD [] else []

-- `forAttributes` is `_gcr_subject_public_key_for_attributes`.
def build (forAttributes : Attributes → Option ν) (s : Loading ε) : Option ν × Option (Error ε) :=
  match forAttributes s.builder with
  | none     => (none, (s.setError .templateInconsistent).lerror)
  | some asn => (some asn, s.lerror)

-- `_gcr_subject_public_key_load`
def load (forAttributes : Attributes → Option ν) (key : Object ε) : Option ν × Option (Error ε) :=
  let s := ⟨lookupAttributes key, none⟩
  if checkAttributes s.builder then build forAttributes s
  else
    match loadAttributes key s with
    | (false, s) => (none, s.lerror)
    | (true, s)  => build forAttributes s

-- What a task is completed with: `g_task_return_boolean`, or `g_task_return_error`, also with NULL for the error.
inductive Completion (ε : Type*)
  | boolean
  | error (error : Option (Error ε))
  deriving DecidableEq

-- `thread_key_attributes`
def threadKeyAttributes (object : Object ε) (builder : Attributes) : Completion ε × Attributes :=
  match loadAttributes object ⟨builder, none⟩ with
  | (true, s)  => (.boolean, s.builder)
  | (false, s) => (.error s.lerror, s.builder)

-- `_gcr_subject_public_key_load_async`: how the task is completed, and the builder of its closure.
def loadAsync (key : Object ε) : Completion ε × Attributes :=
  let builder := lookupAttributes key
  if checkAttributes builder then (.boolean, builder) else threadKeyAttributes key builder

-- `g_task_propagate_boolean` gives an error of its own if the task is cancelled by then.
def propagateBoolean (cancelled : Bool) (completion : Completion ε) : Bool × Option (Error ε) :=
  if cancelled then (false, some .cancelled)
  else
    match completion with
    | .boolean     => (true, none)
    | .error error => (false, error)

-- `_gcr_subject_public_key_load_finish`
def loadFinish (forAttributes : Attributes → Option ν) (cancelled : Bool) (result : Completion ε × Attributes) :
    Option ν × Option (Error ε) :=
  match propagateBoolean cancelled result.1 with
  | (false, error) => (none, error)
  | (true, error)  => build forAttributes ⟨result.2, error⟩

end SubjectPublicKey
