import GcrModel.Gcr.SubjectPublicKey.Load

-- gcr-key-mechanisms.c, and the key of a certificate request.
namespace CertificateRequest

open GLib Gck
open Gck.Attributes (find findBoolean setAll)

inductive Oid
  | pkix1Rsa
  | pkix1Dsa
  | pkix1Sha1WithRsa
  | pkix1Sha1WithDsa
  | other (n : Nat)
  deriving DecidableEq

-- A SubjectPublicKeyInfo.
structure PublicKey where
  algorithm  : Oid
  parameters : Bytes
  encoded    : Bytes
  deriving DecidableEq

-- What is outside: the signature of a request's information, and the decoding of the attributes of a key
-- (`_gcr_subject_public_key_for_attributes`).
structure Library where
  encodeInfo   : Bytes → Bytes → Bytes
  sha1         : Bytes → Bytes
  publicKeyFor : Attributes → Option PublicKey

-- The key and what the module answers, where there is no result for an error. The cached attributes are those when the
-- key is loaded and those when the mechanisms are checked. `gck_object_get_full` gives an attribute for each type.
structure Module where
  isCache          : Bool
  cached           : Option Attributes
  cachedForCheck   : Option Attributes
  lookup           : List Nat → Option Attributes
  findPublic       : Attributes → Option Bool
  lookupPublic     : List Nat → Option Attributes
  getFull          : List Nat → Option Attributes
  getFull_types    : ∀ types attrs, getFull types = some attrs → attrs.map Attribute.type = types
  getMechanisms    : Option (List Nat)
  sign             : Nat → Bytes → Option Bytes

-- The key, or nothing with an error or without one.
inductive Load
  | loaded (key : PublicKey)
  | failed
  | silent

-- The key that is loaded, where an error has nothing to tell but that there is one.
def Module.object (m : Module) : SubjectPublicKey.Object Unit where
  isCache            := m.isCache
  cached             := m.cached
  lookup types       := (m.lookup types).elim (.error ()) fun attrs => .ok (some attrs)
  findPublic attrs   := (m.findPublic attrs).elim (.error ()) .ok
  lookupPublic types := (m.lookupPublic types).elim (.error ()) fun attrs => .ok (some attrs)

-- `_gcr_subject_public_key_load`, and `_gcr_subject_public_key_load_async` with its thread and
-- `_gcr_subject_public_key_load_finish`, which come to the same. A task that returns no error has none to give.
def subjectPublicKeyLoad (lib : Library) (m : Module) : Load :=
  match SubjectPublicKey.load lib.publicKeyFor m.object with
  | (some key, _)  => .loaded key
  | (none, some _) => .failed
  | (none, none)   => .silent

def checkHaveAttributes (attrs : Option Attributes) (types : List Nat) : Bool :=
  match attrs with
  | none       => false
  | some attrs => types.all fun type => (find attrs type).isSome

def findFirstUsableMechanism (m : Module) (attrs : Attributes) (mechanisms : List Nat) (action : Nat) : Nat :=
  if findBoolean attrs action = some false then gckInvalid
  else
    match m.getMechanisms with
    | none       => gckInvalid
    | some mechs => (mechanisms.find? (mechs.contains ·)).getD gckInvalid

def keyMechanismsCheck (m : Module) (mechanisms : List Nat) (action : Nat) : Nat :=
  let cached := if m.isCache ∧ checkHaveAttributes m.cachedForCheck [action] then m.cachedForCheck else none
  match cached.or (m.getFull [action]) with
  | none       => gckInvalid
  | some attrs => findFirstUsableMechanism m attrs mechanisms action

-- `gck_object_cache_lookup_async` and `gck_object_cache_lookup_finish`. The result of a task is always valid, so that
-- whether an update failed is not looked at; the cache is filled by one that succeeds.
def cacheLookupFinish (m : Module) (types : List Nat) : Option Attributes :=
  if m.isCache then
    if checkHaveAttributes m.cachedForCheck types then m.cachedForCheck
    else
      match m.getFull types with
      | none       => m.cachedForCheck
      | some attrs => some (setAll (m.cachedForCheck.getD []) attrs)
  else m.getFull types

-- `_gcr_key_mechanisms_check_async` and `_gcr_key_mechanisms_check_finish`
def keyMechanismsCheckFinish (m : Module) (mechanisms : List Nat) (action : Nat) : Nat :=
  match cacheLookupFinish m [action] with
  | none       => gckInvalid
  | some attrs => findFirstUsableMechanism m attrs mechanisms action

end CertificateRequest
