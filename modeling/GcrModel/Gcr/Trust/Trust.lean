import GcrModel.Gck.Attributes.Attributes
import GcrModel.Library.Transition
import Mathlib.Data.List.Nodup
import Mathlib.Data.Set.Insert

-- gcr-trust.c: the pinned certificates on the tokens that hold trust assertions.
namespace Trust

open GLib Gck
open Gck.Attributes (addUlong addString addBoolean add)

inductive Domain
  | gckError
  | gIoError
  | other (quark : Nat)
  deriving DecidableEq

structure Error where
  domain : Domain
  code   : Nat
  deriving DecidableEq

def ckrFunctionFailed : Error := ⟨.gckError, 6⟩
def ckrObjectHandleInvalid : Error := ⟨.gckError, 0x82⟩

-- Where a caller wants an error, if anywhere, and the error that is there.
abbrev Location := Option (Option Error)

def setError (error : Location) (e : Error) : Location :=
  error.map fun _ => some e

-- A certificate pinned for a purpose and a peer. There is no result of `gcr_certificate_get_der_data` where it gives
-- no data.
structure Pin where
  certificate : Option Bytes
  purpose     : Bytes
  peer        : Bytes
  deriving DecidableEq

-- The certificate is left out where it has no data (`g_return_if_fail`).
def prepareTrustAttrs (certificate : Option Bytes) (type : Nat) (builder : Attributes) : Attributes :=
  let builder := addUlong builder ckaClass ckoXTrustAssertion
  let builder := addUlong builder ckaXAssertionType type
  match certificate with
  | none      => builder
  | some data => add builder ckaXCertificateValue (some data)

def prepareIsCertificatePinned (pin : Pin) : Attributes :=
  let builder := prepareTrustAttrs pin.certificate cktXPinnedCertificate []
  let builder := addString builder ckaXPurpose pin.purpose
  addString builder ckaXPeer pin.peer

def prepareAddPinnedCertificate (pin : Pin) : Attributes :=
  let builder := prepareTrustAttrs pin.certificate cktXPinnedCertificate []
  let builder := addString builder ckaXPurpose pin.purpose
  let builder := addString builder ckaXPeer pin.peer
  addBoolean builder ckaToken true

def prepareRemovePinnedCertificate (pin : Pin) : Attributes :=
  let builder := prepareTrustAttrs pin.certificate cktXPinnedCertificate []
  let builder := addString builder ckaXPurpose pin.purpose
  addString builder ckaXPeer pin.peer

def prepareIsCertificateAnchored (certificate : Option Bytes) (purpose : Bytes) : Attributes :=
  let builder := prepareTrustAttrs certificate cktXAnchoredCertificate []
  addString builder ckaXPurpose purpose

-- The attributes of an object on a token.
abbrev Record := Nat → Option Bytes

def Record.contains (record : Record) (search : Attributes) : Bool :=
  search.all fun attr => record attr.type = attr.value

structure Object where
  id     : Nat
  record : Record

-- The objects on the slots of `gcr_pkcs11_get_trust_lookup_slots`, in the order in which they are found.
structure Tokens where
  objects : List Object
  nodup   : (objects.map Object.id).Nodup

def Tokens.enumerate (s : Tokens) (search : Attributes) : List Object :=
  s.objects.filter (·.record.contains search)

-- An object that is new is not one of those that are there.
def Tokens.fresh (s : Tokens) : Nat :=
  (s.objects.map Object.id).foldr max 0 + 1

theorem lt_foldr_max {ids : List Nat} : ∀ id ∈ ids, id < ids.foldr max 0 + 1 := by
  induction ids
  case nil => simp
  case cons n ids ih =>
    refine List.forall_mem_cons.mpr ⟨?_, fun id hid => ?_⟩
    · simp only [List.foldr_cons]
      omega
    · have hlt := ih id hid
      simp only [List.foldr_cons]
      omega

def Tokens.create (s : Tokens) (record : Record) : Tokens where
  objects := s.objects ++ [⟨s.fresh, record⟩]
  nodup   := by
    rw [List.map_append, List.map_singleton]
    refine List.nodup_append.mpr ⟨s.nodup, by simp, ?_⟩
    rintro id hid _ hfresh rfl
    have hlt : id < s.fresh := lt_foldr_max id hid
    have heq : id = s.fresh := List.mem_singleton.mp hfresh
    omega

def Tokens.remove (s : Tokens) (id : Nat) : Tokens where
  objects := s.objects.filter (·.id ≠ id)
  nodup   := s.nodup.sublist (List.filter_sublist.map _)

-- What the token makes of an object that it cannot destroy. Another process may have removed it.
inductive Destroyed
  | done
  | gone
  | failed (e : { e : Error // e ≠ ckrObjectHandleInvalid })

-- What happens during a call. The token may have values of its own for attributes that are not given, and an object
-- may be created in a call that gives an error.
structure Answers where
  initialized : Option Error
  lookup      : Option Error
  store       : Bool
  opened      : Option Error
  created     : Option Error
  kept        : Bool
  defaults    : Record
  destroyed   : Nat → Destroyed

-- The record of an object that is created.
def Answers.record (a : Answers) (attrs : Attributes) : Record := fun type =>
  match Attributes.find attrs type with
  | none      => a.defaults type
  | some attr => attr.value

def performIsCertificatePinned (a : Answers) (s : Tokens) (search : Attributes) (error : Location) : Bool × Location :=
  match a.initialized with
  | some e => (false, setError error e)
  | none   =>
    match a.lookup with
    | some e => (false, setError error e)
    | none   => ((s.enumerate search).head?.isSome, error)

def performAddPinnedCertificate (a : Answers) (s : Tokens) (search : Attributes) (error : Location) :
    Bool × Tokens × Location :=
  match a.initialized with
  | some e => (false, s, setError error e)
  | none   =>
    match a.lookup with
    | some e => (false, s, setError error e)
    | none   =>
      match (s.enumerate search).head? with
      | some _ => (true, s, error)
      | none   =>
        if a.store = false then (false, s, setError error ckrFunctionFailed)
        else
          match a.opened, a.created with
          | some e, _    => (false, s, setError error e)
          | none, none   => (true, s.create (a.record search), error)
          | none, some e => (false, if a.kept then s.create (a.record search) else s, setError error e)

-- There is no result where a missing error location is dereferenced.
def destroyAll (a : Answers) : Tokens → List Object → Location → Option (Bool × Tokens × Location)
  | s, [], error                => some (true, s, error)
  | s, object :: objects, error =>
    match a.destroyed object.id with
    | .done     => destroyAll a (s.remove object.id) objects error
    | .gone     => error.bind fun _ => destroyAll a (s.remove object.id) objects (some none)
    | .failed e => error.map fun _ => (false, s, some (some e.val))

def performRemovePinnedCertificate (a : Answers) (s : Tokens) (attrs : Attributes) (error : Location) :
    Option (Bool × Tokens × Location) :=
  match a.initialized with
  | some e => some (false, s, setError error e)
  | none   =>
    let (objects, error) :=
      match a.lookup with
      | some e => ([], setError error e)
      | none   => (s.enumerate attrs, error)
    match error with
    | none          => none
    | some (some e) => some (false, s, some (some e))
    | some none     => destroyAll a s objects error

inductive Operation
  | isCertificatePinned
  | addPinnedCertificate
  | removePinnedCertificate
  deriving DecidableEq

-- Whether there is an error location, and whether a task is cancelled when its result is taken.
inductive Mode
  | sync (error : Bool)
  | async (error cancelled : Bool)

structure Call where
  operation : Operation
  pin       : Pin
  mode      : Mode
  answers   : Answers

def perform (s : Tokens) (c : Call) (error : Location) : Option (Bool × Tokens × Location) :=
  match c.operation with
  | .isCertificatePinned     =>
    let (ret, error) := performIsCertificatePinned c.answers s (prepareIsCertificatePinned c.pin) error
    some (ret, s, error)
  | .addPinnedCertificate    => performAddPinnedCertificate c.answers s (prepareAddPinnedCertificate c.pin) error
  | .removePinnedCertificate => performRemovePinnedCertificate c.answers s (prepareRemovePinnedCertificate c.pin) error

-- The boolean that `g_task_propagate_boolean` gives for what a thread returns.
def threadResult (operation : Operation) (found : Bool) (error : Location) : Bool :=
  match error with
  | some none => if operation = .isCertificatePinned then found else true
  | _         => false

-- What a call returns, and the tokens after it.
def run (s : Tokens) (c : Call) : Option (Bool × Tokens) :=
  match c.mode with
  | .sync error        => (perform s c (if error then some none else none)).map fun (ret, s, _) => (ret, s)
  | .async _ cancelled =>
    (perform s c (some none)).map fun (found, s, error) =>
      (if cancelled then false else threadResult c.operation found error, s)

-- A call with what it returned.
abbrev Event := Call × Bool

def Step (s : Tokens) (e : Event) (s' : Tokens) : Prop :=
  run s e.1 = some (e.2, s')

-- Calls on any tokens.
def Run : List (Tokens × Event × Tokens) → Tokens → Prop :=
  Transition.Run (fun _ => True) Step

-- The triples that are pinned, and the certificates that are anchors for a purpose.
def Tokens.pins (s : Tokens) : Set Pin :=
  { pin | pin.certificate.isSome ∧ (s.enumerate (prepareIsCertificatePinned pin)).head?.isSome }

def Tokens.anchors (s : Tokens) : Set (Bytes × Bytes) :=
  { p | (s.enumerate (prepareIsCertificateAnchored (some p.1) p.2)).head?.isSome }

-- The triples that an add finds.
def Tokens.stored (s : Tokens) : Set Pin :=
  { pin | (s.enumerate (prepareAddPinnedCertificate pin)).head?.isSome }

def Answers.Failed (a : Answers) : Prop :=
  a.initialized.isSome ∨ a.lookup.isSome

-- The calls behave as those on a set of triples.
structure Law (s : Tokens) (e : Event) (s' : Tokens) : Prop where
  isPinned : e.1.operation = .isCertificatePinned → s' = s ∧ (e.2 = true → e.1.pin ∈ s.pins)
  answered : e.1.operation = .isCertificatePinned → ¬e.1.answers.Failed → (∀ error, e.1.mode ≠ .async error true) →
    e.1.pin ∈ s.pins → e.2 = true
  added    : e.1.operation = .addPinnedCertificate → e.2 = true → s'.pins = insert e.1.pin s.pins ∧ e.1.pin ∈ s'.stored
  again    : e.1.operation = .addPinnedCertificate → e.1.pin ∈ s.stored → s' = s
  removed  : e.1.operation = .removePinnedCertificate → e.2 = true → s'.pins = s.pins \ {e.1.pin}
  others   : ∀ pin, pin ≠ e.1.pin → (pin ∈ s'.pins ↔ pin ∈ s.pins) ∧ (pin ∈ s.stored → pin.certificate.isSome → pin ∈ s'.stored)
  anchors  : s'.anchors = s.anchors
  failed   : e.1.answers.Failed → s' = s
  raced    : e.1.operation = .removePinnedCertificate → ¬e.1.answers.Failed → (∀ error, e.1.mode ≠ .async error true) →
    (∀ id e', e.1.answers.destroyed id ≠ .failed e') → e.2 = true

-- No missing error location is dereferenced, and what a call does is what is stated.
def Behaves (s : Tokens) (c : Call) : Prop :=
  run s c ≠ none ∧ ∀ ret s', run s c = some (ret, s') → Law s (c, ret) s'

-- The certificate has data, and a remove that looks at its error has a location for it.
structure Regular (c : Call) : Prop where
  certificate : c.pin.certificate.isSome
  location    : c.operation = .removePinnedCertificate → c.mode = .sync false → c.answers.initialized.isSome

-- A triple was added and not removed since.
def Added (pin : Pin) : List (Tokens × Event × Tokens) → Prop
  | []                      => False
  | (_, (c, ret), _) :: ts =>
    (c.operation = .addPinnedCertificate ∧ c.pin = pin ∧ ret = true) ∨
      ¬(c.operation = .removePinnedCertificate ∧ c.pin = pin) ∧ Added pin ts

end Trust
