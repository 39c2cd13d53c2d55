import GcrModel.GLib.Strings
import GcrModel.Library.Loop
import GcrModel.Library.Transition

-- gcr-certificate-chain.c
namespace CertificateChain

open GLib

-- The types of certificates that `prep_chain_private_thread_safe` tells apart.
inductive Kind
  | simple
  | pkcs11
  | other
  deriving DecidableEq, Repr

-- A GcrCertificate.
structure Object where
  id   : Nat
  kind : Kind
  der  : Bytes
  deriving DecidableEq, Repr

-- An element of a chain: an object, or a simple certificate with its data, of which the object is
-- the `Q_ORIGINAL_CERT`.
structure Certificate where
  object : Object
  copied : Bool
  deriving DecidableEq, Repr

-- The message of a GError.
abbrev Error := String

inductive Status
  | unknown
  | incomplete
  | distrusted
  | selfsigned
  | pinned
  | anchored
  deriving DecidableEq, Repr

-- GCR_CERTIFICATE_CHAIN_NO_LOOKUPS
def noLookups : UInt32 :=
  1

structure ChainPrivate where
  certificates : List Certificate
  status       : Status
  -- Used in build operation
  purpose      : Option String
  peer         : Option String
  flags        : UInt32
  deriving DecidableEq, Repr

-- The names in DER data, and the answers of the PKCS#11 modules for the certificate with some data.
structure Lookups where
  subject               : Bytes → Option Bytes
  issuer                : Bytes → Option Bytes
  isCertificatePinned   : Bytes → Option String → String → Except Error Bool
  isCertificateAnchored : Bytes → Option String → Except Error Bool
  lookupIssuer          : Bytes → Except Error (Option Object)

variable (env : Lookups)

-- `gcr_certificate_is_issuer`
def isIssuer (self issuer : Object) : Bool :=
  match env.subject issuer.der with
  | none           => false
  | some subjectDn =>
    match env.issuer self.der with
    | none          => false
    | some issuerDn => subjectDn = issuerDn

def newChainPrivate : ChainPrivate where
  certificates := []
  status       := .unknown
  purpose      := none
  peer         := none
  flags        := 0

def prepChainPrivate (orig : ChainPrivate) (purpose : String) (peer : Option String) (flags : UInt32) : ChainPrivate where
  certificates := orig.certificates
  status       := orig.status
  purpose      := some purpose
  peer         := peer
  flags        := flags

def threadSafe (certificate : Certificate) : Certificate :=
  -- We regard these types as thread safe
  if certificate.copied ∨ certificate.object.kind = .simple ∨ certificate.object.kind = .pkcs11 then
    certificate
  -- Otherwise copy the certificate data
  else
    { certificate with copied := true }

def prepChainPrivateThreadSafe (orig : ChainPrivate) (purpose : String) (peer : Option String) (flags : UInt32) :
    ChainPrivate :=
  let pv := prepChainPrivate orig purpose peer flags
  { pv with certificates := pv.certificates.map threadSafe }

-- If there's an original certificate set, then replace it back
def cleanupChainPrivate (pv : ChainPrivate) : ChainPrivate :=
  { pv with certificates := pv.certificates.map fun certificate => { certificate with copied := false } }

-- `g_ptr_array_remove_index_fast` moves the last element to the index.
def removeIndexFast (certificates : List Certificate) (i : Nat) : List Certificate :=
  match certificates.getLast? with
  | none      => []
  | some last => (certificates.set i last).dropLast

def popCertificate (certificates : List Certificate) (issued : Option Certificate) :
    Option (Certificate × List Certificate) :=
  match certificates.findIdx? fun certificate =>
    issued.all fun issued => isIssuer env issued.object certificate.object with
  | none   => none
  | some i => certificates[i]?.map fun certificate => (certificate, removeIndexFast certificates i)

def ChainPrivate.lookups (pv : ChainPrivate) : Bool :=
  ¬(pv.flags &&& noLookups) = noLookups

-- The variables of the loop in `perform_build_chain`.
structure Build where
  pv          : ChainPrivate
  input       : List Certificate
  certificate : Certificate

def nextCertificate (b : Build) : Except Error (Option (Certificate × List Certificate)) :=
  -- Get the next certificate
  match popCertificate env b.input (some b.certificate) with
  | some (certificate, input) => .ok (some (certificate, input))
  | none =>
    -- No more in chain, try to lookup
    if b.pv.lookups then
      match env.lookupIssuer b.certificate.object.der with
      | .error e          => .error e
      | .ok none          => .ok none
      | .ok (some object) => .ok (some (⟨object, false⟩, b.input))
    -- No more in chain, and can't lookup
    else
      .ok none

def buildRound (b : Build) : Except Error ChainPrivate ⊕ Build :=
  -- Stop the chain if previous was self-signed
  if isIssuer env b.certificate.object b.certificate.object then
    .inl (.ok { b.pv with status := .selfsigned })
  else
    match nextCertificate env b with
    | .error e => .inl (.error e)
    -- Stop the chain if nothing found
    | .ok none => .inl (.ok { b.pv with status := .incomplete })
    | .ok (some (certificate, input)) =>
      let pv := { b.pv with certificates := b.pv.certificates ++ [certificate] }
      -- See if this certificate is an anchor
      if pv.lookups then
        match env.isCertificateAnchored certificate.object.der pv.purpose with
        | .error e  => .inl (.error e)
        -- Stop the chain at the first anchor
        | .ok true  => .inl (.ok { pv with status := .anchored })
        | .ok false => .inr ⟨pv, input, certificate⟩
      else
        .inr ⟨pv, input, certificate⟩

def isPinned (pv : ChainPrivate) (certificate : Certificate) : Except Error Bool :=
  match pv.lookups, pv.peer with
  | true, some peer => env.isCertificatePinned certificate.object.der pv.purpose peer
  | _, _            => .ok false

-- Nothing is returned when the loop takes more than `fuel` rounds.
def performBuildChain (fuel : Nat) (pv : ChainPrivate) : Option (Except Error ChainPrivate) :=
  let pv := { pv with status := .unknown }
  match popCertificate env pv.certificates none with
  -- This chain is built
  | none => some (.ok pv)
  | some (certificate, input) =>
    let pv := { pv with certificates := [certificate] }
    -- First check for pinned certificates
    match isPinned env pv certificate with
    | .error e  => some (.error e)
    -- The rest of the chain is irrelevant, so truncate chain and consider built.
    | .ok true  => some (.ok { pv with status := .pinned })
    | .ok false => Loop.run (buildRound env) fuel ⟨pv, input, certificate⟩

def gcrCertificateChainAdd (self : ChainPrivate) (certificate : Object) : ChainPrivate :=
  { self with certificates := self.certificates ++ [⟨certificate, false⟩], status := .unknown }

-- The error or TRUE, and the chain afterwards.
def gcrCertificateChainBuild (fuel : Nat) (self : ChainPrivate) (purpose : String) (peer : Option String)
    (flags : UInt32) : Option (Except Error Unit × ChainPrivate) :=
  (performBuildChain env fuel (prepChainPrivate self purpose peer flags)).map fun
    | .ok pv   => (.ok (), cleanupChainPrivate pv)
    | .error e => (.error e, self)

end CertificateChain

-- A chain object and the builds in other threads that were started on it.
namespace CertificateChain

-- A GTask with its `Q_OPERATION_DATA`.
structure Task where
  id     : Nat
  pv     : ChainPrivate
  -- What the thread returned.
  result : Option (Except Error Unit)
  -- The operation data and the certificates added up to then, when the build was started.
  input  : ChainPrivate
  added  : List Object

structure State where
  self  : ChainPrivate
  tasks : List Task
  -- All certificates that were added, and those that were added after the last build completed.
  added : List Object
  since : List Object
  -- What the build was given of which the chain is the result.
  built : Option ChainPrivate

def State.new : State where
  self  := newChainPrivate
  tasks := []
  added := []
  since := []
  built := none

inductive Event
  | add (certificate : Object)
  | build (env : Lookups) (fuel : Nat) (purpose : String) (peer : Option String) (flags : UInt32)
  | buildAsync (id : Nat) (purpose : String) (peer : Option String) (flags : UInt32)
  | thread (id : Nat) (env : Lookups) (fuel : Nat)
  | buildFinish (id : Nat)

def add (s : State) (certificate : Object) : State :=
  { s with
    self  := gcrCertificateChainAdd s.self certificate
    added := s.added ++ [certificate]
    since := s.since ++ [certificate]
    built := none }

-- The chain after a build that was given `input`.
def complete (s : State) (self input : ChainPrivate) : State :=
  { s with self := self, since := [], built := some input }

def build (s : State) (env : Lookups) (fuel : Nat) (purpose : String) (peer : Option String) (flags : UInt32) :
    Option State :=
  match gcrCertificateChainBuild env fuel s.self purpose peer flags with
  | none                  => none
  | some (.ok (), self)   => some (complete s self (prepChainPrivate s.self purpose peer flags))
  | some (.error _, self) => some { s with self := self }

-- `gcr_certificate_chain_build_async`
def buildAsync (s : State) (id : Nat) (purpose : String) (peer : Option String) (flags : UInt32) : State :=
  let pv := prepChainPrivateThreadSafe s.self purpose peer flags
  { s with tasks := ⟨id, pv, none, pv, s.added⟩ :: s.tasks }

def setTask (s : State) (task : Task) : State :=
  { s with tasks := task :: s.tasks.filter (·.id ≠ task.id) }

def findTask (s : State) (id : Nat) : Option Task :=
  s.tasks.find? (·.id = id)

-- `thread_build_chain`
def threadBuildChain (s : State) (id : Nat) (env : Lookups) (fuel : Nat) : Option State :=
  match findTask s id with
  | none => none
  | some task =>
    match task.result with
    | some _ => none
    | none   =>
      match performBuildChain env fuel task.pv with
      | none            => none
      | some (.ok pv)   => some (setTask s { task with pv := pv, result := some (.ok ()) })
      | some (.error e) => some (setTask s { task with result := some (.error e) })

-- `gcr_certificate_chain_build_finish`
def buildFinish (s : State) (id : Nat) : Option State :=
  match findTask s id with
  | none => none
  | some task =>
    let s := { s with tasks := s.tasks.filter (·.id ≠ id) }
    match task.result with
    | none           => none
    | some (.error _) => some s
    | some (.ok ())  => some (complete s (cleanupChainPrivate task.pv) task.input)

def after (s : State) : Event → Option State
  | .add certificate                    => some (add s certificate)
  | .build env fuel purpose peer flags  => build s env fuel purpose peer flags
  | .buildAsync id purpose peer flags   =>
    -- A new GTask
    if (findTask s id).isSome then none else some (buildAsync s id purpose peer flags)
  | .thread id env fuel                 => threadBuildChain s id env fuel
  | .buildFinish id                     => buildFinish s id

def Step (s : State) (e : Event) (s' : State) : Prop :=
  after s e = some s'

abbrev Run : List (State × Event × State) → State → Prop :=
  Transition.Run (· = State.new) Step

end CertificateChain
