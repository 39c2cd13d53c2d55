import GcrModel.Gcr.CertificateRequest.Key
import GcrModel.Library.Transition

-- gcr-certificate-request.c: the tree of a request, and the completions of it that can be in flight.
namespace CertificateRequest

open GLib Gck
open Transition (Outcome)

def ckmRsaPkcs : Nat := 1
def ckmSha1RsaPkcs : Nat := 6
def ckmDsa : Nat := 0x11
def ckmDsaSha1 : Nat := 0x12

def rsaMechanisms : List Nat := [ckmSha1RsaPkcs, ckmRsaPkcs]
def dsaMechanisms : List Nat := [ckmDsaSha1, ckmDsa]
def allMechanisms : List Nat := [ckmSha1RsaPkcs, ckmDsaSha1, ckmRsaPkcs, ckmDsa]

-- The signature with the algorithm that it is under.
structure Signature where
  algorithm  : Oid
  parameters : Bytes
  bits       : Bytes
  deriving DecidableEq

-- What is set in the tree. The subject is a common name.
structure Request where
  subject       : Option Bytes := none
  subjectPKInfo : Option PublicKey := none
  signature     : Option Signature := none

def gcrCertificateRequestSetCn (self : Request) (cn : Bytes) : Request :=
  { self with subject := some cn }

-- The certificationRequestInfo, which can be encoded when all of it is set.
def Request.info (lib : Library) (self : Request) : Option Bytes :=
  match self.subject, self.subjectPKInfo with
  | some cn, some key => some (lib.encodeInfo cn key.encoded)
  | _, _              => none

def hashSha1Pkcs1 (lib : Library) (data : Bytes) : Bytes :=
  [0x30, 0x21, 0x30, 0x09, 0x06, 0x05, 0x2b, 0x0e, 0x03, 0x02, 0x1a, 0x05, 0x00, 0x04, 0x14] ++ lib.sha1 data

-- What a mechanism signs. No other one is reached.
def toBeSigned (lib : Library) (mechanism : Nat) (data : Bytes) : Option Bytes :=
  if mechanism = ckmSha1RsaPkcs ∨ mechanism = ckmDsaSha1 then some data
  else if mechanism = ckmRsaPkcs then some (hashSha1Pkcs1 lib data)
  else if mechanism = ckmDsa then some (lib.sha1 data)
  else none

-- There are no bytes where the information cannot be encoded.
def prepareToBeSigned (lib : Library) (self : Request) (mechanism : Nat) : Option Bytes :=
  toBeSigned lib mechanism ((self.info lib).getD [])

def prepareSubjectPublicKeyAndMechanisms (self : Request) (key : PublicKey) : Option (Oid × List Nat × Request) :=
  match key.algorithm with
  | .pkix1Rsa => some (.pkix1Sha1WithRsa, rsaMechanisms, { self with subjectPKInfo := some key })
  | .pkix1Dsa => some (.pkix1Sha1WithDsa, dsaMechanisms, { self with subjectPKInfo := some key })
  | _         => none

def encodeTakeSignatureIntoRequest (self : Request) (algorithm : Oid) (key : PublicKey) (result : Bytes) : Request :=
  { self with signature := some ⟨algorithm, key.parameters, result⟩ }

-- What a call comes to, with the tree after it. The program can abort, or go on with mechanisms that were not set.
def gcrCertificateRequestComplete (lib : Library) (m : Module) (self : Request) : Outcome (Bool × Request) :=
  match subjectPublicKeyLoad lib m with
  | .failed     => .ok (false, self)
  | .silent     => .ok (false, self)
  | .loaded key =>
    match prepareSubjectPublicKeyAndMechanisms self key with
    | none                               => .ok (false, self)
    | some (algorithm, mechanisms, self) =>
      let mechanism := keyMechanismsCheck m mechanisms ckaSign
      if mechanism = gckInvalid then .ok (false, self)
      else
        match prepareToBeSigned lib self mechanism with
        | none     => .aborted
        | some tbs =>
          match m.sign mechanism tbs with
          | none           => .ok (false, self)
          -- The memory for a signature without bytes is NULL.
          | some []        => .ok (false, self)
          | some signature => .ok (true, encodeTakeSignatureIntoRequest self algorithm key signature)

-- What a completion waits for, or what its task has returned. The subject that was encoded is noted beside what is
-- signed.
inductive Stage
  | loading
  | checking (key : PublicKey) (algorithm : Oid) (mechanisms : List Nat)
  | signing (key : PublicKey) (algorithm : Oid) (mechanism : Nat) (tbs : Bytes) (subject : Option Bytes)
  | returned (ret : Bool)

-- The result of `prepare_subject_public_key_and_mechanisms` is not looked at, only the error, which a key that was not
-- loaded does not set.
def onSubjectPublicKeyLoaded (lib : Library) (m : Module) (self : Request) : Outcome (Stage × Request) :=
  match subjectPublicKeyLoad lib m with
  | .failed     => .ok (.returned false, self)
  | .silent     => .aborted
  | .loaded key =>
    match prepareSubjectPublicKeyAndMechanisms self key with
    | none                               => .ok (.returned false, self)
    | some (algorithm, mechanisms, self) => .ok (.checking key algorithm mechanisms, self)

def onMechanismCheck (lib : Library) (m : Module) (self : Request) (key : PublicKey) (algorithm : Oid)
    (mechanisms : List Nat) : Outcome Stage :=
  let mechanism := keyMechanismsCheckFinish m mechanisms ckaSign
  if mechanism = gckInvalid then .ok (.returned false)
  else
    match prepareToBeSigned lib self mechanism with
    | none     => .aborted
    | some tbs => .ok (.signing key algorithm mechanism tbs self.subject)

def onCertificateRequestSigned (m : Module) (self : Request) (key : PublicKey) (algorithm : Oid) (mechanism : Nat)
    (tbs : Bytes) : Bool × Request :=
  match m.sign mechanism tbs with
  | none           => (false, self)
  | some signature => (true, encodeTakeSignatureIntoRequest self algorithm key signature)

-- A completion that nothing comes between.
def completeAsync (lib : Library) (m : Module) (self : Request) : Outcome (Bool × Request) :=
  match onSubjectPublicKeyLoaded lib m self with
  | .ok (.checking key algorithm mechanisms, self) =>
    match onMechanismCheck lib m self key algorithm mechanisms with
    | .ok (.signing key algorithm mechanism tbs _) => .ok (onCertificateRequestSigned m self key algorithm mechanism tbs)
    | .ok (.returned ret)                          => .ok (ret, self)
    | _                                            => .aborted
  | .ok (.returned ret, self)                      => .ok (ret, self)
  | _                                              => .aborted

structure EncodedRequest where
  info      : Bytes
  signature : Signature

def gcrCertificateRequestEncode (lib : Library) (self : Request) : Option EncodedRequest :=
  match self.info lib, self.signature with
  | some info, some signature => some ⟨info, signature⟩
  | _, _                      => none

-- A gulong as a gboolean.
def gboolean (value : Nat) : Bool :=
  value % 0x100000000 ≠ 0

def gcrCertificateRequestCapable (m : Module) : Bool :=
  gboolean (keyMechanismsCheck m allMechanisms ckaSign)

def gcrCertificateRequestCapableFinish (m : Module) : Bool :=
  keyMechanismsCheckFinish m allMechanisms ckaSign ≠ gckInvalid

-- The request with the completions in flight, the subject that there was when a signature was put in last, and whether
-- the completion that was finished last succeeded and no common name was set since.
structure State where
  request   : Request := {}
  stages    : Nat → Option Stage := fun _ => none
  signedFor : Option Bytes := none
  settled   : Bool := false

inductive Event
  | setCn (cn : Bytes)
  | complete (m : Module)
  | completeAsync (i : Nat)
  | loaded (i : Nat) (m : Module)
  | checked (i : Nat) (m : Module)
  | signed (i : Nat) (m : Module)
  -- Whether the cancellable of the task is cancelled.
  | finish (i : Nat) (cancelled : Bool)

def State.put (s : State) (i : Nat) (stage : Option Stage) : State :=
  { s with stages := Function.update s.stages i stage }

def after (lib : Library) (s : State) : Event → Outcome State
  | .setCn cn         => .ok { s with request := gcrCertificateRequestSetCn s.request cn, settled := false }
  | .complete m       =>
    match gcrCertificateRequestComplete lib m s.request with
    | .ok (ret, request) =>
      .ok { s with
        request   := request
        signedFor := if ret then request.subject else s.signedFor
        settled   := ret }
    | _                  => .aborted
  | .completeAsync i  => if (s.stages i).isSome then .refused else .ok (s.put i (some .loading))
  | .loaded i m       =>
    match s.stages i with
    | some .loading =>
      match onSubjectPublicKeyLoaded lib m s.request with
      | .ok (stage, request) => .ok { s.put i (some stage) with request := request }
      | _                    => .aborted
    | _             => .refused
  | .checked i m      =>
    match s.stages i with
    | some (.checking key algorithm mechanisms) =>
      match onMechanismCheck lib m s.request key algorithm mechanisms with
      | .ok stage => .ok (s.put i (some stage))
      | _         => .aborted
    | _                                         => .refused
  | .signed i m       =>
    match s.stages i with
    | some (.signing key algorithm mechanism tbs _) =>
      let (ret, request) := onCertificateRequestSigned m s.request key algorithm mechanism tbs
      .ok { s.put i (some (.returned ret)) with
        request   := request
        signedFor := if ret then request.subject else s.signedFor }
    | _                                             => .refused
  | .finish i cancelled =>
    match s.stages i with
    | some (.returned ret) => .ok { s.put i none with settled := ret && !cancelled }
    | _                    => .refused

-- The private key: its public key, and signing as a function.
structure PrivateKey where
  publicKey : PublicKey
  sign      : Nat → Bytes → Bytes

-- What a module with the private key answers.
structure Module.Holds (lib : Library) (m : Module) (key : PrivateKey) : Prop where
  load : ∀ loaded, subjectPublicKeyLoad lib m = .loaded loaded → loaded = key.publicKey
  sign : ∀ mechanism data signature, m.sign mechanism data = some signature → signature = key.sign mechanism data

def Event.Given (lib : Library) (key : PrivateKey) : Event → Prop
  | .complete m | .loaded _ m | .checked _ m | .signed _ m => m.Holds lib key
  | _                                                     => True

def Step (lib : Library) (key : PrivateKey) (s : State) (e : Event) (s' : State) : Prop :=
  e.Given lib key ∧ after lib s e = .ok s'

def Run (lib : Library) (key : PrivateKey) : List (State × Event × State) → State → Prop :=
  Transition.Run (· = {}) (Step lib key)

-- The mechanisms of the algorithm that a signature names.
def mechanismsOf : Oid → List Nat
  | .pkix1Sha1WithRsa => rsaMechanisms
  | .pkix1Sha1WithDsa => dsaMechanisms
  | _                 => []

-- A signature of the information under the algorithm that it names.
def PrivateKey.Signs (lib : Library) (key : PrivateKey) (signature : Signature) (info : Bytes) : Prop :=
  ∃ mechanism ∈ mechanismsOf signature.algorithm, ∃ tbs, toBeSigned lib mechanism info = some tbs ∧
    signature.bits = key.sign mechanism tbs

-- The request is encoded with the common name and the public key, and signed.
def State.Consistent (lib : Library) (key : PrivateKey) (s : State) : Prop :=
  ∃ cn encoded, s.request.subject = some cn ∧ gcrCertificateRequestEncode lib s.request = some encoded ∧
    encoded.info = lib.encodeInfo cn key.publicKey.encoded ∧ key.Signs lib encoded.signature encoded.info

-- A common name is set when a signature is put in, it is the one of when the information was encoded, and when a completion
-- that succeeded is finished it is the one of when a signature was put in last.
structure Regular (lib : Library) (s : State) (e : Event) : Prop where
  complete : ∀ m request, e = .complete m → gcrCertificateRequestComplete lib m s.request = .ok (true, request) →
    s.request.subject.isSome
  signed   : ∀ i m key algorithm mechanism tbs subject, e = .signed i m →
    s.stages i = some (.signing key algorithm mechanism tbs subject) → (m.sign mechanism tbs).isSome →
    subject.isSome ∧ subject = s.request.subject
  finish   : ∀ i, e = .finish i false → s.stages i = some (.returned true) → s.signedFor = s.request.subject

-- Two calls succeed or fail alike.
def Alike (lib : Library) (m : Module) (self : Request) : Prop :=
  ∃ ret request request', gcrCertificateRequestComplete lib m self = .ok (ret, request) ∧
    completeAsync lib m self = .ok (ret, request')

def CapableAlike (m : Module) : Prop :=
  gcrCertificateRequestCapable m = gcrCertificateRequestCapableFinish m

end CertificateRequest
