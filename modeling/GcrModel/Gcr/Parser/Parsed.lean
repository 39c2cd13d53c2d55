import GcrModel.Egg.Armor.Armor
import GcrModel.Gcr.Openpgp.Openpgp

-- gcr-parser.c: the items that are being parsed, which are on a stack, and the passwords.
namespace Parser

open GLib

-- SUCCESS and GcrDataError
inductive Code
  | success
  | failure
  | unrecognized
  | cancelled
  | locked
  deriving DecidableEq, Repr

def Code.toInt : Code → Int
  | .success      => 0
  | .failure      => -1
  | .unrecognized => 1
  | .cancelled    => 2
  | .locked       => 3

-- GcrDataFormat
inductive DataFormat
  | derPrivateKey
  | derPrivateKeyRsa
  | derPrivateKeyDsa
  | derPrivateKeyEc
  | derSubjectPublicKey
  | derCertificateX509
  | derPkcs7
  | derPkcs8
  | derPkcs8Plain
  | derPkcs8Encrypted
  | derPkcs10
  | derSpkac
  | base64Spkac
  | derPkcs12
  | opensshPublic
  | openpgpPacket
  | openpgpArmor
  | pem
  | pemPrivateKeyRsa
  | pemPrivateKeyDsa
  | pemCertificateX509
  | pemPkcs7
  | pemPkcs8Plain
  | pemPkcs8Encrypted
  | pemPkcs12
  | pemPrivateKey
  | pemPkcs10
  | pemPrivateKeyEc
  | pemPublicKey
  deriving DecidableEq, Repr

inductive ObjectClass
  | privateKey
  | publicKey
  | certificate
  | gnupgRecords
  | certificateRequest
  deriving DecidableEq, Repr

inductive KeyType
  | rsa
  | dsa
  | ec
  | ecEdwards
  deriving DecidableEq, Repr

inductive RequestType
  | pkcs10
  | spkac
  deriving DecidableEq, Repr

-- The attributes whose values are bytes.
inductive AttributeType
  | modulus
  | publicExponent
  | privateExponent
  | prime1
  | prime2
  | coefficient
  | prime
  | subprime
  | base
  | value
  | ecParams
  | ecPoint
  | subject
  | issuer
  | serialNumber
  | label
  deriving DecidableEq, Repr

inductive Attribute
  | ofClass (klass : ObjectClass)
  | keyType (type : KeyType)
  | certificateTypeX509
  | requestType (type : RequestType)
  | isPrivate (value : Bool)
  | data (type : AttributeType) (value : Bytes)
  deriving DecidableEq, Repr

-- GcrParsed without the pointer to the one below it. No format is GCR_FORMAT_INVALID.
structure Parsed where
  builder : List Attribute := []
  attrs   : Option (List Attribute) := none
  format  : Option DataFormat := none
  data    : Option Bytes := none
  label   : Option Bytes := none
  deriving DecidableEq, Repr

-- What those who listen to the signal get from the item.
structure Announcement where
  attributes : Option (List Attribute)
  format     : Option DataFormat
  bytes      : Option Bytes
  label      : Option Bytes
  deriving DecidableEq, Repr

-- NULL is a password as well.
abbrev Password := Option Bytes

-- The cryptographic library is called with a password, and the signals are emitted.
inductive Event
  | tried (password : Password)
  | authenticate (count : Nat)
  | parsed (announcement : Announcement)
  deriving DecidableEq, Repr

-- What the handlers of an authenticate signal do: the passwords that they add, and what they return.
structure Answer where
  added  : List Password
  result : Bool
  deriving DecidableEq, Repr

structure State where
  parsed    : List Parsed := []
  passwords : List Password := []
  -- Of the signals to come. Nobody handles those behind.
  answers   : List Answer := []
  events    : List Event := []
  deriving DecidableEq, Repr

-- A failing assertion, a pointer to what is gone, loops that go on without end, and the faults of the armor and of the
-- OpenPGP parser.
inductive Fault
  | assertion
  | freed
  | fuel
  | armor (fault : Armor.Fault)
  | openpgp (fault : Openpgp.Fault)
  deriving DecidableEq, Repr

abbrev ParserM := StateT State (Except Fault)

def getParsedAttributes (parsed : List Parsed) : Option (List Attribute) :=
  parsed.findSome? (·.attrs)

def getParsedLabel (parsed : List Parsed) : Option Bytes :=
  parsed.findSome? (·.label)

def getParsedBytes (parsed : List Parsed) : Option Bytes :=
  parsed.findSome? (·.data)

def getParsedFormat (parsed : List Parsed) : Option DataFormat :=
  (parsed.find? (·.data.isSome)).bind (·.format)

def announcement (parsed : List Parsed) : Announcement where
  attributes := getParsedAttributes parsed
  format     := getParsedFormat parsed
  bytes      := getParsedBytes parsed
  label      := getParsedLabel parsed

def log (event : Event) : ParserM Unit := fun s =>
  .ok ((), { s with events := s.events ++ [event] })

-- A pointer to an item is the number of those below it.
def pushParsed : ParserM Nat := fun s =>
  .ok (s.parsed.length, { s with parsed := {} :: s.parsed })

def popParsed (parsed : Nat) : ParserM Unit := fun s =>
  match s.parsed with
  | []        => .error .assertion
  | _ :: rest => if rest.length = parsed then .ok ((), { s with parsed := rest }) else .error .assertion

-- Changes an item that is on the stack.
def modifyParsed (parsed : Nat) (f : Parsed → Except Fault Parsed) : ParserM Unit := fun s =>
  match if parsed < s.parsed.length then s.parsed[s.parsed.length - 1 - parsed]? else none with
  | none      => .error .freed
  | some item => do
    let item ← f item
    pure ((), { s with parsed := s.parsed.set (s.parsed.length - 1 - parsed) item })

def setAttribute (parsed : Nat) (attr : Attribute) : ParserM Unit :=
  modifyParsed parsed fun item => .ok { item with builder := item.builder ++ [attr] }

-- Also `_gcr_parsed_set_asn1_element` and `_gcr_parsed_set_asn1_structure`, for what is there in the structure.
def setAsn1Number (parsed : Nat) (value : Option Bytes) (type : AttributeType) : ParserM Bool :=
  match value with
  | none       => pure false
  | some value => do
    setAttribute parsed (.data type value)
    pure true

-- Several of them, up to the first that is missing.
def setAsn1Numbers (parsed : Nat) : List (Option Bytes × AttributeType) → ParserM Bool
  | []                    => pure true
  | (value, type) :: rest => do
    let found ← setAsn1Number parsed value type
    if found then setAsn1Numbers parsed rest else pure false

def parsingBlock (parsed : Nat) (format : DataFormat) (data : Bytes) : ParserM Unit :=
  modifyParsed parsed fun item =>
    if item.data = none then .ok { item with format := some format, data := some data } else .error .assertion

def parsingObject (parsed : Nat) (klass : ObjectClass) : ParserM Unit :=
  modifyParsed parsed fun item => .ok { item with builder := [.ofClass klass] }

def setAttributes (parsed : Nat) (attrs : List Attribute) : ParserM Unit :=
  modifyParsed parsed fun item => .ok { item with builder := item.builder ++ attrs }

def setLabel (parsed : Nat) (label : Option Bytes) : ParserM Unit :=
  modifyParsed parsed fun item =>
    if item.label = none then .ok { item with label := label } else .error .assertion

def getLabel : ParserM (Option Bytes) := fun s =>
  .ok (getParsedLabel s.parsed, s)

def fireParsed (parsed : Nat) : ParserM Unit := fun s =>
  match s.parsed with
  | []           => .error .assertion
  | item :: rest =>
    if rest.length ≠ parsed ∨ item.attrs ≠ none then .error .assertion
    else
      let stack := { item with attrs := some item.builder, builder := [] } :: rest
      .ok ((), { s with parsed := stack, events := s.events ++ [.parsed (announcement stack)] })

-- The positions in the passwords and in the signals.
structure PasswordState where
  askState : Nat := 0
  seen     : Nat := 0
  deriving DecidableEq, Repr

def takeAnswer (answers : List Answer) : Answer × List Answer :=
  match answers with
  | []      => (⟨[], false⟩, [])
  | a :: as => (a, as)

def enumNextPassword (state : PasswordState) : ParserM (Except Code (Password × PasswordState)) := fun s =>
  -- Look in our list of passwords
  match s.passwords[state.seen]? with
  | some password => .ok (.ok (password, { state with seen := state.seen + 1 }), s)
  | none          =>
    let (answer, answers) := takeAnswer s.answers
    let s := { s with
      passwords := s.passwords ++ answer.added
      answers   := answers
      events    := s.events ++ [.authenticate state.askState] }
    if ¬answer.result then .ok (.error .cancelled, s)
    else
      -- Return any passwords added
      match s.passwords[state.seen]? with
      | some password => .ok (.ok (password, ⟨state.askState + 1, state.seen + 1⟩), s)
      | none          => .ok (.error .locked, s)

-- The passwords that there are and that can be added.
def State.supply (s : State) : Nat :=
  s.passwords.length + (s.answers.flatMap (·.added)).length

-- The loops to try different passwords, which go on after `none`.
def tryPasswords (attempt : Password → ParserM (Option Code)) : Nat → PasswordState → ParserM Code
  | 0,        _     => throw .fuel
  | fuel + 1, state => do
    match ← enumNextPassword state with
    | .error r               => pure r
    | .ok (password, state') => do
      match ← attempt password with
      | some r => pure r
      | none   => tryPasswords attempt fuel state'

def eachPassword (attempt : Password → ParserM (Option Code)) : ParserM Code := do
  let s ← get
  tryPasswords attempt (s.supply + 1) {}

-- A call of the cryptographic library with a password.
def call {α : Type} (password : Password) (result : α) : ParserM α := do
  log (.tried password)
  pure result

-- A parser that is called for the data.
def callParser {ε α : Type} (stops : ε → Fault) (result : Except ε α) : ParserM α := fun s =>
  match result with
  | .error fault => .error (stops fault)
  | .ok a        => .ok (a, s)

-- What the source does between the push and the label `done`.
def withParsed (body : Nat → ParserM Code) : ParserM Code := do
  let parsed ← pushParsed
  let res ← body parsed
  popParsed parsed
  pure res

end Parser
