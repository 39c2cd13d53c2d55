import GcrModel.Egg.Padding.Padding
import GcrModel.GLib.KeyFile
import GcrModel.Library.Base64
import GcrModel.Library.Blocks
import GcrModel.Library.Transition

-- gcr-secret-exchange.c
namespace SecretExchange

open GLib

-- The key agreement in the group of the protocol, the derivation of a key from what was agreed on, the block cipher, and
-- which characters of Unicode are letters and digits.
structure Crypto (Priv Key : Type*) where
  pubkeyExport   : Priv → Bytes
  genSecret      : Bytes → Priv → Option Bytes
  hkdf           : Bytes → Key
  cipher         : Cbc.BlockCipher Key
  unicharIsalnum : Bytes → Bool

def exchangeIvLength : Nat := 16

-- Both sides agree on the same secret, and blocks can be decrypted.
structure Crypto.Lawful {Priv Key : Type*} (c : Crypto Priv Key) : Prop where
  agrees   : ∀ a b, ∃ ikm, c.genSecret (c.pubkeyExport b) a = some ikm
  commutes : ∀ a b, c.genSecret (c.pubkeyExport b) a = c.genSecret (c.pubkeyExport a) b
  blocks   : c.cipher.Lawful 16

-- The 16 random bytes of a message.
structure Iv where
  bytes  : Bytes
  length : bytes.length = exchangeIvLength

def protocol1 : Bytes :=
  ascii "sx-aes-1".toList

def publicField : Bytes :=
  ascii "public".toList

def secretField : Bytes :=
  ascii "secret".toList

def ivField : Bytes :=
  ascii ['i', 'v']

-- GcrSecretExchangeDefault
structure Default (Priv Key : Type*) where
  priv : Priv
  key  : Option Key

-- A GcrSecretExchange. There is no `default_exchange` before the first key pair.
structure Exchange (Priv Key : Type*) where
  defaultExchange : Option (Default Priv Key) := none
  generated       : Bool := false
  publi           : Option Bytes := none
  derived         : Bool := false
  secret          : Option Bytes := none

variable {Priv Key : Type*} (c : Crypto Priv Key)

def keyFileSetBase64 (file : KeyFile) (field data : Bytes) : KeyFile :=
  file.setValue protocol1 field (Base64.encode data)

def keyFileGetBase64 (file : KeyFile) (field : Bytes) : Option Bytes :=
  (file.getValue protocol1 field).map Base64.decode

namespace Exchange

def clear (self : Exchange Priv Key) : Exchange Priv Key :=
  { self with publi := none, derived := false, generated := true, secret := none }

-- The key pair is a random one.
def generateExchangeKey (self : Exchange Priv Key) (priv : Priv) : Exchange Priv Key :=
  { self with
    defaultExchange := some ⟨priv, self.defaultExchange.bind (·.key)⟩
    publi           := some (c.pubkeyExport priv) }

def text (output : KeyFile) : Bytes :=
  output.toData.dropWhile asciiIsspace

def begin (self : Exchange Priv Key) (priv : Priv) : Exchange Priv Key × Bytes :=
  let self := { generateExchangeKey c self.clear priv with generated := true }
  (self, text (keyFileSetBase64 [] publicField (self.publi.getD [])))

def deriveTransportKey (self : Exchange Priv Key) (peer : Bytes) : Option (Exchange Priv Key) :=
  self.defaultExchange.bind fun data =>
    (c.genSecret peer data.priv).map fun ikm =>
      { self with defaultExchange := some { data with key := some (c.hkdf ikm) } }

-- The result and the object.
def deriveKey (self : Exchange Priv Key) (input : KeyFile) : Bool × Exchange Priv Key :=
  match keyFileGetBase64 input publicField with
  | none      => (false, self)
  | some peer =>
    match self.deriveTransportKey c peer with
    | none      => (false, { self with derived := false })
    | some self => (true, { self with derived := true })

def encryptTransportData (self : Exchange Priv Key) (iv : Iv) (plainText : Bytes) : Option Bytes :=
  (self.defaultExchange.bind (·.key)).bind fun key =>
    (Padding.pkcs7Pad 16 plainText).bind fun padded =>
      -- There is no memory for the padded text
      if secureLimit < padded.length then none
      else some (Cbc.encrypt c.cipher 16 key (padded.length / 16) iv.bytes padded)

-- A padding that is wrong is no failure, but there is no result then.
def decryptTransportData (self : Exchange Priv Key) (cipherText : Bytes) (iv : Option Bytes) : Option (Option Bytes) :=
  (self.defaultExchange.bind (·.key)).bind fun key =>
    match iv with
    | none    => none
    | some iv =>
      if iv.length ≠ exchangeIvLength then none
      else if cipherText.length % 16 ≠ 0 then none
      -- There is no memory of no bytes.
      else if cipherText = [] then none
      else
        some (Padding.pkcs7Unpad 16 (Cbc.decrypt c.cipher 16 key (cipherText.length / 16) iv cipherText))

def performDecrypt (self : Exchange Priv Key) (input : KeyFile) : Option (Option Bytes) :=
  match keyFileGetBase64 input secretField with
  | none       => none
  | some value => self.decryptTransportData c value (keyFileGetBase64 input ivField)

def performEncrypt (self : Exchange Priv Key) (output : KeyFile) (iv : Iv) (secret : Bytes) : Option KeyFile :=
  (self.encryptTransportData c iv secret).map fun result =>
    keyFileSetBase64 (keyFileSetBase64 output secretField result) ivField iv.bytes

-- The key pair that is made when there is none yet.
def receive (self : Exchange Priv Key) (priv : Priv) (exchange : Bytes) : Bool × Exchange Priv Key :=
  match KeyFile.loadFromData c.unicharIsalnum exchange with
  | none       => (false, self)
  | some input =>
    let self := if self.generated then self else { generateExchangeKey c self priv with generated := true }
    let (ret, self) := if self.derived then (true, self) else self.deriveKey c input
    if ret = false then (false, self)
    else if input.hasKey protocol1 secretField then
      match self.performDecrypt c input with
      | none        => (false, self)
      | some secret => (true, { self with secret := secret })
    else
      (true, { self with secret := none })

def getSecret (self : Exchange Priv Key) : Option Bytes :=
  self.secret

-- The bytes of the secret: a negative length stands for the length of the string.
def secretBytes (secret : Bytes) (secretLen : Int) : Bytes :=
  if secretLen < 0 then cstr secret else secret.take secretLen.toNat

-- A secret comes with its length.
def send (self : Exchange Priv Key) (iv : Iv) (secret : Option (Bytes × Int)) : Option Bytes :=
  if self.derived then
    let output := keyFileSetBase64 [] publicField (self.publi.getD [])
    match secret with
    | none             => some (text output)
    | some (secret, n) => (self.performEncrypt c output iv (secretBytes secret n)).map text
  else
    none

-- The key that is in use.
def transportKey (self : Exchange Priv Key) : Option Key :=
  if self.derived then self.defaultExchange.bind (·.key) else none

end Exchange

-- An object with the length of its secret, which is none where nothing was stored in it.
structure Held (Priv Key : Type*) extends Exchange Priv Key where
  nSecret : Option Nat := some 0

namespace Held

-- The length is stored when the padding was right.
def performDecrypt (self : Exchange Priv Key) (input : KeyFile) : Option (Option Bytes × Option Nat) :=
  (self.performDecrypt c input).map fun result => (result, result.map List.length)

def receive (self : Held Priv Key) (priv : Priv) (exchange : Bytes) : Bool × Held Priv Key :=
  match KeyFile.loadFromData c.unicharIsalnum exchange with
  | none       => (false, self)
  | some input =>
    let e := if self.generated then self.toExchange else { self.generateExchangeKey c priv with generated := true }
    let (ret, e) := if e.derived then (true, e) else e.deriveKey c input
    if ret = false then (false, { self with toExchange := e })
    else if input.hasKey protocol1 secretField then
      match performDecrypt c e input with
      | none                   => (false, { self with toExchange := e })
      | some (secret, nSecret) => (true, { toExchange := { e with secret := secret }, nSecret := nSecret })
    else
      (true, { toExchange := { e with secret := none }, nSecret := some 0 })

def getSecret (self : Held Priv Key) : Option Bytes × Option Nat :=
  (self.secret, self.nSecret)

end Held

-- The two objects.
inductive Side
  | left
  | right
  deriving DecidableEq, Repr

def Side.other : Side → Side
  | left  => right
  | right => left

-- Whose turn it is: a message of `begin` or of `send` is on its way, or a side received one last. With a
-- message of `send` there is the secret that it is for.
inductive Phase
  | idle
  | opened (sender : Side) (message : Bytes)
  | replied (sender : Side) (message : Bytes) (secret : Option Bytes)
  | received (side : Side)

-- For each side the secret that came with the last message it received since its last `begin`. The
-- exchange is complete when a message of `send` was received since the last `begin`.
structure State (Priv Key : Type*) where
  exchange : Side → Exchange Priv Key := fun _ => {}
  phase    : Phase := .idle
  last     : Side → Option Bytes := fun _ => none
  complete : Bool := false
  failed   : Bool := false

-- Key pairs and initialization vectors are random.
inductive Event (Priv : Type*)
  | begin (side : Side) (priv : Priv)
  | receive (priv : Priv)
  | send (iv : Iv) (secret : Option (Bytes × Int))

namespace State

def set (s : State Priv Key) (side : Side) (e : Exchange Priv Key) : State Priv Key :=
  { s with exchange := Function.update s.exchange side e }

-- A message gets to the other side.
def deliver (s : State Priv Key) (sender : Side) (priv : Priv) (message : Bytes) (secret : Option Bytes) :
    State Priv Key :=
  let (ret, e) := (s.exchange sender.other).receive c priv message
  { s.set sender.other e with
    phase  := .received sender.other
    last   := Function.update s.last sender.other secret
    failed := s.failed || !ret }

def after (s : State Priv Key) : Event Priv → Transition.Outcome (State Priv Key)
  | .begin side priv =>
    let (e, message) := (s.exchange side).begin c priv
    .ok { s.set side e with
      phase    := .opened side message
      last     := Function.update s.last side none
      complete := false }
  | .receive priv =>
    match s.phase with
    | .opened sender message         => .ok (s.deliver c sender priv message none)
    | .replied sender message secret => .ok { s.deliver c sender priv message secret with complete := true }
    | _                              => .refused
  | .send iv secret =>
    match s.phase with
    | .received side =>
      match (s.exchange side).send c iv secret with
      | some message =>
        .ok { s with phase := .replied side message (secret.map fun s => Exchange.secretBytes s.1 s.2) }
      | none => .ok { s with failed := true }
    | _ => .refused

end State

end SecretExchange
