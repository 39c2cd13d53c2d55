import GcrModel.Gcr.Parser.Encrypted

-- Armor, and the formats of gcr-parser.c.
namespace Parser

open GLib

variable (lib : Library)

-- The formats that are inside of armor.
inductive Inner
  | derPrivateKey
  | derPrivateKeyRsa
  | derPrivateKeyDsa
  | derPrivateKeyEc
  | derSubjectPublicKey
  | derCertificateX509
  | derPkcs7
  | derPkcs8Plain
  | derPkcs8Encrypted
  | derPkcs10
  | derPkcs12
  | openpgpPacket
  deriving DecidableEq, Repr

-- PEM_RSA_PRIVATE_KEY and so on
def pemRsaPrivateKey : Bytes :=
  ascii "RSA PRIVATE KEY".toList

def pemDsaPrivateKey : Bytes :=
  ascii "DSA PRIVATE KEY".toList

def pemEcPrivateKey : Bytes :=
  ascii "EC PRIVATE KEY".toList

def pemAnyPrivateKey : Bytes :=
  ascii "ANY PRIVATE KEY".toList

def pemPrivateKey : Bytes :=
  ascii "PRIVATE KEY".toList

def pemEncryptedPrivateKey : Bytes :=
  ascii "ENCRYPTED PRIVATE KEY".toList

def pemCertificate : Bytes :=
  ascii "CERTIFICATE".toList

def pemPkcs7 : Bytes :=
  ascii "PKCS7".toList

def pemPkcs12 : Bytes :=
  ascii "PKCS12".toList

def pemCertificateRequest : Bytes :=
  pemCertificate ++ ascii " REQUEST".toList

def pemNewCertificateRequest : Bytes :=
  ascii ['N', 'E', 'W', ' '] ++ pemCertificateRequest

def pemPublicKey : Bytes :=
  ascii "PUBLIC KEY".toList

def armorPgpPrivateKeyBlock : Bytes :=
  ascii "PGP PRIVATE KEY BLOCK".toList

def armorPgpPublicKeyBlock : Bytes :=
  ascii "PGP PUBLIC KEY BLOCK".toList

-- The inner and the outer format.
def formatsForArmorType (armorType : Bytes) : Option (Inner × DataFormat) :=
  if armorType = pemRsaPrivateKey then some (.derPrivateKeyRsa, .pemPrivateKeyRsa)
  else if armorType = pemDsaPrivateKey then some (.derPrivateKeyDsa, .pemPrivateKeyDsa)
  else if armorType = pemEcPrivateKey then some (.derPrivateKeyEc, .pemPrivateKeyEc)
  else if armorType = pemAnyPrivateKey then some (.derPrivateKey, .pemPrivateKey)
  else if armorType = pemPrivateKey then some (.derPkcs8Plain, .pemPkcs8Plain)
  else if armorType = pemEncryptedPrivateKey then some (.derPkcs8Encrypted, .pemPkcs8Encrypted)
  else if armorType = pemCertificate then some (.derCertificateX509, .pemCertificateX509)
  else if armorType = pemPkcs7 then some (.derPkcs7, .pemPkcs7)
  else if armorType = pemCertificateRequest then some (.derPkcs10, .pemPkcs10)
  else if armorType = pemNewCertificateRequest then some (.derPkcs10, .pemPkcs10)
  else if armorType = pemPkcs12 then some (.derPkcs12, .pemPkcs12)
  else if armorType = pemPublicKey then some (.derSubjectPublicKey, .pemPublicKey)
  else if armorType = armorPgpPrivateKeyBlock then some (.openpgpPacket, .openpgpArmor)
  else if armorType = armorPgpPublicKeyBlock then some (.openpgpPacket, .openpgpArmor)
  else none

-- The function that the table has for the format.
def Inner.function (backend : Backend) (inner : Inner) (data : Bytes) : ParserM Code :=
  match inner with
  | .derPrivateKey       => Parser.parseDerPrivateKey backend lib data
  | .derPrivateKeyRsa    => backend.parseDerPrivateKeyRsa lib data
  | .derPrivateKeyDsa    => backend.parseDerPrivateKeyDsa lib data
  | .derPrivateKeyEc     => backend.parseDerPrivateKeyEc lib data
  | .derSubjectPublicKey => parseDerSubjectPublicKey lib data
  | .derCertificateX509  => parseDerCertificate lib data
  | .derPkcs7            => parseDerPkcs7 lib data
  | .derPkcs8Plain       => parseDerPkcs8Plain backend lib data
  | .derPkcs8Encrypted   => backend.parseDerPkcs8Encrypted lib data
  | .derPkcs10           => parseDerPkcs10 lib data
  | .derPkcs12           => backend.parseDerPkcs12 lib data
  | .openpgpPacket       => parseOpenpgpPackets lib data

-- A format is wanted, or any.
def handlePlainPem (backend : Backend) (inner : Inner) (want : Option Inner) (data : Bytes) : ParserM Code :=
  if want ≠ none ∧ want ≠ some inner then pure .unrecognized else inner.function lib backend data

def dekInfo : Bytes :=
  ascii "DEK-Info".toList

def procType : Bytes :=
  ascii "Proc-Type".toList

def encryptedType : Bytes :=
  ascii "4,ENCRYPTED".toList

namespace Libgcrypt

-- Decrypt, this will result in garble if invalid password
def tryPem (inner : Inner) (want : Option Inner) (val data : Bytes) (password : Password) : ParserM (Option Code) := do
  let decrypted ← call password (lib.gcrypt.decryptBlock val password data)
  match decrypted with
  | none           => pure (some .failure)
  | some decrypted => do
    let res ← handlePlainPem lib .libgcrypt inner want (unpad lib decrypted)
    pure (unlessUnrecognized res)

def handleEncryptedPem (inner : Inner) (want : Option Inner) (headers : Armor.Headers) (data : Bytes) :
    ParserM Code :=
  match headers.lookup dekInfo with
  | none     => pure .failure
  | some val => eachPassword (tryPem lib inner want val data)

end Libgcrypt

namespace Gnutls

def tryPem (data outer : Bytes) (password : Password) : ParserM (Option Code) := do
  let privkey ← call password (lib.gnutls.importPem outer password)
  match privkey with
  | none         => pure none
  | some privkey => do
    let res ← withParsed fun parsed => handlePrivateKey lib.asn1 parsed privkey data
    pure (unlessUnrecognized res)

-- The first two results are returned with the item still on the stack.
def handleEncryptedPem (headers : Armor.Headers) (data outer : Bytes) : ParserM Code := do
  let parsed ← pushParsed
  if ¬lib.gnutls.privkeyInit then pure .unrecognized
  else
    match headers.lookup dekInfo with
    | none   => pure .failure
    | some _ => do
      let res ← eachPassword (tryPem lib data outer)
      popParsed parsed
      pure res

end Gnutls

def Backend.handleEncryptedPem (backend : Backend) (inner : Inner) (want : Option Inner) (headers : Armor.Headers)
    (data outer : Bytes) : ParserM Code :=
  match backend with
  | .libgcrypt => Libgcrypt.handleEncryptedPem lib inner want headers data
  | .gnutls    => Gnutls.handleEncryptedPem lib headers data outer

-- See if it's encrypted PEM all openssl like
def encryptedHeaders (headers : Option Armor.Headers) : Option Armor.Headers :=
  headers.bind fun headers => if headers.lookup procType = some encryptedType then some headers else none

def handlePemBlock (backend : Backend) (want : Option Inner) (inner : Inner) (found : Armor.Found) (outer : Bytes) :
    ParserM Code :=
  match encryptedHeaders found.headers with
  | some headers => backend.handleEncryptedPem lib inner want headers found.data outer
  | none         => handlePlainPem lib backend inner want found.data

def mergeResult (result res : Code) : Code :=
  if res = .unrecognized then result
  else if result = .unrecognized then res
  else if result.toInt < res.toInt then res
  else result

def handlePemData (backend : Backend) (want : Option Inner) (result : Code) (found : Armor.Found × Bytes) :
    ParserM Code :=
  -- Something already failed to parse
  if result = .failure then pure result
  else
    match formatsForArmorType found.1.type with
    | none                      => pure result
    | some (inner, outerFormat) => do
      let res ← withParsed fun parsed => do
        -- Fill in information necessary for prompting
        parsingBlock parsed outerFormat found.2
        handlePemBlock lib backend want inner found.1 found.2
      pure (mergeResult result res)

def handlePemBlocks (backend : Backend) (want : Option Inner) (result : Code) (blocks : List (Armor.Found × Bytes)) :
    ParserM Code :=
  blocks.foldlM (handlePemData lib backend want) result

def handlePemFormat (backend : Backend) (want : Option Inner) (data : Bytes) : ParserM Code :=
  if data = [] then pure .unrecognized
  else do
    let blocks ← callParser .armor (lib.armor data)
    handlePemBlocks lib backend want .unrecognized blocks

-- parser_formats, without a function for the format that the table does not have.
def parserFunction (backend : Backend) (format : DataFormat) (data : Bytes) : ParserM Code :=
  match format with
  | .derPrivateKey       => Parser.parseDerPrivateKey backend lib data
  | .derPrivateKeyRsa    => backend.parseDerPrivateKeyRsa lib data
  | .derPrivateKeyDsa    => backend.parseDerPrivateKeyDsa lib data
  | .derPrivateKeyEc     => backend.parseDerPrivateKeyEc lib data
  | .derSubjectPublicKey => parseDerSubjectPublicKey lib data
  | .derCertificateX509  => parseDerCertificate lib data
  | .derPkcs7            => parseDerPkcs7 lib data
  | .derPkcs8            => parseDerPkcs8 lib backend data
  | .derPkcs8Plain       => parseDerPkcs8Plain backend lib data
  | .derPkcs8Encrypted   => backend.parseDerPkcs8Encrypted lib data
  | .derPkcs10           => parseDerPkcs10 lib data
  | .derSpkac            => parseDerSpkac lib data
  | .base64Spkac         => parseBase64Spkac lib data
  | .derPkcs12           => backend.parseDerPkcs12 lib data
  | .opensshPublic       => parseOpensshPublic lib data
  | .openpgpPacket       => parseOpenpgpPackets lib data
  | .openpgpArmor        => handlePemFormat lib backend (some .openpgpPacket) data
  | .pem                 => handlePemFormat lib backend none data
  | .pemPrivateKeyRsa    => handlePemFormat lib backend (some .derPrivateKeyRsa) data
  | .pemPrivateKeyDsa    => handlePemFormat lib backend (some .derPrivateKeyDsa) data
  | .pemCertificateX509  => handlePemFormat lib backend (some .derCertificateX509) data
  | .pemPkcs7            => handlePemFormat lib backend (some .derPkcs7) data
  | .pemPkcs8Plain       => handlePemFormat lib backend (some .derPkcs8Plain) data
  | .pemPkcs8Encrypted   => handlePemFormat lib backend (some .derPkcs8Encrypted) data
  | .pemPkcs12           => handlePemFormat lib backend (some .derPkcs12) data
  | .pemPkcs10           => handlePemFormat lib backend (some .derPkcs10) data
  | .pemPrivateKeyEc     => handlePemFormat lib backend (some .derPrivateKeyEc) data
  | .pemPublicKey        => handlePemFormat lib backend (some .derSubjectPublicKey) data
  | .pemPrivateKey       => pure .unrecognized

-- parser_format_foreach, up to the first format that is recognised.
def parseFormats (backend : Backend) (data : Bytes) : List DataFormat → ParserM Code
  | []                => pure .unrecognized
  | format :: formats => orElse (parserFunction lib backend format data) (parseFormats backend data formats)

def parseBytes (backend : Backend) (formats : List DataFormat) (data : Bytes) : ParserM Code :=
  if data = [] then pure .unrecognized else parseFormats lib backend data formats

-- What stops the program when the data is in a memory: a fault, or reading behind the end of the memory.
inductive Crash
  | parser (fault : Fault)
  | outOfBounds
  deriving DecidableEq, Repr

abbrev MemoryM := StateT State (Except Crash)

-- Something is read before the function goes on.
def reads {α : Type} (result : Except Crash α) (f : α → ParserM Code) : MemoryM Code := fun s =>
  match result with
  | .error crash => .error crash
  | .ok a        => (f a s).mapError .parser

-- The formats whose functions call `egg_armor_parse`.
def DataFormat.armored : DataFormat → Bool
  | .openpgpArmor
  | .pem
  | .pemPrivateKeyRsa
  | .pemPrivateKeyDsa
  | .pemCertificateX509
  | .pemPkcs7
  | .pemPkcs8Plain
  | .pemPkcs8Encrypted
  | .pemPkcs12
  | .pemPkcs10
  | .pemPrivateKeyEc
  | .pemPublicKey => true
  | _             => false

end Parser

-- What the functions of the parser are to announce.
namespace Parser

open GLib

structure Item where
  attributes : List Attribute
  format     : DataFormat
  bytes      : Bytes
  deriving DecidableEq, Repr

-- The attributes, the format and the data block of the item.
def Announcement.Is (a : Announcement) (item : Item) : Prop :=
  a.attributes = some item.attributes ∧ a.format = some item.format ∧ a.bytes = some item.bytes

-- The numbers, unless one of them is missing.
def present : List (Option Bytes × AttributeType) → Option (List Attribute)
  | []                         => some []
  | (none, _) :: _             => none
  | (some value, type) :: rest => (present rest).map (.data type value :: ·)

-- Those that are there.
def those (numbers : List (Option Bytes × AttributeType)) : List Attribute :=
  numbers.filterMap fun number => number.1.map (.data number.2)

def privateKeyAttributes (type : KeyType) (attrs : List Attribute) : List Attribute :=
  [.ofClass .privateKey, .keyType type, .isPrivate true] ++ attrs

def publicKeyAttributes (type : KeyType) (attrs : List Attribute) : List Attribute :=
  [.ofClass .publicKey, .keyType type] ++ attrs

namespace Libgcrypt

variable (asn1 : Asn1) (data : Bytes)

def rsaItem : Option Item := do
  let asn ← asn1.rsaPrivateKey data
  let attrs ← present (rsaNumbers asn)
  some ⟨privateKeyAttributes .rsa attrs, .derPrivateKeyRsa, data⟩

def dsaItem : Option Item := do
  let asn ← asn1.dsaPrivateKey data
  let attrs ← present [(asn.p, .prime), (asn.q, .subprime), (asn.g, .base), (asn.priv, .value)]
  some ⟨privateKeyAttributes .dsa attrs, .derPrivateKeyDsa, data⟩

def ecItem : Option Item := do
  let asn ← asn1.ecPrivateKey data
  let attrs ← present [(asn.parameters, .ecParams), (asn.privateKey, .value), (ecPoint asn1 asn, .ecPoint)]
  some ⟨privateKeyAttributes .ec attrs, .derPrivateKeyEc, data⟩

def dsaPartsAttributes (keydata params : Bytes) : Option (List Attribute) := do
  let asnParams ← asn1.dsaParameters params
  let key ← asn1.dsaPrivatePart keydata
  let attrs ← present [(asnParams.p, .prime), (asnParams.q, .subprime), (asnParams.g, .base), (key, .value)]
  some (privateKeyAttributes .dsa attrs)

end Libgcrypt

namespace Gnutls

variable (asn1 : Asn1) (privkey : Privkey) (data : Bytes)

def rsaItem : Option Item :=
  privkey.rsaRaw.map fun raw =>
    ⟨privateKeyAttributes .rsa [.data .modulus raw.m, .data .publicExponent raw.e, .data .privateExponent raw.d,
      .data .prime1 raw.p, .data .prime2 raw.q, .data .coefficient raw.u], .derPrivateKeyRsa, data⟩

def dsaItem : Option Item :=
  privkey.dsaRaw.map fun raw =>
    ⟨privateKeyAttributes .dsa [.data .prime raw.p, .data .subprime raw.q, .data .base raw.g, .data .value raw.x],
      .derPrivateKeyDsa, data⟩

def ecItem : Option Item := do
  let asn ← asn1.ecPrivateKey data
  let attrs ← present [(asn.parameters, .ecParams), (privkey.eccRaw.map (·.k), .value),
    (privkey.eccRaw.bind fun raw => asn1.ecPoint (4 :: (raw.x ++ raw.y)), .ecPoint)]
  some ⟨privateKeyAttributes .ec attrs, .derPrivateKeyEc, data⟩

-- What there is of a key that the library has imported.
def keyItem : Option Item :=
  match privkey.pkAlgorithm with
  | .rsa   => rsaItem privkey data
  | .dsa   => dsaItem privkey data
  | .ec    => ecItem asn1 privkey data
  | .other => none

end Gnutls

variable (lib : Library)

namespace Backend

def rsaItem (backend : Backend) (data : Bytes) : Option Item :=
  match backend with
  | .libgcrypt => Libgcrypt.rsaItem lib.asn1 data
  | .gnutls    => (lib.gnutls.importDer data none).bind (Gnutls.rsaItem · data)

def dsaItem (backend : Backend) (data : Bytes) : Option Item :=
  match backend with
  | .libgcrypt => Libgcrypt.dsaItem lib.asn1 data
  | .gnutls    => (lib.gnutls.importDer data none).bind (Gnutls.dsaItem · data)

def ecItem (backend : Backend) (data : Bytes) : Option Item :=
  match backend with
  | .libgcrypt => Libgcrypt.ecItem lib.asn1 data
  | .gnutls    => (lib.gnutls.importDer data none).bind (Gnutls.ecItem lib.asn1 · data)

-- The two parts have no block of their own.
def dsaPartsAttributes (backend : Backend) (keydata params : Bytes) : Option (List Attribute) :=
  match backend with
  | .libgcrypt => Libgcrypt.dsaPartsAttributes lib.asn1 keydata params
  | .gnutls    => none

end Backend

inductive PrivateKeyItem (backend : Backend) (data : Bytes) (item : Item) : Prop
  | rsa (h : backend.rsaItem lib data = some item)
  | dsa (h : backend.dsaItem lib data = some item)
  | ec  (h : backend.ecItem lib data = some item)

inductive SubjectPublicKeyItem (data : Bytes) : Item → Prop
  | rsa {asn key attrs} (h : lib.asn1.subjectPublicKeyInfo data = some asn) (halgorithm : asn.algorithm = oidPkix1Rsa)
      (hkey : lib.asn1.rsaPublicKey asn.subjectPublicKey = some key)
      (hattrs : present [(key.modulus, .modulus), (key.publicExponent, .publicExponent)] = some attrs) :
      SubjectPublicKeyItem data ⟨publicKeyAttributes .rsa attrs, .derSubjectPublicKey, data⟩
  | dsa {asn value key attrs} (h : lib.asn1.subjectPublicKeyInfo data = some asn)
      (halgorithm : asn.algorithm = oidPkix1Dsa) (hvalue : lib.asn1.dsaPublicPart asn.subjectPublicKey = some value)
      (hkey : asn.parameters.bind lib.asn1.dsaParameters = some key)
      (hattrs : present [(key.p, .prime), (key.q, .subprime), (key.g, .base), (value, .value)] = some attrs) :
      SubjectPublicKeyItem data ⟨publicKeyAttributes .dsa attrs, .derSubjectPublicKey, data⟩
  | ec {asn} (h : lib.asn1.subjectPublicKeyInfo data = some asn) (halgorithm : asn.algorithm = oidPkix1Ec) :
      SubjectPublicKeyItem data ⟨publicKeyAttributes .ec (.data .ecParams (asn.parameters.getD []) ::
        those [(lib.asn1.ecPoint asn.subjectPublicKey, .ecPoint)]), .derSubjectPublicKey, data⟩

-- The key of a plain structure. The two parts of a DSA key are its block.
inductive Pkcs8Item (backend : Backend) (data : Bytes) : Item → Prop
  | rsa {asn keydata item} (h : lib.asn1.privateKeyInfo data = some asn) (halgorithm : asn.algorithm = some oidPkix1Rsa)
      (hkey : asn.privateKey = some keydata) (hitem : backend.rsaItem lib keydata = some item) :
      Pkcs8Item backend data item
  | dsa {asn keydata item} (h : lib.asn1.privateKeyInfo data = some asn) (halgorithm : asn.algorithm = some oidPkix1Dsa)
      (hkey : asn.privateKey = some keydata) (hitem : backend.dsaItem lib keydata = some item) :
      Pkcs8Item backend data item
  | dsaParts {asn keydata params attrs} (h : lib.asn1.privateKeyInfo data = some asn)
      (halgorithm : asn.algorithm = some oidPkix1Dsa) (hkey : asn.privateKey = some keydata)
      (hparams : asn.parameters = some params) (hattrs : backend.dsaPartsAttributes lib keydata params = some attrs) :
      Pkcs8Item backend data ⟨attrs, .derPkcs8Plain, data⟩
  | ec {asn keydata item} (h : lib.asn1.privateKeyInfo data = some asn) (halgorithm : asn.algorithm = some oidPkix1Ec)
      (hkey : asn.privateKey = some keydata) (hitem : backend.ecItem lib keydata = some item) :
      Pkcs8Item backend data item

-- The key that a password opens.
def EncryptedKeyItem (backend : Backend) (data : Bytes) (item : Item) : Prop :=
  match backend with
  | .libgcrypt => ∃ info scheme password plain, lib.asn1.encryptedPrivateKeyInfo data = some info ∧
      info.algorithm = some scheme ∧
      Libgcrypt.decrypted lib info (lib.gcrypt.readCipher scheme password info.parameters) = some plain ∧
      Pkcs8Item lib .libgcrypt plain item
  | .gnutls    => ∃ password privkey, lib.gnutls.importDer data password = some privkey ∧
      Gnutls.keyItem lib.asn1 privkey data = some item

def certificateItem (data : Bytes) : Option Item := do
  let asn ← lib.asn1.certificate data
  let attrs := those [(asn.subject, .subject), (asn.issuer, .issuer), (asn.serialNumber, .serialNumber)]
  some ⟨[.ofClass .certificate, .certificateTypeX509, .data .value data] ++ attrs, .derCertificateX509, data⟩

def pkcs10Item (data : Bytes) : Option Item := do
  let asn ← lib.asn1.certificationRequest data
  let attrs := those [(asn.subject, .subject)]
  some ⟨[.ofClass .certificateRequest, .requestType .pkcs10, .data .value data] ++ attrs, .derPkcs10, data⟩

def spkacItem (data : Bytes) : Item :=
  ⟨[.ofClass .certificateRequest, .requestType .spkac, .data .value data], .derSpkac, data⟩

-- There is none without a key.
def openpgpItem (block : Openpgp.Block) : Option Item :=
  if block.records.isEmpty then none
  else some ⟨[.ofClass .gnupgRecords, .data .value (recordsFormat block.records)], .openpgpPacket, block.outer⟩

def opensshItem (key : OpensshKey) : Item :=
  ⟨key.attrs, .opensshPublic, key.outer⟩

end Parser
