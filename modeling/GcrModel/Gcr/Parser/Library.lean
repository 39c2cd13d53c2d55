import GcrModel.Gcr.Parser.Parsed

-- What the parser gets from elsewhere: the ASN.1 structures that egg-asn1x decodes, and the cryptographic libraries.
namespace Parser

open GLib

abbrev Oid := Bytes

-- GCR_OID_PKIX1_RSA and so on, as they are encoded.
def oidPkix1Rsa : Oid := [42, 134, 72, 134, 247, 13, 1, 1, 1]
def oidPkix1Dsa : Oid := [42, 134, 72, 206, 56, 4, 1]
def oidPkix1Ec : Oid := [42, 134, 72, 206, 61, 2, 1]
def oidPkcs7Data : Oid := [42, 134, 72, 134, 247, 13, 1, 7, 1]
def oidPkcs7SignedData : Oid := [42, 134, 72, 134, 247, 13, 1, 7, 2]
def oidPkcs7EncryptedData : Oid := [42, 134, 72, 134, 247, 13, 1, 7, 6]
def oidPkcs12BagPkcs8Key : Oid := [42, 134, 72, 134, 247, 13, 1, 12, 10, 1, 1]
def oidPkcs12BagPkcs8EncryptedKey : Oid := [42, 134, 72, 134, 247, 13, 1, 12, 10, 1, 2]
def oidPkcs12BagCertificate : Oid := [42, 134, 72, 134, 247, 13, 1, 12, 10, 1, 3]

structure RsaPublicKey where
  modulus        : Option Bytes
  publicExponent : Option Bytes

structure DsaParameters where
  p : Option Bytes
  q : Option Bytes
  g : Option Bytes

structure SubjectPublicKeyInfo where
  algorithm        : Oid
  parameters       : Option Bytes
  subjectPublicKey : Bytes

structure PrivateKeyInfo where
  algorithm  : Option Oid
  parameters : Option Bytes
  privateKey : Option Bytes

structure Certificate where
  commonName   : Option Bytes
  subject      : Option Bytes
  issuer       : Option Bytes
  serialNumber : Option Bytes

structure ContentInfo where
  contentType : Oid
  content     : Option Bytes

structure CertificationRequest where
  commonName : Option Bytes
  subject    : Option Bytes

structure RsaPrivateKey where
  version         : Option Nat
  modulus         : Option Bytes
  publicExponent  : Option Bytes
  privateExponent : Option Bytes
  prime1          : Option Bytes
  prime2          : Option Bytes
  coefficient     : Option Bytes

structure DsaPrivateKey where
  p    : Option Bytes
  q    : Option Bytes
  g    : Option Bytes
  priv : Option Bytes

-- The public key has its number of bits.
structure EcPrivateKey where
  version    : Option Nat
  parameters : Option Bytes
  privateKey : Option Bytes
  publicKey  : Option (Bytes × Nat)

structure EncryptedInfo where
  algorithm     : Option Oid
  parameters    : Option Bytes
  encryptedData : Option Bytes

structure SafeBag where
  bagId        : Option Oid
  bagValue     : Option Bytes
  friendlyName : Option Bytes

structure MacData where
  algorithm : Option Oid
  digest    : Option Bytes

structure Pfx where
  contentType : Option Oid
  content     : Option Bytes
  macData     : Option MacData

-- The structures that are decoded. What has a tag of its own is decoded from an ANY in the same way.
structure Asn1 where
  subjectPublicKeyInfo    : Bytes → Option SubjectPublicKeyInfo
  rsaPublicKey            : Bytes → Option RsaPublicKey
  dsaPublicPart           : Bytes → Option (Option Bytes)
  dsaParameters           : Bytes → Option DsaParameters
  -- Encodes an OCTET STRING.
  ecPoint                 : Bytes → Option Bytes
  privateKeyInfo          : Bytes → Option PrivateKeyInfo
  certificate             : Bytes → Option Certificate
  contentInfo             : Bytes → Option ContentInfo
  signedData              : Bytes → Option (List Bytes)
  -- The value, when it is there.
  certBag                 : Bytes → Option (Option Bytes)
  -- The string that it is.
  pkcs7Data               : Bytes → Option (Option Bytes)
  certificationRequest    : Bytes → Option CertificationRequest
  signedPublicKey         : Bytes → Bool
  rsaPrivateKey           : Bytes → Option RsaPrivateKey
  dsaPrivateKey           : Bytes → Option DsaPrivateKey
  dsaPrivatePart          : Bytes → Option (Option Bytes)
  ecPrivateKey            : Bytes → Option EcPrivateKey
  encryptedPrivateKeyInfo : Bytes → Option EncryptedInfo
  encryptedData           : Bytes → Option EncryptedInfo
  safeContents            : Bytes → Option (List SafeBag)
  authenticatedSafe       : Bytes → Option (List ContentInfo)
  pfx                     : Bytes → Option Pfx
  elementLength           : Bytes → Option Nat

inductive PkAlgorithm
  | rsa
  | dsa
  | ec
  | other
  deriving DecidableEq, Repr

structure RsaRaw where
  m : Bytes
  e : Bytes
  d : Bytes
  p : Bytes
  q : Bytes
  u : Bytes

structure DsaRaw where
  p : Bytes
  q : Bytes
  g : Bytes
  x : Bytes

structure EccRaw where
  x : Bytes
  y : Bytes
  k : Bytes

-- A gnutls_privkey_t with what is exported from it.
structure Privkey where
  pkAlgorithm : PkAlgorithm
  rsaRaw      : Option RsaRaw
  dsaRaw      : Option DsaRaw
  eccRaw      : Option EccRaw

inductive BagType
  | pkcs8Key
  | pkcs8EncryptedKey
  | certificate
  | encrypted
  | other
  deriving DecidableEq, Repr

structure BagElement where
  type         : BagType
  data         : Bytes
  friendlyName : Option Bytes

-- The elements when they can be counted. The first one tells that the bag is encrypted.
structure Bag where
  encrypted : Bool
  elements  : Option (List BagElement)

-- The bags up to the end or to an error.
structure Pkcs12 where
  bags     : List Bag
  complete : Bool
  -- Whether a password verifies the MAC.
  verifyMac : Password → Bool

structure Gnutls where
  privkeyInit   : Bool
  importDer     : Bytes → Password → Option Privkey
  importPem     : Bytes → Password → Option Privkey
  importPkcs12  : Bytes → Option Pkcs12
  bagDecrypt    : Bag → Password → Option Bag

-- A password may make a cipher and an authentication code, with the length of the digest.
structure Gcrypt where
  readCipher   : Oid → Password → Option Bytes → Option (Bytes → Option Bytes)
  readMac      : Oid → Password → MacData → Option ((Bytes → Bytes) × Nat)
  -- egg_openssl_decrypt_block
  decryptBlock : Bytes → Password → Bytes → Option Bytes

structure OpensshKey where
  attrs : List Attribute
  label : Option Bytes
  outer : Bytes

structure Library where
  asn1    : Asn1
  gnutls  : Gnutls
  gcrypt  : Gcrypt
  armor   : Bytes → Except Armor.Fault (List (Armor.Found × Bytes))
  -- The digests and the clock of the OpenPGP parser.
  hashes  : Openpgp.Hashes
  now     : Nat → UInt64
  openssh : Bytes → List OpensshKey
  -- What is decoded behind the prefix of an SPKAC.
  base64  : Bytes → Option Bytes

-- GCR_OPENPGP_PARSE_KEYS | GCR_OPENPGP_PARSE_ATTRIBUTES | GCR_OPENPGP_PARSE_SIGNATURES
def openpgpFlags : Openpgp.Flags where
  keys       := true
  noRecords  := false
  signatures := true
  attributes := true

-- There is nothing to be read behind the data.
def Library.openpgp (lib : Library) (data : Bytes) : Except Openpgp.Fault (List Openpgp.Block) :=
  Openpgp.openpgpParseIn lib.hashes lib.now openpgpFlags data []

end Parser
