import GcrModel.Gcr.Parser.PrivateKey

-- The functions of gcr-parser.c for structures that are not encrypted.
namespace Parser

open GLib

variable (backend : Backend) (lib : Library)

-- The next function has its turn when the data is not recognised.
def orElse (first next : ParserM Code) : ParserM Code := do
  let res ← first
  if res = .unrecognized then next else pure res

def parseDerPrivateKey (data : Bytes) : ParserM Code :=
  orElse (backend.parseDerPrivateKeyRsa lib data) <|
    orElse (backend.parseDerPrivateKeyDsa lib data) (backend.parseDerPrivateKeyEc lib data)

def startPublicKey (parsed : Nat) (type : KeyType) : ParserM Unit := do
  parsingObject parsed .publicKey
  setAttribute parsed (.keyType type)

def setNumbers (parsed : Nat) (numbers : List (Option Bytes × AttributeType)) : ParserM Code := do
  let found ← setAsn1Numbers parsed numbers
  pure (if found then .success else .failure)

def handleSubjectPublicKeyRsa (parsed : Nat) (key : Bytes) : ParserM Code :=
  match lib.asn1.rsaPublicKey key with
  | none     => pure .failure
  | some asn => do
    startPublicKey parsed .rsa
    setNumbers parsed [(asn.modulus, .modulus), (asn.publicExponent, .publicExponent)]

def handleSubjectPublicKeyDsa (parsed : Nat) (key : Bytes) (params : Option Bytes) : ParserM Code :=
  match lib.asn1.dsaPublicPart key, params.bind lib.asn1.dsaParameters with
  | some value, some asn => do
    startPublicKey parsed .dsa
    setNumbers parsed [(asn.p, .prime), (asn.q, .subprime), (asn.g, .base), (value, .value)]
  | _,          _        => pure .failure

-- Without parameters there is an attribute without a value, and whether there is a point does not matter.
def handleSubjectPublicKeyEc (parsed : Nat) (key : Bytes) (params : Option Bytes) : ParserM Code := do
  startPublicKey parsed .ec
  setAttribute parsed (.data .ecParams (params.getD []))
  let _ ← setAsn1Number parsed (lib.asn1.ecPoint key) .ecPoint
  pure .success

def handleSubjectPublicKey (parsed : Nat) (asn : SubjectPublicKeyInfo) : ParserM Code :=
  if asn.algorithm = oidPkix1Rsa then handleSubjectPublicKeyRsa lib parsed asn.subjectPublicKey
  else if asn.algorithm = oidPkix1Dsa then handleSubjectPublicKeyDsa lib parsed asn.subjectPublicKey asn.parameters
  else if asn.algorithm = oidPkix1Ec then handleSubjectPublicKeyEc lib parsed asn.subjectPublicKey asn.parameters
  else pure .unrecognized

def parseDerSubjectPublicKey (data : Bytes) : ParserM Code :=
  match lib.asn1.subjectPublicKeyInfo data with
  | none     => pure .unrecognized
  | some asn =>
    withParsed fun parsed => do
      parsingBlock parsed .derSubjectPublicKey data
      let ret ← handleSubjectPublicKey lib parsed asn
      if ret = .success then do
        fireParsed parsed
        pure ret
      else
        pure ret

-- The function for the algorithm of a key.
def parsePkcs8Key (asn : PrivateKeyInfo) (keydata : Bytes) (algorithm : Oid) : ParserM Code :=
  if algorithm = oidPkix1Rsa then backend.parseDerPrivateKeyRsa lib keydata
  else if algorithm = oidPkix1Dsa then
    -- Try the normal sane format, otherwise try the two part format that everyone seems to like
    match asn.parameters with
    | none        => backend.parseDerPrivateKeyDsa lib keydata
    | some params =>
      orElse (backend.parseDerPrivateKeyDsa lib keydata) (backend.parseDerPrivateKeyDsaParts lib keydata params)
  else backend.parseDerPrivateKeyEc lib keydata

def parseDerPkcs8Plain (data : Bytes) : ParserM Code :=
  withParsed fun parsed =>
    match lib.asn1.privateKeyInfo data with
    | none     => pure .unrecognized
    | some asn => do
      parsingBlock parsed .derPkcs8Plain data
      match asn.algorithm with
      | none           => pure .failure
      | some algorithm =>
        if algorithm ≠ oidPkix1Rsa ∧ algorithm ≠ oidPkix1Dsa ∧ algorithm ≠ oidPkix1Ec then pure .unrecognized
        else
          match asn.privateKey with
          | none         => pure .failure
          | some keydata => parsePkcs8Key backend lib asn keydata algorithm

-- The name of the subject is the label unless there is one already.
def setSubjectLabel (parsed : Nat) (name : Option Bytes) : ParserM Unit := do
  let label ← getLabel
  match label, name with
  | none, some name => setLabel parsed (some name)
  | _,    _         => pure ()

-- Those that are missing are left out.
def setAsn1Elements (parsed : Nat) : List (Option Bytes × AttributeType) → ParserM Unit
  | []                    => pure ()
  | (value, type) :: rest => do
    let _ ← setAsn1Number parsed value type
    setAsn1Elements parsed rest

def parseDerCertificate (data : Bytes) : ParserM Code :=
  match lib.asn1.certificate data with
  | none     => pure .unrecognized
  | some asn =>
    withParsed fun parsed => do
      parsingBlock parsed .derCertificateX509 data
      parsingObject parsed .certificate
      setAttribute parsed .certificateTypeX509
      setSubjectLabel parsed asn.commonName
      setAttribute parsed (.data .value data)
      setAsn1Elements parsed [(asn.subject, .subject), (asn.issuer, .issuer), (asn.serialNumber, .serialNumber)]
      fireParsed parsed
      pure .success

-- Up to the first certificate that fails.
def parseCertificates : List Bytes → ParserM Code
  | []                  => pure .success
  | certificate :: rest => do
    let ret ← parseDerCertificate lib certificate
    if ret = .success then parseCertificates rest else pure ret

def handlePkcs7SignedData (content : Bytes) : ParserM Code :=
  match lib.asn1.signedData content with
  | none              => pure .unrecognized
  | some certificates => parseCertificates lib certificates

def parseDerPkcs7 (data : Bytes) : ParserM Code :=
  withParsed fun parsed =>
    match lib.asn1.contentInfo data with
    | none     => pure .unrecognized
    | some asn => do
      parsingBlock parsed .derPkcs7 data
      -- Outer most one must just be plain data
      if asn.contentType ≠ oidPkcs7SignedData then pure .failure
      else
        match asn.content with
        | none         => pure .failure
        | some content => handlePkcs7SignedData lib content

def handlePkcs12CertBag (data : Bytes) : ParserM Code :=
  match lib.asn1.certBag data with
  | none         => pure .unrecognized
  | some element =>
    match (element.bind lib.asn1.pkcs7Data).bind id with
    | none             => pure .failure
    | some certificate => parseDerCertificate lib certificate

def parseDerPkcs10 (data : Bytes) : ParserM Code :=
  match lib.asn1.certificationRequest data with
  | none     => pure .unrecognized
  | some asn =>
    withParsed fun parsed => do
      parsingBlock parsed .derPkcs10 data
      parsingObject parsed .certificateRequest
      setAttribute parsed (.requestType .pkcs10)
      setSubjectLabel parsed asn.commonName
      setAttribute parsed (.data .value data)
      setAsn1Elements parsed [(asn.subject, .subject)]
      fireParsed parsed
      pure .success

def parseDerSpkac (data : Bytes) : ParserM Code :=
  if ¬lib.asn1.signedPublicKey data then pure .unrecognized
  else
    withParsed fun parsed => do
      parsingBlock parsed .derSpkac data
      parsingObject parsed .certificateRequest
      setAttribute parsed (.requestType .spkac)
      setAttribute parsed (.data .value data)
      fireParsed parsed
      pure .success

-- SPKAC=
def spkacPrefix : Bytes :=
  ascii "SPKAC=".toList

def parseBase64Spkac (data : Bytes) : ParserM Code :=
  if spkacPrefix.length < data.length ∧ data.take spkacPrefix.length ≠ spkacPrefix then pure .unrecognized
  else
    withParsed fun parsed => do
      parsingBlock parsed .derSpkac data
      match lib.base64 data with
      | none       => pure .failure
      | some spkac => parseDerSpkac lib spkac

-- If it's an openpgp packet that doesn't contain a key, then just ignore it here.
def onOpenpgpPacket (block : Openpgp.Block) : ParserM Code :=
  if block.records.isEmpty then pure .unrecognized
  else
    withParsed fun parsed => do
      -- All we can do is the packet bounds
      parsingBlock parsed .openpgpPacket block.outer
      parsingObject parsed .gnupgRecords
      setAttribute parsed (.data .value (recordsFormat block.records))
      fireParsed parsed
      pure .success

def onOpensshPublicKeyParsed (key : OpensshKey) : ParserM Code :=
  withParsed fun parsed => do
    parsingBlock parsed .opensshPublic key.outer
    setAttributes parsed key.attrs
    setLabel parsed key.label
    fireParsed parsed
    pure .success

-- The calls of a callback, whose results do not matter.
def forEach {α : Type} (callback : α → ParserM Code) : List α → ParserM Unit
  | []      => pure ()
  | a :: as => do
    let _ ← callback a
    forEach callback as

def handleOpenpgpBlocks (blocks : List Openpgp.Block) : ParserM Code := do
  forEach onOpenpgpPacket blocks
  pure (if blocks.isEmpty then .unrecognized else .success)

def parseOpenpgpPackets (data : Bytes) : ParserM Code := do
  let blocks ← callParser .openpgp (lib.openpgp data)
  handleOpenpgpBlocks blocks

def parseOpensshPublic (data : Bytes) : ParserM Code := do
  forEach onOpensshPublicKeyParsed (lib.openssh data)
  pure (if lib.openssh data = [] then .unrecognized else .success)

end Parser
