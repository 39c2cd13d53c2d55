import GcrModel.Gcr.Parser.Der

-- The encrypted structures of gcr-parser-libgcrypt.c and gcr-parser-gnutls.c.
namespace Parser

open GLib

variable (lib : Library)

-- The errors that end the parsing of a container.
def Code.ends (r : Code) : Bool :=
  r = .failure ∨ r = .cancelled ∨ r = .locked

-- We assume unrecognized data, is a bad encryption key
def unlessUnrecognized (r : Code) : Option Code :=
  if r = .unrecognized then none else some r

-- The types whose data is handed on.
def BagType.known : BagType → Bool
  | .pkcs8Key | .pkcs8EncryptedKey | .certificate => true
  | .encrypted | .other                          => false

-- An element of a bag.
def handleBagElement (backend : Backend) (encrypted : Bytes → ParserM Code) (element : BagElement) : ParserM Code :=
  withParsed fun parsed => do
    setLabel parsed element.friendlyName
    match element.type with
    | .pkcs8Key          => parseDerPkcs8Plain backend lib element.data
    | .pkcs8EncryptedKey => encrypted element.data
    | .certificate       => handlePkcs12CertBag lib element.data
    | _                  => pure .unrecognized

namespace Libgcrypt

-- Unpad the DER data
def unpad (data : Bytes) : Bytes :=
  match lib.asn1.elementLength data with
  | some (l + 1) => data.take (l + 1)
  | _            => data

-- What a cipher makes of the encrypted data.
def decrypted (info : EncryptedInfo) (cipher : Option (Bytes → Option Bytes)) : Option Bytes :=
  cipher.bind fun cipher => info.encryptedData.bind fun crypted => (cipher crypted).map (unpad lib)

def tryDecrypted (info : EncryptedInfo) (scheme : Oid) (parse : Bytes → ParserM Code) (password : Password) :
    ParserM (Option Code) := do
  let cipher ← call password (lib.gcrypt.readCipher scheme password info.parameters)
  match decrypted lib info cipher with
  | none      => pure (some .failure)
  | some data => do
    let r ← parse data
    pure (unlessUnrecognized r)

def parseDerPkcs8Encrypted (data : Bytes) : ParserM Code :=
  withParsed fun parsed =>
    match lib.asn1.encryptedPrivateKeyInfo data with
    | none      => pure .unrecognized
    | some info => do
      parsingBlock parsed .derPkcs8Encrypted data
      match info.algorithm with
      | none        => pure .failure
      | some scheme => eachPassword (tryDecrypted lib info scheme (parseDerPkcs8Plain .libgcrypt lib))

def bagType (oid : Oid) : BagType :=
  if oid = oidPkcs12BagPkcs8Key then .pkcs8Key
  else if oid = oidPkcs12BagPkcs8EncryptedKey then .pkcs8EncryptedKey
  else if oid = oidPkcs12BagCertificate then .certificate
  else .other

def handleSafeBags : List SafeBag → ParserM Code
  | []          => pure .success
  | bag :: bags =>
    match bag.bagId, bag.bagValue with
    | some oid, some element => do
      let r ← handleBagElement lib .libgcrypt (parseDerPkcs8Encrypted lib) ⟨bagType oid, element, bag.friendlyName⟩
      if r.ends then pure r else handleSafeBags bags
    | _,        _            => pure .failure

def handlePkcs12Bag (data : Bytes) : ParserM Code :=
  match lib.asn1.safeContents data with
  | none      => pure .unrecognized
  | some bags => handleSafeBags lib bags

def handlePkcs12EncryptedBag (bag : Bytes) : ParserM Code :=
  match lib.asn1.encryptedData bag with
  | none      => pure .unrecognized
  | some info =>
    match info.algorithm, info.parameters with
    | some scheme, some _ => eachPassword (tryDecrypted lib info scheme (handlePkcs12Bag lib))
    | _,           _      => pure .failure

def handleSafeContent (contentType : Oid) (bag : Bytes) : ParserM Code :=
  -- A non encrypted bag, just parse
  if contentType = oidPkcs7Data then
    match (lib.asn1.pkcs7Data bag).bind id with
    | none         => pure .failure
    | some content => handlePkcs12Bag lib content
  -- Encrypted data first needs decryption
  else if contentType = oidPkcs7EncryptedData then handlePkcs12EncryptedBag lib bag
  else pure .unrecognized

def handleSafeContents : List ContentInfo → ParserM Code
  | []             => pure .success
  | asn :: rest    =>
    match asn.content with
    | none     => pure .failure
    | some bag => do
      let r ← handleSafeContent lib asn.contentType bag
      if r.ends then pure r else handleSafeContents rest

def handlePkcs12Safe (data : Bytes) : ParserM Code :=
  match lib.asn1.authenticatedSafe data with
  | none          => pure .unrecognized
  | some contents => handleSafeContents lib contents

def tryMac (macData : MacData) (algorithm : Oid) (digest content : Bytes) (password : Password) :
    ParserM (Option Code) := do
  let mac ← call password (lib.gcrypt.readMac algorithm password macData)
  match mac with
  | none              => pure (some .failure)
  | some (mac, length) =>
    -- If not the right length, then that's really broken
    if length ≠ digest.length then pure (some .failure)
    else if mac content = digest then pure (some .success)
    else pure none

def verifyPkcs12Safe (macData : Option MacData) (content : Bytes) : ParserM Code :=
  match macData with
  | none         => pure .success
  | some macData =>
    match macData.algorithm, macData.digest with
    | some algorithm, some digest => eachPassword (tryMac lib macData algorithm digest content)
    | _,              _           => pure .failure

def parsePkcs12Content (macData : Option MacData) (string : Bytes) : ParserM Code := do
  let ret ← verifyPkcs12Safe lib macData string
  if ret = .success then handlePkcs12Safe lib string else pure ret

def parseDerPkcs12 (data : Bytes) : ParserM Code :=
  withParsed fun parsed =>
    match lib.asn1.pfx data with
    | none     => pure .unrecognized
    | some asn => do
      parsingBlock parsed .derPkcs12 data
      -- Outer most one must just be plain data
      if asn.contentType ≠ some oidPkcs7Data then pure .unrecognized
      else
        match (asn.content.bind lib.asn1.pkcs7Data).bind id with
        | none        => pure .unrecognized
        | some string => parsePkcs12Content lib asn.macData string

end Libgcrypt

namespace Gnutls

-- The key that a password opens, as if it had been in a plain structure.
def handleImported (privkey : Privkey) (data : Bytes) : ParserM Code :=
  withParsed fun plain => do
    parsingBlock plain .derPkcs8Plain data
    withParsed fun parsed => handlePrivateKey lib.asn1 parsed privkey data

def tryPkcs8 (data : Bytes) (password : Password) : ParserM (Option Code) := do
  let privkey ← call password (lib.gnutls.importDer data password)
  match privkey with
  | none         => pure none
  | some privkey => do
    let r ← handleImported lib privkey data
    pure (unlessUnrecognized r)

def parseDerPkcs8Encrypted (data : Bytes) : ParserM Code :=
  withParsed fun parsed =>
    match lib.asn1.encryptedPrivateKeyInfo data with
    | none   => pure .unrecognized
    | some _ => do
      parsingBlock parsed .derPkcs8Encrypted data
      if ¬lib.gnutls.privkeyInit then pure .unrecognized else eachPassword (tryPkcs8 lib data)

-- `element` keeps pointing to the bytes of the last one that were handed on. Behind an element of another type it is
-- released again.
def handleBagElements (stale : Bool) : List BagElement → ParserM Code
  | []                  => pure .success
  | element :: elements => do
    let ret ← handleBagElement lib .gnutls (parseDerPkcs8Encrypted lib) element
    if stale ∧ ¬element.type.known then throw .freed
    else if ret.ends then pure ret
    else handleBagElements (stale ∨ element.type.known) elements

def handlePkcs12Bag (bag : Bag) : ParserM Code :=
  match bag.elements with
  | none          => pure .failure
  | some elements => handleBagElements lib false elements

def tryBag (bag : Bag) (password : Password) : ParserM (Option Code) := do
  let bag ← call password (lib.gnutls.bagDecrypt bag password)
  match bag with
  | none     => pure none
  | some bag => do
    let r ← handlePkcs12Bag lib bag
    pure (unlessUnrecognized r)

def handlePkcs12EncryptedBag (bag : Bag) : ParserM Code :=
  eachPassword (tryBag lib bag)

def handleBag (bag : Bag) : ParserM Code :=
  if bag.encrypted then handlePkcs12EncryptedBag lib bag else handlePkcs12Bag lib bag

def handleBags (complete : Bool) : List Bag → ParserM Code
  | []          => pure (if complete then .success else .failure)
  | bag :: bags => do
    let ret ← handleBag lib bag
    if ret.ends then pure ret else handleBags complete bags

def handlePkcs12Safe (pkcs12 : Pkcs12) : ParserM Code :=
  handleBags lib pkcs12.complete pkcs12.bags

-- The loop goes on with a password that verifies the MAC, and ends with success at one that does not.
def tryMac (pkcs12 : Pkcs12) (password : Password) : ParserM (Option Code) := do
  let verified ← call password (pkcs12.verifyMac password)
  pure (if verified then none else some .success)

def verifyPkcs12Safe (pkcs12 : Pkcs12) : ParserM Code :=
  eachPassword (tryMac pkcs12)

-- The MAC is optional
def verifyMacData (macData : Option MacData) (pkcs12 : Pkcs12) : ParserM Code :=
  match macData with
  | none   => pure .success
  | some _ => verifyPkcs12Safe pkcs12

def parsePkcs12Content (macData : Option MacData) (pkcs12 : Pkcs12) : ParserM Code := do
  let ret ← verifyMacData macData pkcs12
  if ret = .success then handlePkcs12Safe lib pkcs12 else pure ret

def parseDerPkcs12 (data : Bytes) : ParserM Code :=
  withParsed fun parsed =>
    match lib.asn1.pfx data with
    | none     => pure .unrecognized
    | some asn =>
      match lib.gnutls.importPkcs12 data with
      | none        => pure .unrecognized
      | some pkcs12 => do
        parsingBlock parsed .derPkcs12 data
        parsePkcs12Content lib asn.macData pkcs12

end Gnutls

namespace Backend

def parseDerPkcs8Encrypted (backend : Backend) (data : Bytes) : ParserM Code :=
  match backend with
  | .libgcrypt => Libgcrypt.parseDerPkcs8Encrypted lib data
  | .gnutls    => Gnutls.parseDerPkcs8Encrypted lib data

def parseDerPkcs12 (backend : Backend) (data : Bytes) : ParserM Code :=
  match backend with
  | .libgcrypt => Libgcrypt.parseDerPkcs12 lib data
  | .gnutls    => Gnutls.parseDerPkcs12 lib data

end Backend

def parseDerPkcs8 (backend : Backend) (data : Bytes) : ParserM Code :=
  orElse (parseDerPkcs8Plain backend lib data) (backend.parseDerPkcs8Encrypted lib data)

end Parser
