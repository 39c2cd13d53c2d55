import GcrModel.Gcr.Parser.Library

-- The private keys of gcr-parser-libgcrypt.c and gcr-parser-gnutls.c.
namespace Parser

open GLib

-- What the functions for the keys have in common.
def startPrivateKey (parsed : Nat) (type : KeyType) : ParserM Unit := do
  parsingObject parsed .privateKey
  setAttribute parsed (.keyType type)
  setAttribute parsed (.isPrivate true)

-- A key is announced when all its numbers are there.
def fireNumbers (parsed : Nat) (numbers : List (Option Bytes × AttributeType)) : ParserM Code := do
  let found ← setAsn1Numbers parsed numbers
  if found then do
    fireParsed parsed
    pure .success
  else
    pure .failure

namespace Libgcrypt

variable (asn1 : Asn1)

def rsaNumbers (asn : RsaPrivateKey) : List (Option Bytes × AttributeType) :=
  [(asn.modulus, .modulus), (asn.publicExponent, .publicExponent), (asn.privateExponent, .privateExponent),
    (asn.prime1, .prime1), (asn.prime2, .prime2), (asn.coefficient, .coefficient)]

def parseDerPrivateKeyRsa (data : Bytes) : ParserM Code :=
  withParsed fun parsed =>
    match asn1.rsaPrivateKey data with
    | none     => pure .unrecognized
    | some asn => do
      parsingBlock parsed .derPrivateKeyRsa data
      startPrivateKey parsed .rsa
      match asn.version with
      | none         => pure .failure
      | some version =>
        -- We only support simple version
        if version ≠ 0 then pure .unrecognized else fireNumbers parsed (rsaNumbers asn)

def parseDerPrivateKeyDsa (data : Bytes) : ParserM Code :=
  withParsed fun parsed =>
    match asn1.dsaPrivateKey data with
    | none     => pure .unrecognized
    | some asn => do
      parsingBlock parsed .derPrivateKeyDsa data
      startPrivateKey parsed .dsa
      fireNumbers parsed [(asn.p, .prime), (asn.q, .subprime), (asn.g, .base), (asn.priv, .value)]

-- The block is the one of the item below.
def parseDerPrivateKeyDsaParts (keydata params : Bytes) : ParserM Code :=
  withParsed fun parsed =>
    match asn1.dsaParameters params, asn1.dsaPrivatePart keydata with
    | some asnParams, some key => do
      startPrivateKey parsed .dsa
      fireNumbers parsed [(asnParams.p, .prime), (asnParams.q, .subprime), (asnParams.g, .base), (key, .value)]
    | _,              _        => pure .unrecognized

-- The point is there when its bits are whole bytes.
def ecPoint (asn : EcPrivateKey) : Option Bytes :=
  asn.publicKey.bind fun pub => if pub.2 = 8 * pub.1.length then asn1.ecPoint pub.1 else none

def parseDerPrivateKeyEc (data : Bytes) : ParserM Code :=
  withParsed fun parsed =>
    match asn1.ecPrivateKey data with
    | none     => pure .unrecognized
    | some asn =>
      match asn.version with
      | none         => pure .unrecognized
      | some version =>
        -- We only support simple version
        if version ≠ 1 then pure .unrecognized
        else do
          parsingBlock parsed .derPrivateKeyEc data
          startPrivateKey parsed .ec
          fireNumbers parsed [(asn.parameters, .ecParams), (asn.privateKey, .value), (ecPoint asn1 asn, .ecPoint)]

end Libgcrypt

namespace Gnutls

variable (asn1 : Asn1) (gnutls : Gnutls)

def setNumbers (parsed : Nat) (numbers : List (Option Bytes × AttributeType)) : ParserM Code := do
  let found ← setAsn1Numbers parsed numbers
  pure (if found then .success else .failure)

def handlePrivateKeyRsa (parsed : Nat) (privkey : Privkey) (data : Bytes) : ParserM Code :=
  if privkey.pkAlgorithm ≠ .rsa then pure .unrecognized
  else do
    parsingBlock parsed .derPrivateKeyRsa data
    startPrivateKey parsed .rsa
    match privkey.rsaRaw with
    | none     => pure .failure
    | some raw => do
      setAttributes parsed [.data .modulus raw.m, .data .publicExponent raw.e, .data .privateExponent raw.d,
        .data .prime1 raw.p, .data .prime2 raw.q, .data .coefficient raw.u]
      pure .success

def handlePrivateKeyDsa (parsed : Nat) (privkey : Privkey) (data : Bytes) : ParserM Code :=
  if privkey.pkAlgorithm ≠ .dsa then pure .unrecognized
  else do
    parsingBlock parsed .derPrivateKeyDsa data
    startPrivateKey parsed .dsa
    match privkey.dsaRaw with
    | none     => pure .failure
    | some raw => do
      setAttributes parsed [.data .prime raw.p, .data .subprime raw.q, .data .base raw.g, .data .value raw.x]
      pure .success

def handlePrivateKeyEc (parsed : Nat) (privkey : Privkey) (data : Bytes) : ParserM Code :=
  if privkey.pkAlgorithm ≠ .ec then pure .unrecognized
  else
    match asn1.ecPrivateKey data with
    | none     => pure .unrecognized
    | some asn => do
      parsingBlock parsed .derPrivateKeyEc data
      startPrivateKey parsed .ec
      setNumbers parsed [(asn.parameters, .ecParams), (privkey.eccRaw.map (·.k), .value),
        (privkey.eccRaw.bind fun raw => asn1.ecPoint (4 :: (raw.x ++ raw.y)), .ecPoint)]

-- The functions for the three types of keys.
def parseDerPrivateKey (handle : Nat → Privkey → Bytes → ParserM Code) (data : Bytes) : ParserM Code :=
  withParsed fun parsed =>
    match if gnutls.privkeyInit then gnutls.importDer data none else none with
    | none         => pure .unrecognized
    | some privkey => do
      let res ← handle parsed privkey data
      if res = .success then do
        fireParsed parsed
        pure res
      else
        pure res

def parseDerPrivateKeyRsa (data : Bytes) : ParserM Code :=
  parseDerPrivateKey gnutls handlePrivateKeyRsa data

def parseDerPrivateKeyDsa (data : Bytes) : ParserM Code :=
  parseDerPrivateKey gnutls handlePrivateKeyDsa data

-- This cannot be supported by GnuTLS
def parseDerPrivateKeyDsaParts (_keydata _params : Bytes) : ParserM Code :=
  pure .unrecognized

def parseDerPrivateKeyEc (data : Bytes) : ParserM Code :=
  parseDerPrivateKey gnutls (handlePrivateKeyEc asn1) data

def handlePrivateKey (parsed : Nat) (privkey : Privkey) (data : Bytes) : ParserM Code :=
  match privkey.pkAlgorithm with
  | .rsa   => handlePrivateKeyRsa parsed privkey data
  | .dsa   => handlePrivateKeyDsa parsed privkey data
  | .ec    => handlePrivateKeyEc asn1 parsed privkey data
  | .other => pure .unrecognized

end Gnutls

-- The parser is built with one of the two.
inductive Backend
  | libgcrypt
  | gnutls
  deriving DecidableEq, Repr

variable (lib : Library)

namespace Backend

def parseDerPrivateKeyRsa (backend : Backend) (data : Bytes) : ParserM Code :=
  match backend with
  | .libgcrypt => Libgcrypt.parseDerPrivateKeyRsa lib.asn1 data
  | .gnutls    => Gnutls.parseDerPrivateKeyRsa lib.gnutls data

def parseDerPrivateKeyDsa (backend : Backend) (data : Bytes) : ParserM Code :=
  match backend with
  | .libgcrypt => Libgcrypt.parseDerPrivateKeyDsa lib.asn1 data
  | .gnutls    => Gnutls.parseDerPrivateKeyDsa lib.gnutls data

def parseDerPrivateKeyDsaParts (backend : Backend) (keydata params : Bytes) : ParserM Code :=
  match backend with
  | .libgcrypt => Libgcrypt.parseDerPrivateKeyDsaParts lib.asn1 keydata params
  | .gnutls    => Gnutls.parseDerPrivateKeyDsaParts keydata params

def parseDerPrivateKeyEc (backend : Backend) (data : Bytes) : ParserM Code :=
  match backend with
  | .libgcrypt => Libgcrypt.parseDerPrivateKeyEc lib.asn1 data
  | .gnutls    => Gnutls.parseDerPrivateKeyEc lib.asn1 lib.gnutls data

end Backend

end Parser
