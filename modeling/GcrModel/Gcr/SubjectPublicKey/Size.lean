import GcrModel.Egg.Asn1x.Build
import GcrModel.Egg.Dn.Dn
import GcrModel.Gck.Attributes.Attributes

-- gcr-subject-public-key.c: how a public key is built from attributes, and the sizes of keys. `none` is an assertion that
-- fails, or what the C language leaves undefined.
namespace SubjectPublicKey

open GLib Gck Asn1x
open Gck.Attributes (find findUlong findData)
open Dn (identifier nodeAt)

-- The definitions in pk.asn.h that public keys are made of.
def pkAsn1Tab : List EggAsn1xDef := [
  ⟨some (identifier "PK"), .definitions, [.explicit, .down], none⟩,
  ⟨some (identifier "RSAPublicKey"), .sequence, [.down, .right], none⟩,
  ⟨some (identifier "modulus"), .integer, [.right], none⟩,
  ⟨some (identifier "publicExponent"), .integer, [], none⟩,
  ⟨some (identifier "RSAParameters"), .null, [.right], none⟩,
  ⟨some (identifier "DSAPublicPart"), .integer, [.right], none⟩,
  ⟨some (identifier "DSAParameters"), .sequence, [.down, .right], none⟩,
  ⟨some (identifier "p"), .integer, [.right], none⟩,
  ⟨some (identifier "q"), .integer, [.right], none⟩,
  ⟨some (identifier "g"), .integer, [], none⟩,
  ⟨some (identifier "ECPoint"), .octetString, [.right], none⟩,
  ⟨some (identifier "ECParameters"), .choice, [.down, .right], none⟩,
  ⟨some (identifier "namedCurve"), .objectId, [], none⟩,
  ⟨some (identifier "GostR3410-2001-PublicKeyParameters"), .sequence, [.down, .right], none⟩,
  ⟨some (identifier "publicKeyParamSet"), .objectId, [.right], none⟩,
  ⟨some (identifier "digestParamSet"), .objectId, [.right], none⟩,
  ⟨some (identifier "encryptionParamSet"), .objectId, [.option], none⟩,
  ⟨some (identifier "GostR3410-2012-PublicKeyParameters"), .sequence, [.down], none⟩,
  ⟨some (identifier "publicKeyParamSet"), .objectId, [.right], none⟩,
  ⟨some (identifier "digestParamSet"), .objectId, [.option], none⟩]

-- Those in pkix.asn.h.
def pkixAsn1Tab : List EggAsn1xDef := [
  ⟨some (identifier "PKIX1"), .definitions, [.implicit, .down], none⟩,
  ⟨some (identifier "SubjectPublicKeyInfo"), .sequence, [.down, .right], none⟩,
  ⟨some (identifier "algorithm"), .identifier, [.right], some (identifier "AlgorithmIdentifier")⟩,
  ⟨some (identifier "subjectPublicKey"), .bitString, [], none⟩,
  ⟨some (identifier "AlgorithmIdentifier"), .sequence, [.down], none⟩,
  ⟨some (identifier "algorithm"), .objectId, [.right], none⟩,
  ⟨some (identifier "parameters"), .any, [.option, .definedBy, .down], none⟩,
  ⟨some (identifier "algorithm"), .constant, [], none⟩]

def ckaModulusBits : Nat := 0x121
def ckaPrimeBits : Nat := 0x133

def oidPkix1Rsa : CString := identifier "1.2.840.113549.1.1.1"
def oidPkix1Dsa : CString := identifier "1.2.840.10040.4.1"
def oidPkix1Ec : CString := identifier "1.2.840.10045.2.1"
def oidGostr34102001 : CString := identifier "1.2.643.2.2.19"
def oidGostr34102012256 : CString := identifier "1.2.643.7.1.1.1.1"
def oidGostr34102012512 : CString := identifier "1.2.643.7.1.1.1.2"

-- The public part of a DSA key, which libgcrypt or GnuTLS calculates from the private one, and the public key in a
-- certificate.
structure Library where
  dsaPublic   : Bytes → Bytes → Bytes → Bytes → Option Bytes
  certificate : Attributes → Option GNode

-- The value of an attribute in memory.
def usg (value : Bytes) : GBytes :=
  ⟨value, []⟩

def takeUsg (asn : GNode) (name : String) (value : Bytes) : Option GNode :=
  modifyAt asn [.name (identifier name)] fun node => some (eggAsn1xTakeIntegerAsUsg node (usg value))

-- The last steps are the same for all types of keys.
def setKey (infoAsn : GNode) (key : GBytes) (oid : CString) (paramsAsn : GNode) : Option GNode := do
  let infoAsn ← modifyAt infoAsn [.name (identifier "subjectPublicKey")] fun node =>
    some (eggAsn1xSetBitsAsRaw node key (key.data.length * 8 % 2 ^ 32))
  let infoAsn ← modifyAt infoAsn [.name (identifier "algorithm"), .name (identifier "algorithm")] fun node =>
    (eggAsn1xSetOidAsString node oid).map (·.2)
  modifyAt infoAsn [.name (identifier "algorithm"), .name (identifier "parameters")] fun node =>
    eggAsn1xSetAnyFrom node paramsAsn

def rsaSubjectPublicKeyFromAttributes (now : Nat) (attrs : Attributes) (infoAsn : GNode) : Option (Option GNode) :=
  match findData attrs ckaModulus, findData attrs ckaPublicExponent with
  | some modulus, some exponent => do
    let keyAsn ← eggAsn1xCreate pkAsn1Tab (identifier "RSAPublicKey")
    let paramsAsn ← eggAsn1xCreate pkAsn1Tab (identifier "RSAParameters")
    let keyAsn ← takeUsg keyAsn "modulus" modulus
    let keyAsn ← takeUsg keyAsn "publicExponent" exponent
    let (_, key) ← eggAsn1xEncode now keyAsn
    some (some (← setKey infoAsn (← key) oidPkix1Rsa (eggAsn1xSetNull paramsAsn)))
  | _, _ => some none

def dsaSubjectPublicKeyFromAttributes (lib : Library) (now : Nat) (attrs : Attributes) (klass : Nat) (infoAsn : GNode) :
    Option (Option GNode) :=
  match findData attrs ckaPrime, findData attrs ckaSubprime, findData attrs ckaBase, findData attrs ckaValue with
  | some p, some q, some g, some value => do
    let keyAsn ← eggAsn1xCreate pkAsn1Tab (identifier "DSAPublicPart")
    let paramsAsn ← eggAsn1xCreate pkAsn1Tab (identifier "DSAParameters")
    let paramsAsn ← takeUsg paramsAsn "p" p
    let paramsAsn ← takeUsg paramsAsn "q" q
    let paramsAsn ← takeUsg paramsAsn "g" g
    let keyAsn ←
      if klass = ckoPrivateKey then
        (lib.dsaPublic p q g value).bind fun y => eggAsn1xTakeIntegerAsRaw keyAsn (usg y)
      else some (eggAsn1xTakeIntegerAsUsg keyAsn (usg value))
    let (_, key) ← eggAsn1xEncode now keyAsn
    some (some (← setKey infoAsn (← key) oidPkix1Dsa paramsAsn))
  | _, _, _, _ => some none

def ecSubjectPublicKeyFromAttributes (now : Nat) (attrs : Attributes) (infoAsn : GNode) : Option (Option GNode) :=
  match findData attrs ckaEcParams, findData attrs ckaEcPoint with
  | some ecParams, some ecPoint => do
    match ← eggAsn1xCreateAndDecode now pkAsn1Tab (identifier "ECParameters") (usg ecParams) with
    | none           => some none
    | some paramsAsn =>
      match ← eggAsn1xCreateAndDecode now pkAsn1Tab (identifier "ECPoint") (usg ecPoint) with
      | none          => some none
      | some pointAsn =>
        match ← eggAsn1xGetStringAsBytes pointAsn with
        | none          => some none
        | some keyBytes => some (some (← setKey infoAsn ⟨keyBytes, [0]⟩ oidPkix1Ec paramsAsn))
  | _, _ => some none

-- `_gcr_subject_public_key_for_attributes`: the result is `NULL` where there is no key.
def forAttributes (lib : Library) (now : Nat) (attrs : Attributes) : Option (Option GNode) :=
  match findUlong attrs ckaClass with
  | none       => some none
  | some klass =>
    if klass = ckoCertificate then some (lib.certificate attrs)
    else if klass = ckoPublicKey ∨ klass = ckoPrivateKey then
      match findUlong attrs ckaKeyType with
      | none         => some none
      | some keyType => do
        let asn ← eggAsn1xCreate pkixAsn1Tab (identifier "SubjectPublicKeyInfo")
        if keyType = ckkRsa then rsaSubjectPublicKeyFromAttributes now attrs asn
        else if keyType = ckkDsa then dsaSubjectPublicKeyFromAttributes lib now attrs klass asn
        else if keyType = ckkEc then ecSubjectPublicKeyFromAttributes now attrs asn
        else some none
    else some none

-- The bits of so many bytes without the complement, in a `guint`.
def keySize (length : Nat) : Nat :=
  length / 2 * 2 * 8 % 2 ^ 32

-- `g_return_val_if_fail (.., 0)` for an integer that is not there.
def integerSize (asn : GNode) (name : String) : Option Nat :=
  (nodeAt asn [.name (identifier name)]).map fun node =>
    match node.bind eggAsn1xGetValueRaw with
    | none         => 0
    | some content => keySize content.data.length

def calculateRsaKeySize (now : Nat) (data : GBytes) : Option Nat := do
  match ← eggAsn1xCreateAndDecode now pkAsn1Tab (identifier "RSAPublicKey") data with
  | none     => some 0
  | some asn => integerSize asn "modulus"

-- The length of an attribute that is invalid is the greatest one.
def attributeLength (attr : Attribute) : Nat :=
  attr.value.elim gckInvalid List.length

def attributesRsaKeySize (attrs : Attributes) : Nat :=
  match find attrs ckaModulus with
  | some attr => keySize (attributeLength attr)
  | none      => ((findUlong attrs ckaModulusBits).getD 0) % 2 ^ 32

def calculateDsaParamsSize (now : Nat) (params : GNode) : Option Nat := do
  match ← eggAsn1xGetAnyAs now params pkAsn1Tab (identifier "DSAParameters") with
  | none     => some 0
  | some asn => integerSize asn "p"

def attributesDsaKeySize (attrs : Attributes) : Nat :=
  match find attrs ckaPrime with
  | some attr => keySize (attributeLength attr)
  | none      => ((findUlong attrs ckaPrimeBits).getD 0) % 2 ^ 32

-- The sizes of the curves, by their object identifiers.
def namedCurves : List (String × Nat) := [
  ("1.2.840.10045.3.1.1", 192),
  ("1.3.132.0.1", 163),
  ("1.3.132.0.15", 163),
  ("1.3.132.0.33", 224),
  ("1.3.132.0.26", 233),
  ("1.3.132.0.27", 233),
  ("1.2.840.10045.3.1.7", 256),
  ("1.3.132.0.16", 283),
  ("1.3.132.0.17", 283),
  ("1.3.132.0.34", 384),
  ("1.3.132.0.36", 409),
  ("1.3.132.0.37", 409),
  ("1.3.132.0.35", 521),
  ("1.3.132.0.38", 571),
  ("1.3.132.0.39", 571)]

def gostCurves : List (String × Nat) := [
  ("1.2.643.2.2.35.0", 256),
  ("1.2.643.2.2.35.1", 256),
  ("1.2.643.2.2.35.2", 256),
  ("1.2.643.2.2.35.3", 256),
  ("1.2.643.2.2.36.0", 256),
  ("1.2.643.2.2.36.1", 256),
  ("1.2.643.7.1.2.1.1.1", 256),
  ("1.2.643.7.1.2.1.1.2", 256),
  ("1.2.643.7.1.2.1.1.3", 256),
  ("1.2.643.7.1.2.1.1.4", 256),
  ("1.2.643.7.1.2.1.2.0", 512),
  ("1.2.643.7.1.2.1.2.1", 512),
  ("1.2.643.7.1.2.1.2.2", 512),
  ("1.2.643.7.1.2.1.2.3", 512)]

-- `egg_asn1x_get_oid_as_quark` of a node that may be `NULL`
def oidAt (asn : GNode) (steps : List Step) : Option (Option Bytes) := do
  match ← nodeAt asn steps with
  | none      => some none
  | some node => eggAsn1xGetOidAsString node

def curveSize (curves : List (String × Nat)) (oid : Option Bytes) : Nat :=
  ((curves.find? fun curve => some (ascii curve.1.toList) = oid).map (·.2)).getD 0

def namedCurveSize (params : GNode) : Option Nat :=
  (oidAt params [.name (identifier "namedCurve")]).map (curveSize namedCurves)

def calculateEcParamsSize (now : Nat) (params : GNode) : Option Nat := do
  match ← eggAsn1xGetAnyAs now params pkAsn1Tab (identifier "ECParameters") with
  | none     => some 0
  | some asn => namedCurveSize asn

def gostCurveSize (params : GNode) : Option Nat :=
  (oidAt params [.name (identifier "publicKeyParamSet")]).map (curveSize gostCurves)

def calculateGostParamsSize (now : Nat) (params : GNode) (gost2012 : Bool) : Option Nat := do
  let type := if gost2012 then "GostR3410-2012-PublicKeyParameters" else "GostR3410-2001-PublicKeyParameters"
  match ← eggAsn1xGetAnyAs now params pkAsn1Tab (identifier type) with
  | none     => some 0
  | some asn => gostCurveSize asn

def attributesEcParamsSize (now : Nat) (attrs : Attributes) : Option Nat :=
  match findData attrs ckaEcParams with
  | none       => some 0
  | some value => do
    match ← eggAsn1xCreateAndDecode now pkAsn1Tab (identifier "ECParameters") (usg value) with
    | none     => some 0
    | some asn => namedCurveSize asn

-- A function of the parameters, which must be there.
def paramsSize (asn : GNode) (size : GNode → Option Nat) : Option Nat := do
  match ← nodeAt asn [.name (identifier "algorithm"), .name (identifier "parameters")] with
  | none        => some 0
  | some params => size params

-- `_gcr_subject_public_key_calculate_size`
def calculateSize (now : Nat) (subjectPublicKey : GNode) : Option Nat := do
  match ← oidAt subjectPublicKey [.name (identifier "algorithm"), .name (identifier "algorithm")] with
  | none     => some 0
  | some oid =>
    if oid = oidPkix1Rsa.bytes then
      match (← nodeAt subjectPublicKey [.name (identifier "subjectPublicKey")]).bind eggAsn1xGetBitsAsRaw with
      | none          => some 0
      | some (key, _) => calculateRsaKeySize now key
    else if oid = oidPkix1Dsa.bytes then paramsSize subjectPublicKey (calculateDsaParamsSize now)
    else if oid = oidPkix1Ec.bytes then paramsSize subjectPublicKey (calculateEcParamsSize now)
    else if oid = oidGostr34102001.bytes then paramsSize subjectPublicKey (calculateGostParamsSize now · false)
    else if oid = oidGostr34102012256.bytes ∨ oid = oidGostr34102012512.bytes then
      paramsSize subjectPublicKey (calculateGostParamsSize now · true)
    else some 0

-- `_gcr_subject_public_key_attributes_size`
def attributesSize (now : Nat) (attrs : Attributes) : Option Nat :=
  match findUlong attrs ckaKeyType with
  | none         => some 0
  | some keyType =>
    if keyType = ckkRsa then some (attributesRsaKeySize attrs)
    else if keyType = ckkDsa then some (attributesDsaKeySize attrs)
    else if keyType = ckkEc then attributesEcParamsSize now attrs
    else some 0

end SubjectPublicKey
