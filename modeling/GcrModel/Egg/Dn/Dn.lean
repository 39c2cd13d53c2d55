import GcrModel.Egg.Asn1x.Create
import GcrModel.Egg.Asn1x.Decode

-- egg-oid.c: what is known about object identifiers. A quark is the string that it is for.
namespace Dn

open GLib

inductive OidFlag
  | printable
  | isChoice
  deriving DecidableEq, Repr

structure OidInfo where
  oid   : Bytes
  attr  : Option Bytes
  flags : List OidFlag
  deriving DecidableEq, Repr

def oidInfo : List OidInfo := [
  ⟨ascii "0.9.2342.19200300.100.1.25".toList, some (ascii "DC".toList), [.printable]⟩,
  ⟨ascii "0.9.2342.19200300.100.1.1".toList, some (ascii "UID".toList), [.printable, .isChoice]⟩,
  ⟨ascii "1.2.840.113549.1.9.1".toList, some (ascii "EMAIL".toList), [.printable]⟩,
  ⟨ascii "1.2.840.113549.1.9.7".toList, none, [.printable, .isChoice]⟩,
  ⟨ascii "1.2.840.113549.1.9.20".toList, none, [.printable]⟩,
  ⟨ascii "1.3.6.1.5.5.7.9.1".toList, some (ascii "dateOfBirth".toList), [.printable]⟩,
  ⟨ascii "1.3.6.1.5.5.7.9.2".toList, some (ascii "placeOfBirth".toList), [.printable]⟩,
  ⟨ascii "1.3.6.1.5.5.7.9.3".toList, some (ascii "gender".toList), [.printable]⟩,
  ⟨ascii "1.3.6.1.5.5.7.9.4".toList, some (ascii "countryOfCitizenship".toList), [.printable]⟩,
  ⟨ascii "1.3.6.1.5.5.7.9.5".toList, some (ascii "countryOfResidence".toList), [.printable]⟩,
  ⟨ascii "2.5.4.3".toList, some (ascii "CN".toList), [.printable, .isChoice]⟩,
  ⟨ascii "2.5.4.4".toList, some (ascii "surName".toList), [.printable, .isChoice]⟩,
  ⟨ascii "2.5.4.5".toList, some (ascii "serialNumber".toList), [.printable]⟩,
  ⟨ascii "2.5.4.6".toList, some (ascii "C".toList), [.printable]⟩,
  ⟨ascii "2.5.4.7".toList, some (ascii "L".toList), [.printable, .isChoice]⟩,
  ⟨ascii "2.5.4.8".toList, some (ascii "ST".toList), [.printable, .isChoice]⟩,
  ⟨ascii "2.5.4.9".toList, some (ascii "STREET".toList), [.printable, .isChoice]⟩,
  ⟨ascii "2.5.4.10".toList, some (ascii "O".toList), [.printable, .isChoice]⟩,
  ⟨ascii "2.5.4.11".toList, some (ascii "OU".toList), [.printable, .isChoice]⟩,
  ⟨ascii "2.5.4.12".toList, some (ascii "T".toList), [.printable, .isChoice]⟩,
  ⟨ascii "2.5.4.20".toList, some (ascii "telephoneNumber".toList), [.printable]⟩,
  ⟨ascii "2.5.4.42".toList, some (ascii "givenName".toList), [.printable, .isChoice]⟩,
  ⟨ascii "2.5.4.43".toList, some (ascii "initials".toList), [.printable, .isChoice]⟩,
  ⟨ascii "2.5.4.44".toList, some (ascii "generationQualifier".toList), [.printable, .isChoice]⟩,
  ⟨ascii "2.5.4.46".toList, some (ascii "dnQualifier".toList), [.printable]⟩,
  ⟨ascii "2.5.4.65".toList, some (ascii "pseudonym".toList), [.printable, .isChoice]⟩,
  ⟨ascii "1.2.643.100.1".toList, some (ascii "OGRN".toList), [.printable]⟩,
  ⟨ascii "1.2.643.100.3".toList, some (ascii "SNILS".toList), [.printable]⟩,
  ⟨ascii "1.2.643.100.5".toList, some (ascii "OGRNIP".toList), [.printable]⟩,
  ⟨ascii "1.2.643.3.131.1.1".toList, some (ascii "INN".toList), [.printable]⟩,
  ⟨ascii "1.2.840.113549.1.1.1".toList, some (ascii "rsaEncryption".toList), []⟩,
  ⟨ascii "1.2.840.113549.1.1.2".toList, some (ascii "md2WithRSAEncryption".toList), []⟩,
  ⟨ascii "1.2.840.113549.1.1.4".toList, some (ascii "md5WithRSAEncryption".toList), []⟩,
  ⟨ascii "1.2.840.113549.1.1.5".toList, some (ascii "sha1WithRSAEncryption".toList), []⟩,
  ⟨ascii "1.2.840.113549.1.1.7".toList, some (ascii "id-RSAES-OAEP".toList), []⟩,
  ⟨ascii "1.2.840.113549.1.1.8".toList, some (ascii "id-mgf1".toList), []⟩,
  ⟨ascii "1.2.840.113549.1.1.10".toList, some (ascii "rsassa-pss".toList), []⟩,
  ⟨ascii "1.2.840.113549.1.1.11".toList, some (ascii "sha256WithRSAEncryption".toList), []⟩,
  ⟨ascii "1.2.840.113549.1.1.12".toList, some (ascii "sha384WithRSAEncryption".toList), []⟩,
  ⟨ascii "1.2.840.113549.1.1.13".toList, some (ascii "sha512WithRSAEncryption".toList), []⟩,
  ⟨ascii "1.2.840.113549.1.1.14".toList, some (ascii "sha224WithRSAEncryption".toList), []⟩,
  ⟨ascii "1.2.840.10040.4.1".toList, some (ascii "dsa".toList), []⟩,
  ⟨ascii "1.2.840.10040.4.3".toList, some (ascii "sha1WithDSA".toList), []⟩,
  ⟨ascii "1.2.840.10045.2.1".toList, some (ascii "ec".toList), []⟩,
  ⟨ascii "1.2.840.10045.4.1".toList, some (ascii "sha1WithECDSA".toList), []⟩,
  ⟨ascii "1.2.840.10045.4.3.1".toList, some (ascii "sha224WithECDSA".toList), []⟩,
  ⟨ascii "1.2.840.10045.4.3.2".toList, some (ascii "sha256WithECDSA".toList), []⟩,
  ⟨ascii "1.2.840.10045.4.3.3".toList, some (ascii "sha384WithECDSA".toList), []⟩,
  ⟨ascii "1.2.840.10045.4.3.4".toList, some (ascii "sha512WithECDSA".toList), []⟩,
  ⟨ascii "1.2.643.2.2.3".toList, some (ascii "gostR3411-94-with-gostR3410-2001".toList), []⟩,
  ⟨ascii "1.2.643.2.2.19".toList, some (ascii "gostr3410-2001".toList), []⟩,
  ⟨ascii "1.2.643.7.1.1.1.1".toList, some (ascii "gost-3410-2012-256".toList), []⟩,
  ⟨ascii "1.2.643.7.1.1.1.2".toList, some (ascii "gost-3410-2012-512".toList), []⟩,
  ⟨ascii "1.2.643.7.1.1.3.2".toList, some (ascii "signwithdigest-gost-3410-2012-256".toList), []⟩,
  ⟨ascii "1.2.643.7.1.1.3.3".toList, some (ascii "signwithdigest-gost-3410-2012-512".toList), []⟩,
  ⟨ascii "1.3.6.1.5.5.7.3.1".toList, none, []⟩,
  ⟨ascii "1.3.6.1.5.5.7.3.2".toList, none, []⟩,
  ⟨ascii "1.3.6.1.5.5.7.3.3".toList, none, []⟩,
  ⟨ascii "1.3.6.1.5.5.7.3.4".toList, none, []⟩,
  ⟨ascii "1.3.6.1.5.5.7.3.8".toList, none, []⟩,
  ⟨ascii "1.3.6.1.5.5.7.1.1".toList, some (ascii "authorityInfoAccess".toList), []⟩,
  ⟨ascii "2.5.29.9".toList, some (ascii "subjectDirectoryAttributes".toList), []⟩,
  ⟨ascii "2.5.29.14".toList, some (ascii "subjectKeyIdentifier".toList), []⟩,
  ⟨ascii "2.5.29.15".toList, some (ascii "keyUsage".toList), []⟩,
  ⟨ascii "2.5.29.16".toList, some (ascii "privateKeyUsagePeriod".toList), []⟩,
  ⟨ascii "2.5.29.17".toList, some (ascii "subjectAltName".toList), []⟩,
  ⟨ascii "2.5.29.18".toList, some (ascii "issuerAltName".toList), []⟩,
  ⟨ascii "2.5.29.19".toList, some (ascii "basicConstraints".toList), []⟩,
  ⟨ascii "2.5.29.20".toList, some (ascii "cRLNumber".toList), []⟩,
  ⟨ascii "2.5.29.21".toList, some (ascii "reasonCode".toList), []⟩,
  ⟨ascii "2.5.29.23".toList, some (ascii "instructionCode".toList), []⟩,
  ⟨ascii "2.5.29.24".toList, some (ascii "invalidityDate".toList), []⟩,
  ⟨ascii "2.5.29.27".toList, some (ascii "deltaCRLIndicator".toList), []⟩,
  ⟨ascii "2.5.29.28".toList, some (ascii "issuingDistributionPoint".toList), []⟩,
  ⟨ascii "2.5.29.29".toList, some (ascii "certificateIssuer".toList), []⟩,
  ⟨ascii "2.5.29.30".toList, some (ascii "nameConstraints".toList), []⟩,
  ⟨ascii "2.5.29.31".toList, some (ascii "cRLDistributionPoints".toList), []⟩,
  ⟨ascii "2.5.29.32".toList, some (ascii "certificatePolicies".toList), []⟩,
  ⟨ascii "2.5.29.33".toList, some (ascii "policyMappings".toList), []⟩,
  ⟨ascii "2.5.29.34".toList, some (ascii "policyConstraints".toList), []⟩,
  ⟨ascii "2.5.29.35".toList, some (ascii "authorityKeyIdentifier".toList), []⟩,
  ⟨ascii "2.5.29.37".toList, some (ascii "extendedKeyUsage".toList), []⟩,
  ⟨ascii "2.23.140.1.1".toList, none, []⟩,
  ⟨ascii "1.3.6.1.5.5.7.2.1".toList, none, []⟩,
  ⟨ascii "1.3.6.1.5.5.7.48.1".toList, none, []⟩,
  ⟨ascii "1.3.6.1.5.5.7.48.2".toList, none, []⟩]

def findOidInfo (oid : Bytes) : Option OidInfo :=
  oidInfo.find? (·.oid = oid)

-- The short name, which may be `NULL`.
def eggOidGetName (oid : Bytes) : Option Bytes :=
  match findOidInfo oid with
  | none      => some oid
  | some info => info.attr

def eggOidGetFlags (oid : Bytes) : List OidFlag :=
  match findOidInfo oid with
  | none      => []
  | some info => info.flags

theorem nul_notMem_attr : ∀ info ∈ oidInfo, ∀ name ∈ info.attr, 0 ∉ name := by
  decide

theorem nul_notMem_name {oid name : Bytes} (hoid : 0 ∉ oid) (h : eggOidGetName oid = some name) : 0 ∉ name := by
  rw [eggOidGetName] at h
  split at h
  case h_1 =>
    cases h
    exact hoid
  case h_2 info hinfo => exact nul_notMem_attr info (List.mem_of_find?_eq_some hinfo) name h

end Dn

-- egg-dn.c: the names of certificates. `none` is a `gint` that gets too large, or an assertion that fails.
namespace Dn

open GLib Asn1x

def identifier (s : String) : CString :=
  .of (ascii s.toList)

-- The definitions in pkix.asn.h that names are made of.
def pkixAsn1Tab : List EggAsn1xDef := [
  ⟨some (identifier "PKIX1"), .definitions, [.implicit, .down], none⟩,
  ⟨some (identifier "AttributeType"), .objectId, [.right], none⟩,
  ⟨some (identifier "AttributeValue"), .any, [.definedBy, .down, .right], none⟩,
  ⟨some (identifier "type"), .constant, [], none⟩,
  ⟨some (identifier "AttributeTypeAndValue"), .sequence, [.down, .right], none⟩,
  ⟨some (identifier "type"), .identifier, [.right], some (identifier "AttributeType")⟩,
  ⟨some (identifier "value"), .identifier, [], some (identifier "AttributeValue")⟩,
  ⟨some (identifier "Name"), .choice, [.down, .right], none⟩,
  ⟨some (identifier "rdnSequence"), .identifier, [], some (identifier "RDNSequence")⟩,
  ⟨some (identifier "RDNSequence"), .sequenceOf, [.down, .right], none⟩,
  ⟨none, .identifier, [], some (identifier "RelativeDistinguishedName")⟩,
  ⟨some (identifier "DistinguishedName"), .identifier, [.right], some (identifier "RDNSequence")⟩,
  ⟨some (identifier "RelativeDistinguishedName"), .setOf, [.size, .down, .right], none⟩,
  ⟨some (identifier "MAX"), .size, [.minMax, .right], some (identifier "1")⟩,
  ⟨none, .identifier, [], some (identifier "AttributeTypeAndValue")⟩]

def follow (node : GNode) : List Nat → Option GNode
  | []        => some node
  | k :: path => node.children[k]?.bind (follow · path)

-- `egg_asn1x_node`: the result is `NULL`, or a node.
def nodeAt (asn : GNode) (steps : List Step) : Option (Option GNode) :=
  (eggAsn1xNode asn steps).map (·.bind (follow asn))

-- How values are read: `dn_print_oid_value_parsed`, and the bytes that an element was decoded from.
structure ValueReader where
  parsed  : Bytes → List OidFlag → GNode → Option Bytes
  decoded : Atlv → Option GBytes

def eggAsn1xGetElementRaw (r : ValueReader) (node : GNode) : Option GBytes :=
  let tlv :=
    if (anodeCalcExplicitForFlags node (anodeDefFlags node)).1 then node.data.parsed.bind (·.child.head?)
    else node.data.parsed
  tlv.bind r.decoded

def hexc : Bytes :=
  ascii "0123456789ABCDEF".toList

def dnPrintHexValue (val : Option GBytes) : Bytes :=
  35 :: ((val.map (·.data)).getD []).flatMap fun (c : UInt8) =>
    [hexc.getD (c >>> 4 &&& 0xf).toNat 0, hexc.getD (c &&& 0xf).toNat 0]

def dnPrintOidValue (r : ValueReader) (oid : Bytes) (flags : List OidFlag) (val : GNode) : Bytes :=
  match if flags.contains .printable then r.parsed oid flags val else none with
  | some value => value
  | none       => dnPrintHexValue (eggAsn1xGetElementRaw r val)

-- `g_strconcat` of a first string that is `NULL` is `NULL`.
def dnParseRdn (r : ValueReader) (asn : GNode) : Option (Option Bytes) := do
  match ← nodeAt asn [.name (identifier "type")] with
  | none      => some none
  | some node =>
    match ← eggAsn1xGetOidAsString node with
    | none     => some none
    | some oid =>
      match ← nodeAt asn [.name (identifier "value")] with
      | none       => some none
      | some value =>
        let flags := eggOidGetFlags oid
        let name := if flags.contains .printable then eggOidGetName oid else some oid
        some (name.map (· ++ 61 :: dnPrintOidValue r oid flags value))

-- What the loop over the pairs does at a node, which may be `NULL`.
inductive Turn (ρ σ : Type)
  | last
  | leave (result : ρ)
  | next (state : σ)

-- `for (j = 1; TRUE; ++j)`, where a counter has `limit` values from 1 on: the state, and whether the end of the name is
-- reached.
def pairLoop {ρ σ : Type} (body : Nat → σ → Option (Turn ρ σ)) : Nat → Nat → σ → Option (Except ρ (σ × Bool))
  | 0,         _, _     => none
  | limit + 1, j, state => do
    match ← body j state with
    | .last         => some (.ok (state, j = 1))
    | .leave result => some (.error result)
    | .next state   => pairLoop body limit (j + 1) state

-- `for (i = 1; !done; ++i)`: the state, and the counter.
def rdnLoop {ρ σ : Type} (body : Nat → Nat → σ → Option (Turn ρ σ)) (counters : Nat) :
    Nat → Nat → σ → Option (Except ρ (σ × Nat))
  | 0,         _, _     => none
  | limit + 1, i, state => do
    match ← pairLoop (body i) counters 1 state with
    | .error result      => some (.error result)
    | .ok (state, done) =>
      if limit = 0 then none
      else if done then some (.ok (state, i + 1))
      else rdnLoop body counters limit (i + 1) state

def maxGint : Nat := 2147483647

def maxGuint : Nat := 4294967295

def readTurn (r : ValueReader) (asn : GNode) (i j : Nat) (result : Bytes) : Option (Turn Unit Bytes) := do
  match ← nodeAt asn [.index i, .index j] with
  | none      => some .last
  | some node =>
    match ← dnParseRdn r node with
    | none     => some (.leave ())
    | some rdn =>
      let separator := if 1 < j then ascii "+".toList else if 1 < i then ascii ", ".toList else []
      some (.next (result ++ separator ++ rdn))

def eggDnRead (r : ValueReader) (asn : GNode) : Option (Option Bytes) :=
  (rdnLoop (readTurn r asn) maxGint maxGint 1 []).map fun
    | .error _        => none
    | .ok (result, _) => if result = [] then none else some result

def partTurn (asn : GNode) (wanted : Bytes) (i j : Nat) (_ : Unit) : Option (Turn (Option (Bytes × GNode)) Unit) := do
  match ← nodeAt asn [.index i, .index j, .name (identifier "type")] with
  | none      => some .last
  | some node =>
    match ← eggAsn1xGetOidAsString node with
    | none     => some (.leave none)
    | some oid =>
      if asciiStrcasecmp (some oid) wanted ≠ 0 ∧ asciiStrcasecmp (eggOidGetName oid) wanted ≠ 0 then some (.next ())
      else
        match ← nodeAt asn [.index i, .index j, .name (identifier "value")] with
        | none       => some (.leave none)
        | some value => some (.leave (some (oid, value)))

-- The pair whose value is the part of the name.
def dnFindPart (asn : GNode) (wanted : CString) : Option (Option (Bytes × GNode)) :=
  (rdnLoop (partTurn asn wanted.bytes) maxGint maxGint 1 ()).map fun
    | .error found => found
    | .ok _        => none

def eggDnReadPart (r : ValueReader) (asn : GNode) (wanted : CString) : Option (Option Bytes) :=
  (dnFindPart asn wanted).map (·.map fun (oid, value) => dnPrintOidValue r oid (eggOidGetFlags oid) value)

-- What the callback is called with.
structure Call where
  index : Nat
  oid   : Bytes
  value : GNode

-- The result is `FALSE` where the loop is left.
def parseTurn (asn : GNode) (i j : Nat) (calls : List Call) : Option (Turn (List Call) (List Call)) := do
  match ← nodeAt asn [.index (toGint i), .index (toGint j), .name (identifier "type")] with
  | none      => some .last
  | some node =>
    match ← eggAsn1xGetOidAsString node with
    | none     => some (.leave calls)
    | some oid =>
      match ← nodeAt asn [.index (toGint i), .index (toGint j), .name (identifier "value")] with
      | none       => some .last
      | some value => some (.next (calls ++ [⟨i, oid, value⟩]))

def eggDnParse (asn : GNode) : Option (Bool × List Call) :=
  (rdnLoop (parseTurn asn) maxGuint maxGuint 1 []).map fun
    | .error calls     => (false, calls)
    | .ok (calls, i) => (1 < i, calls)

-- The types that have the pairs of a name in them.
inductive NameType
  | name
  | rdnSequence

def NameType.identifier : NameType → CString
  | name        => Dn.identifier "Name"
  | rdnSequence => Dn.identifier "RDNSequence"

def NameType.steps : NameType → List Step
  | name        => [.name (Dn.identifier "rdnSequence")]
  | rdnSequence => []

-- The node that the functions are for, where the bytes can be decoded.
def decodeName (now : Nat) (type : NameType) (data : GBytes) : Option (Option GNode) := do
  let asn ← eggAsn1xCreate pkixAsn1Tab type.identifier
  let (ok, asn) ← eggAsn1xDecode now asn data
  if ok then nodeAt asn type.steps else some none

end Dn
