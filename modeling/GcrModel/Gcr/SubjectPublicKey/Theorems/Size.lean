import GcrModel.Egg.Asn1x.Theorems.Plain
import GcrModel.Gcr.SubjectPublicKey.Size

-- Whether the size of a key is the same for its attributes and for what is built from them.
namespace SubjectPublicKey

open GLib Gck Asn1x
open Gck.Attributes (find findUlong findData)
open Dn (identifier nodeAt)

def modulusAnode : Anode where
  adef := ⟨some (identifier "modulus"), .integer, [.right], none⟩

def exponentAnode : Anode where
  adef := ⟨some (identifier "publicExponent"), .integer, [], none⟩

def rsaKeyAnode : Anode where
  adef := ⟨some (identifier "RSAPublicKey"), .sequence, [.down, .right], none⟩

def rsaFields (modulus exponent : Bytes) : List (Anode × Bytes) :=
  [(modulusAnode, modulus), (exponentAnode, exponent)]

def pAnode : Anode where
  adef := ⟨some (identifier "p"), .integer, [.right], none⟩

def qAnode : Anode where
  adef := ⟨some (identifier "q"), .integer, [.right], none⟩

def gAnode : Anode where
  adef := ⟨some (identifier "g"), .integer, [], none⟩

def dsaParametersAnode : Anode where
  adef := ⟨some (identifier "DSAParameters"), .sequence, [.down, .right], none⟩

def dsaFields (p q g : Bytes) : List (Anode × Bytes) :=
  [(pAnode, p), (qAnode, q), (gAnode, g)]

def namedCurveAnode : Anode where
  adef := ⟨some (identifier "namedCurve"), .objectId, [], none⟩

def ecParametersAnode : Anode where
  adef := ⟨some (identifier "ECParameters"), .choice, [.down, .right], none⟩

def nullAnode : Anode where
  adef := ⟨some (identifier "RSAParameters"), .null, [.right], none⟩

def infoAnode : Anode where
  adef := ⟨some (identifier "SubjectPublicKeyInfo"), .sequence, [.down, .right], none⟩

def algorithmAnode : Anode where
  adef := ⟨some (identifier "algorithm"), .identifier, [.right], some (identifier "AlgorithmIdentifier")⟩
  join := some ⟨some (identifier "AlgorithmIdentifier"), .sequence, [.down], none⟩

def oidAnode : Anode where
  adef := ⟨some (identifier "algorithm"), .objectId, [.right], none⟩

def parametersAnode : Anode where
  adef := ⟨some (identifier "parameters"), .any, [.option, .definedBy, .down], none⟩
  opts := [⟨some (identifier "algorithm"), .constant, [], none⟩]

def keyAnode : Anode where
  adef := ⟨some (identifier "subjectPublicKey"), .bitString, [], none⟩

theorem create_rsaKey (modulus exponent : Bytes) : eggAsn1xCreate pkAsn1Tab (identifier "RSAPublicKey") =
    some (.mk rsaKeyAnode ((rsaFields modulus exponent).map blankNode)) :=
  rfl

theorem create_dsaParameters (p q g : Bytes) : eggAsn1xCreate pkAsn1Tab (identifier "DSAParameters") =
    some (.mk dsaParametersAnode ((dsaFields p q g).map blankNode)) :=
  rfl

theorem create_rsaParameters : eggAsn1xCreate pkAsn1Tab (identifier "RSAParameters") = some (.mk nullAnode []) :=
  rfl

theorem create_ecParameters : eggAsn1xCreate pkAsn1Tab (identifier "ECParameters") =
    some (.mk ecParametersAnode [.mk namedCurveAnode []]) :=
  rfl

theorem create_info : eggAsn1xCreate pkixAsn1Tab (identifier "SubjectPublicKeyInfo") =
    some (.mk infoAnode [.mk algorithmAnode [.mk oidAnode [], .mk parametersAnode []], .mk keyAnode []]) :=
  rfl

theorem rsaFields_integer (modulus exponent : Bytes) : ∀ field ∈ rsaFields modulus exponent, IntegerField field.1 :=
  List.forall_mem_cons.mpr ⟨⟨rfl, rfl, rfl⟩, List.forall_mem_singleton.mpr ⟨rfl, rfl, rfl⟩⟩

theorem dsaFields_integer (p q g : Bytes) : ∀ field ∈ dsaFields p q g, IntegerField field.1 :=
  List.forall_mem_cons.mpr ⟨⟨rfl, rfl, rfl⟩,
    List.forall_mem_cons.mpr ⟨⟨rfl, rfl, rfl⟩, List.forall_mem_singleton.mpr ⟨rfl, rfl, rfl⟩⟩⟩

theorem takeUsg_rsa (modulus exponent : Bytes) :
    ((takeUsg (.mk rsaKeyAnode ((rsaFields modulus exponent).map blankNode)) "modulus" modulus).bind
      (takeUsg · "publicExponent" exponent)) = some (.mk rsaKeyAnode ((rsaFields modulus exponent).map usgNode)) :=
  rfl

theorem takeUsg_dsa (p q g : Bytes) :
    (((takeUsg (.mk dsaParametersAnode ((dsaFields p q g).map blankNode)) "p" p).bind (takeUsg · "q" q)).bind
      (takeUsg · "g" g)) = some (.mk dsaParametersAnode ((dsaFields p q g).map usgNode)) :=
  rfl

def infoTemplate : GNode :=
  .mk infoAnode [.mk algorithmAnode [.mk oidAnode [], .mk parametersAnode []], .mk keyAnode []]

-- The nodes of a key with the bytes of its object identifier, its parameters and its bits.
def infoNode (content : GBytes) (params : Atlv) (key : GBytes) : GNode :=
  .mk infoAnode [.mk algorithmAnode
    [.mk { oidAnode with value := some content } [], .mk { parametersAnode with parsed := some params } []],
    .mk { keyAnode with value := some key } []]

theorem emptyBits_octets (n : Nat) : emptyBits (n * 8 % 2 ^ 32) = 0 := by
  rw [emptyBits, if_neg (by omega)]

theorem modifyAt_key (f : GNode → Option GNode) :
    modifyAt infoTemplate [.name (identifier "subjectPublicKey")] f = (f (.mk keyAnode [])).bind fun node =>
      some (.mk infoAnode [.mk algorithmAnode [.mk oidAnode [], .mk parametersAnode []], node]) :=
  rfl

theorem modifyAt_oid (f : GNode → Option GNode) (key : GNode) :
    modifyAt (.mk infoAnode [.mk algorithmAnode [.mk oidAnode [], .mk parametersAnode []], key])
        [.name (identifier "algorithm"), .name (identifier "algorithm")] f =
      (f (.mk oidAnode [])).bind fun node =>
        some (.mk infoAnode [.mk algorithmAnode [node, .mk parametersAnode []], key]) := by
  have h : modifyAt (.mk infoAnode [.mk algorithmAnode [.mk oidAnode [], .mk parametersAnode []], key])
      [.name (identifier "algorithm"), .name (identifier "algorithm")] f =
        ((f (.mk oidAnode [])).bind fun node => some (.mk algorithmAnode [node, .mk parametersAnode []])).bind fun node =>
          some (.mk infoAnode [node, key]) := rfl
  rw [h, Option.bind_assoc]
  rfl

theorem modifyAt_parameters (f : GNode → Option GNode) (value : Option GBytes) (key : GNode) :
    modifyAt (.mk infoAnode [.mk algorithmAnode [.mk { oidAnode with value := value } [], .mk parametersAnode []], key])
        [.name (identifier "algorithm"), .name (identifier "parameters")] f =
      (f (.mk parametersAnode [])).bind fun node =>
        some (.mk infoAnode [.mk algorithmAnode [.mk { oidAnode with value := value } [], node], key]) := by
  have h : modifyAt (.mk infoAnode
      [.mk algorithmAnode [.mk { oidAnode with value := value } [], .mk parametersAnode []], key])
      [.name (identifier "algorithm"), .name (identifier "parameters")] f =
        ((f (.mk parametersAnode [])).bind fun node =>
          some (.mk algorithmAnode [.mk { oidAnode with value := value } [], node])).bind fun node =>
            some (.mk infoAnode [node, key]) := rfl
  rw [h, Option.bind_assoc]
  rfl

theorem setOid_written {oid : CString} {content : Bytes}
    (hoid : anodeWriteObjectId oid.bytes oid.bytes.length = some (some content)) :
    eggAsn1xSetOidAsString (.mk oidAnode []) oid =
      some (true, .mk { oidAnode with value := some ⟨content, List.replicate (oid.bytes.length - content.length) 0⟩ } []) := by
  rw [eggAsn1xSetOidAsString, if_neg (by decide)]
  dsimp only
  rw [hoid]
  rfl

theorem setBits_key (key : GBytes) :
    eggAsn1xSetBitsAsRaw (.mk keyAnode []) key (key.data.length * 8 % 2 ^ 32) =
      .mk { keyAnode with value := some key } [] := by
  rw [eggAsn1xSetBitsAsRaw, eggAsn1xTakeBitsAsRaw, if_neg (by decide), emptyBits_octets]
  rfl

theorem setKey_spec {oid : CString} {content : Bytes} {key : GBytes} {paramsAsn info : GNode} {params : Atlv}
    (hoid : anodeWriteObjectId oid.bytes oid.bytes.length = some (some content))
    (hparams : anodeBuildAnything true paramsAsn = some (some params))
    (h : setKey infoTemplate key oid paramsAsn = some info) :
    ∃ behind, info = infoNode ⟨content, behind⟩ params key := by
  have hany : eggAsn1xSetAnyFrom (.mk parametersAnode []) paramsAsn =
      some (.mk { parametersAnode with parsed := some params } []) := by
    rw [eggAsn1xSetAnyFrom, if_neg (by decide), hparams]
    rfl
  rw [setKey, modifyAt_key, setBits_key, Option.bind_some, Option.bind_eq_bind, Option.bind_some, modifyAt_oid,
    setOid_written hoid, Option.map_some, Option.bind_some, Option.bind_some] at h
  dsimp only at h
  rw [modifyAt_parameters, hany] at h
  exact ⟨_, (Option.some.inj h).symm⟩

-- The parameters are built where a key is.
theorem setKey_built {oid : CString} {content : Bytes} {key : GBytes} {paramsAsn info : GNode}
    (hoid : anodeWriteObjectId oid.bytes oid.bytes.length = some (some content))
    (h : setKey infoTemplate key oid paramsAsn = some info) : ∃ built, anodeBuildAnything true paramsAsn = some built := by
  rw [setKey, modifyAt_key, setBits_key, Option.bind_some, Option.bind_eq_bind, Option.bind_some, modifyAt_oid,
    setOid_written hoid, Option.map_some, Option.bind_some, Option.bind_some] at h
  dsimp only at h
  rw [modifyAt_parameters, Option.bind_eq_some_iff] at h
  obtain ⟨node, hnode, -⟩ := h
  rw [eggAsn1xSetAnyFrom, if_neg (by decide), Option.bind_eq_bind, Option.bind_eq_some_iff] at hnode
  obtain ⟨built, hbuilt, -⟩ := hnode
  exact ⟨built, hbuilt⟩

variable {content key : GBytes} {params tlv : Atlv}

-- The elements of a public key: the algorithm with its parameters, and the bits.
structure Info (content : Bytes) (params : Atlv) (key : Bytes) (leaf : Nat → Bytes → Atlv → Prop) (tlv : Atlv) : Prop where
  intro ::
  elements : ∃ algorithm oid bits, Branch [algorithm, bits] tlv ∧ Branch [oid, params] algorithm ∧ leaf 6 content oid ∧
    leaf 3 (0 :: key) bits

theorem build_info (hparams : Built params) {built : Option Atlv}
    (hbuild : anodeBuildAnything true (infoNode content params key) = some built) :
    ∃ tlv, built = some tlv ∧ Info content.data params key.data Leaf tlv ∧ Built tlv := by
  obtain ⟨tlv, tlvs, rfl, htlvs, hbranch, hbuilt⟩ := build_sequence (by rfl) (by rfl) (by rfl) hbuild
  obtain ⟨algorithm, rest, halgorithm, hrest, rfl⟩ := buildChildren_cons htlvs
  obtain ⟨bits, rest, hbits, hnil, rfl⟩ := buildChildren_cons hrest
  obtain rfl := Option.some.inj hnil
  obtain ⟨algorithm, tlvs, rfl, htlvs, hbranch', hbuilt'⟩ := build_sequence (by rfl) (by rfl) (by rfl) halgorithm
  obtain ⟨oid, rest, hoid, hrest, rfl⟩ := buildChildren_cons htlvs
  obtain ⟨any, rest, hany, hnil, rfl⟩ := buildChildren_cons hrest
  obtain rfl := Option.some.inj hnil
  obtain rfl : some params = any := Option.some.inj hany
  obtain ⟨oid, rfl, hleaf⟩ := build_value (by rfl) (.inl rfl) rfl hoid
  obtain ⟨bits, rfl, hleaf'⟩ := build_bits (by rfl) (by rfl) rfl rfl hbits
  refine ⟨tlv, rfl, ⟨algorithm, oid, bits, hbranch, hbranch', hleaf, hleaf'⟩, hbuilt ?_⟩
  have halgorithm' : Built algorithm :=
    hbuilt' (List.forall_mem_cons.mpr ⟨hleaf.built, List.forall_mem_singleton.mpr hparams⟩)
  exact List.forall_mem_cons.mpr ⟨halgorithm', List.forall_mem_singleton.mpr hleaf'.built⟩

-- The nodes of a key after it was decoded.
def decodedInfo (tlv algorithm oid params bits : Atlv) (key : GBytes) : GNode :=
  marked (.mk infoAnode [
    marked (.mk algorithmAnode [marked (anodeSetValue (.mk oidAnode []) oid.value) oid,
      marked (.mk parametersAnode []) params]) algorithm,
    marked (.mk { keyAnode with value := some key } []) bits]) tlv

-- The bytes are those of an object identifier, whatever is behind them.
def Encodes (content oid : Bytes) : Prop :=
  ∀ node behind, anodeReadObjectId node ⟨content, behind⟩ = some (true, node, some oid)

theorem encodes_of_arcs {c : UInt8} {rest oid : Bytes} {arcs : List Nat} (harcs : readArcs true 0 0 rest = some arcs)
    (hoid : dotted (c.toNat / 40 :: (c.toNat - c.toNat / 40 * 40) :: arcs) = oid) : Encodes (c :: rest) oid := by
  intro node behind
  rw [anodeReadObjectId]
  simp only [List.cons_append, List.drop_succ_cons, List.drop_zero, harcs]
  rw [← hoid]

def rsaContent : Bytes := [42, 134, 72, 134, 247, 13, 1, 1, 1]
def dsaContent : Bytes := [42, 134, 72, 206, 56, 4, 1]
def ecContent : Bytes := [42, 134, 72, 206, 61, 2, 1]

theorem write_rsa : anodeWriteObjectId oidPkix1Rsa.bytes oidPkix1Rsa.bytes.length = some (some rsaContent) := by
  decide +kernel

theorem write_dsa : anodeWriteObjectId oidPkix1Dsa.bytes oidPkix1Dsa.bytes.length = some (some dsaContent) := by
  decide +kernel

theorem write_ec : anodeWriteObjectId oidPkix1Ec.bytes oidPkix1Ec.bytes.length = some (some ecContent) := by
  decide +kernel

theorem encodes_rsa : Encodes rsaContent oidPkix1Rsa.bytes :=
  encodes_of_arcs (show _ = some [840, 113549, 1, 1, 1] by decide +kernel) (by decide +kernel)

theorem encodes_dsa : Encodes dsaContent oidPkix1Dsa.bytes :=
  encodes_of_arcs (show _ = some [840, 10040, 4, 1] by decide +kernel) (by decide +kernel)

theorem encodes_ec : Encodes ecContent oidPkix1Ec.bytes :=
  encodes_of_arcs (show _ = some [840, 10045, 2, 1] by decide +kernel) (by decide +kernel)

-- An element without a value of its own is structured.
theorem child_of_parsed {parsed : Atlv} (hbuilt : Built tlv) (hparsed : ParsedAs tlv parsed)
    (hcls : parsed.cls &&& classStructured = 0) : parsed.child = [] := by
  cases hparsed with
  | value _ _          => rfl
  | children hnone _ =>
    cases hbuilt with
    | mk hlegible _ _ =>
      have hsome := hlegible.structured.mp hcls
      rw [hnone] at hsome
      cases hsome

theorem parsed_info {content key : Bytes} {parsed : Atlv} (h : Info content params key Leaf tlv)
    (hparsed : ParsedAs tlv parsed) : ∃ params', ParsedAs params params' ∧ Info content params' key Primitive parsed := by
  obtain ⟨algorithm, oid, bits, hbranch, hbranch', hoid, hbits⟩ := h.elements
  obtain ⟨children, hparsed, hchildren⟩ := hbranch.parsed hparsed
  cases hchildren with
  | cons halgorithm hrest =>
    cases hrest with
    | cons hbits' hnil =>
      cases hnil
      obtain ⟨children, hparsed', hchildren⟩ := hbranch'.parsed halgorithm
      cases hchildren with
      | cons hoid' hrest =>
        cases hrest with
        | cons hparams hnil =>
          cases hnil
          exact ⟨_, hparams, ⟨_, _, _, hparsed, hparsed', hoid.parsed hoid', hbits.parsed hbits'⟩⟩

theorem decode_info (now : Nat) {content key oid : Bytes} (h : Info content params key Primitive tlv)
    (hchild : params.cls &&& classStructured = 0 → params.child = []) (hoid : Encodes content oid) :
    ∃ algorithm oidTlv bits behind, Primitive 6 content oidTlv ∧
      anodeDecodeOneWithoutTag infoTemplate tlv (anodeDefFlags infoTemplate) =
        some (true, decodedInfo tlv algorithm oidTlv params bits ⟨key, behind⟩) ∧
      eggAsn1xValidate now (decodedInfo tlv algorithm oidTlv params bits ⟨key, behind⟩) true =
        some (true, decodedInfo tlv algorithm oidTlv params bits ⟨key, behind⟩) := by
  obtain ⟨algorithm, oidTlv, bits, hbranch, hbranch', hprimitive, hbits⟩ := h.elements
  have hu : Untagged (.mk oidAnode []) := rfl
  have hu' : Untagged (.mk parametersAnode []) := rfl
  have hu'' : Untagged (.mk keyAnode []) := rfl
  obtain ⟨behind, hkey⟩ := hbits.decode_bits hu'' rfl
  obtain ⟨behind', hvalue⟩ := hprimitive.value
  refine ⟨algorithm, oidTlv, bits, behind, hprimitive, ?_, ?_⟩
  · have htag : anodeCalcTag (.mk oidAnode []) = oidTlv.tag := hprimitive.tag.symm
    have htag' : anodeCalcTag (.mk algorithmAnode [.mk oidAnode [], .mk parametersAnode []]) = algorithm.tag := hbranch'.tag.symm
    have htag'' : anodeCalcTag (.mk keyAnode []) = bits.tag := hbits.tag.symm
    have hinner : anodeDecodeAnything [.mk oidAnode [], .mk parametersAnode []] [oidTlv, params] = some (true,
        [marked (anodeSetValue (.mk oidAnode []) oidTlv.value) oidTlv, marked (.mk parametersAnode []) params]) :=
      decodeAnything_step (.inr htag) (hprimitive.decode_value hu (.inr rfl)) (fun h => by cases h)
        (decodeAnything_step (.inl rfl) (decode_any hu' rfl hchild) (fun _ => rfl) decodeAnything_nil)
    have halgorithm := @Branch.decode_sequence (.mk algorithmAnode [.mk oidAnode [], .mk parametersAnode []]) _ _ _ hbranch'
      rfl rfl (List.cons_ne_nil _ _) hinner
    have houter : anodeDecodeAnything infoTemplate.children [algorithm, bits] = some (true, _) :=
      decodeAnything_step (.inr htag') halgorithm (fun h => by cases h)
        (decodeAnything_step (.inr htag'') hkey (fun _ => rfl) decodeAnything_nil)
    exact @Branch.decode_sequence infoTemplate _ _ _ hbranch rfl rfl (List.cons_ne_nil _ _) houter
  · refine validate_sequence rfl rfl (List.forall_mem_cons.mpr ⟨?_, List.forall_mem_singleton.mpr rfl⟩)
    refine validate_sequence rfl rfl (List.forall_mem_cons.mpr ⟨?_, List.forall_mem_singleton.mpr rfl⟩)
    have hset : (marked (anodeSetValue (.mk oidAnode []) oidTlv.value) oidTlv).data.value = some ⟨content, behind'⟩ := hvalue
    have htype : anodeDefType (marked (anodeSetValue (.mk oidAnode []) oidTlv.value) oidTlv) = .objectId := rfl
    have hvalid := @validate_value _ now ⟨content, behind'⟩ hset true (by simp [htype])
    rw [eggAsn1xValidate] at hvalid
    rw [hvalid, anodeValidateValue]
    exact congrArg (Option.map fun x => (x.1, x.2.1)) (hoid _ behind')

theorem oidAt_decodedInfo {content oid : Bytes} {oidTlv : Atlv} (h : Primitive 6 content oidTlv) (hoid : Encodes content oid)
    (algorithm bits : Atlv) :
    oidAt (decodedInfo tlv algorithm oidTlv params bits key) [.name (identifier "algorithm"), .name (identifier "algorithm")] =
      some (some oid) := by
  obtain ⟨behind, hvalue⟩ := h.value
  have hnode : nodeAt (decodedInfo tlv algorithm oidTlv params bits key)
      [.name (identifier "algorithm"), .name (identifier "algorithm")] =
        some (some (marked (anodeSetValue (.mk oidAnode []) oidTlv.value) oidTlv)) := rfl
  rw [oidAt, hnode, Option.bind_eq_bind, Option.bind_some]
  dsimp only
  have hset : (marked (anodeSetValue (.mk oidAnode []) oidTlv.value) oidTlv).data.value = some ⟨content, behind⟩ := hvalue
  have htype : ¬anodeDefType (marked (anodeSetValue (.mk oidAnode []) oidTlv.value) oidTlv) ≠ .objectId := not_not.mpr rfl
  rw [eggAsn1xGetOidAsString, if_neg htype, hset]
  exact congrArg (Option.map fun x => x.2.2) (hoid _ behind)

-- A key that is built and encoded is decoded with the same parts.
theorem decoded_of_encoded {now : Nat} {oid : CString} {content : Bytes} {paramsAsn info info' : GNode} {bytes : GBytes}
    (hwrite : anodeWriteObjectId oid.bytes oid.bytes.length = some (some content)) (hoid : Encodes content oid.bytes)
    (hparams : anodeBuildAnything true paramsAsn = some (some params)) (hbuilt : Built params)
    (hset : setKey infoTemplate key oid paramsAsn = some info) (hencode : eggAsn1xEncode now info = some (info', some bytes)) :
    ∃ tlv algorithm oidTlv params' bits behind, ParsedAs params params' ∧ Primitive 6 content oidTlv ∧
      eggAsn1xCreateAndDecode now pkixAsn1Tab (identifier "SubjectPublicKeyInfo") bytes =
        some (some (decodedInfo tlv algorithm oidTlv params' bits ⟨key.data, behind⟩)) := by
  obtain ⟨behind, rfl⟩ := setKey_spec hwrite hparams hset
  obtain ⟨-, -, tlv, hbuild, hbytes⟩ := encode_inv hencode
  obtain ⟨tlv, heq, hinfo, hbuilt'⟩ := build_info hbuilt hbuild
  obtain rfl := Option.some.inj heq
  obtain ⟨hsized, rfl⟩ := hbytes hbuilt'
  have htag : anodeCalcTag infoTemplate = 0x10 := rfl
  obtain ⟨algorithm, oidTlv, bits, hbranch, -⟩ := hinfo.elements
  obtain ⟨parsed, hparsed, hdecode⟩ := decode_unparsed now hbuilt' hsized rfl (.inr (htag.trans hbranch.tag.symm)) []
  obtain ⟨params', hparsed', hinfo'⟩ := parsed_info hinfo hparsed
  obtain ⟨algorithm, oidTlv, bits, behind', hprimitive, hone, hvalid⟩ :=
    decode_info now hinfo' (child_of_parsed hbuilt hparsed') hoid
  refine ⟨parsed, algorithm, oidTlv, params', bits, behind', hparsed', hprimitive, ?_⟩
  have hdecoded := (hdecode _ hone).trans hvalid
  rw [eggAsn1xCreateAndDecode, create_info, Option.bind_eq_bind, Option.bind_some]
  exact congrArg (Option.bind · _) hdecoded

-- What is built from the attributes of a key, and encoded.
def encoded (lib : Library) (now : Nat) (attrs : Attributes) : Option GBytes := do
  let asn ← (← forAttributes lib now attrs)
  let (_, bytes) ← eggAsn1xEncode now asn
  bytes

-- The encoding is decoded, and the size of the key in it is the one of the attributes.
def SizesAgree (now : Nat) (attrs : Attributes) (bytes : GBytes) : Prop :=
  ∃ asn size, eggAsn1xCreateAndDecode now pkixAsn1Tab (identifier "SubjectPublicKeyInfo") bytes = some (some asn) ∧
    calculateSize now asn = some size ∧ attributesSize now attrs = some size

-- The number of bytes is even, or the first bit is not set.
def Rounded (value : Bytes) : Prop :=
  value.length % 2 = 0 ∨ value.head?.any (· &&& 0x80 ≠ 0) = false

instance (value : Bytes) : Decidable (Rounded value) :=
  inferInstanceAs (Decidable (_ ∨ _))

theorem keySize_usgOctets {value : Bytes} : keySize (usgOctets value).length = keySize value.length ↔ Rounded value := by
  unfold Rounded usgOctets keySize
  split
  case isTrue hsign =>
    rw [List.length_cons, hsign]
    simp only [Bool.true_eq_false, or_false]
    omega
  case isFalse hsign =>
    exact iff_of_true rfl (.inr (Bool.eq_false_iff.mpr hsign))

section

variable {now : Nat} {attrs : Attributes} {bytes behind : Bytes}

theorem createAndDecode_of {defs : List EggAsn1xDef} {type : CString} {asn child : GNode} {data : GBytes}
    (hcreate : eggAsn1xCreate defs type = some asn) (hdecode : eggAsn1xDecode now asn data = some (true, child)) :
    eggAsn1xCreateAndDecode now defs type data = some (some child) := by
  rw [eggAsn1xCreateAndDecode, hcreate, Option.bind_eq_bind, Option.bind_some, hdecode]
  rfl

theorem integerSize_node {asn node : GNode} {name : String} {octets : Bytes}
    (hnode : nodeAt asn [.name (identifier name)] = some (some node)) (hvalue : node.data.value = some ⟨octets, behind⟩) :
    integerSize asn name = some (keySize octets.length) := by
  rw [integerSize, hnode, Option.map_some, Option.bind_some, eggAsn1xGetValueRaw, hvalue]

theorem modulusSize {modulus exponent : Bytes} {tlvs : List Atlv}
    (h : List.Forall₂ (fun field tlv => Primitive 2 (usgOctets field.2) tlv) (rsaFields modulus exponent) tlvs) :
    integerSize (marked (.mk rsaKeyAnode (List.zipWith integerNode (rsaFields modulus exponent) tlvs)) tlv) "modulus" =
      some (keySize (usgOctets modulus).length) := by
  obtain ⟨first, rest, hfirst, hrest, rfl⟩ := List.forall₂_cons_left_iff.mp h
  obtain ⟨second, rest, -, hnil, rfl⟩ := List.forall₂_cons_left_iff.mp hrest
  cases hnil
  obtain ⟨behind, hvalue⟩ := hfirst.value
  have hnode : nodeAt (marked (.mk rsaKeyAnode (List.zipWith integerNode (rsaFields modulus exponent) [first, second])) tlv)
      [.name (identifier "modulus")] = some (some (integerNode (modulusAnode, modulus) first)) := rfl
  exact integerSize_node hnode hvalue

theorem calculateRsaKeySize_spec {modulus exponent : Bytes} {keyAsn : GNode} {key : GBytes}
    (hencode : eggAsn1xEncode now (.mk rsaKeyAnode ((rsaFields modulus exponent).map usgNode)) = some (keyAsn, some key))
    (behind : Bytes) :
    calculateRsaKeySize now ⟨key.data, behind⟩ = some (keySize (usgOctets modulus).length) := by
  obtain ⟨-, -, tlv, hbuild, hbytes⟩ := encode_inv hencode
  obtain ⟨tlv, heq, hbuilt, htag, hparses⟩ := integers_sequence now (by rfl) (by rfl) (by rfl)
    (rsaFields_integer modulus exponent) (List.cons_ne_nil _ _) hbuild
  obtain rfl := Option.some.inj heq
  obtain ⟨hsized, rfl⟩ := hbytes hbuilt
  obtain ⟨parsed, hparsed, hdecode⟩ := @decode_unparsed (.mk rsaKeyAnode ((rsaFields modulus exponent).map blankNode)) _ now
    hbuilt hsized rfl (.inr htag.symm) behind
  obtain ⟨tlvs, hprimitives, hone, hvalid⟩ := hparses parsed hparsed
  have hasn := createAndDecode_of (create_rsaKey modulus exponent) ((hdecode _ hone).trans hvalid)
  rw [calculateRsaKeySize, hasn, Option.bind_eq_bind, Option.bind_some]
  exact modulusSize hprimitives

theorem getAnyAs_of {defs : List EggAsn1xDef} {type : CString} {asn child node : GNode}
    (hcreate : eggAsn1xCreate defs type = some asn) (hu : Untagged node) (hany : anodeDefType node = .any)
    (hparsed : node.data.parsed = some tlv) (htag : anodeCalcTag asn = maxUlong ∨ anodeCalcTag asn = tlv.tag)
    (hone : anodeDecodeOneWithoutTag asn tlv (anodeDefFlags asn) = some (true, child))
    (hvalid : eggAsn1xValidate now child true = some (true, child)) :
    eggAsn1xGetAnyAs now node defs type = some (some child) := by
  have hinto : eggAsn1xGetAnyInto now node asn = some (true, child) := by
    rw [eggAsn1xGetAnyInto, if_neg (not_not.mpr hany), hparsed]
    dsimp only
    rw [hu.explicit, if_neg Bool.false_ne_true, if_neg (by simp),
      decodeAnything_step htag hone (fun _ => rfl) decodeAnything_nil]
    exact hvalid
  rw [eggAsn1xGetAnyAs, hcreate, Option.bind_eq_bind, Option.bind_some, hinto]
  rfl

theorem primeSize {p q g : Bytes} {tlvs : List Atlv}
    (h : List.Forall₂ (fun field tlv => Primitive 2 (usgOctets field.2) tlv) (dsaFields p q g) tlvs) :
    integerSize (marked (.mk dsaParametersAnode (List.zipWith integerNode (dsaFields p q g) tlvs)) tlv) "p" =
      some (keySize (usgOctets p).length) := by
  obtain ⟨first, rest, hfirst, hrest, rfl⟩ := List.forall₂_cons_left_iff.mp h
  obtain ⟨second, rest', -, hrest', rfl⟩ := List.forall₂_cons_left_iff.mp hrest
  obtain ⟨third, rest'', -, hnil, rfl⟩ := List.forall₂_cons_left_iff.mp hrest'
  cases hnil
  obtain ⟨behind, hvalue⟩ := hfirst.value
  have hnode : nodeAt (marked (.mk dsaParametersAnode (List.zipWith integerNode (dsaFields p q g) [first, second, third])) tlv)
      [.name (identifier "p")] = some (some (integerNode (pAnode, p) first)) := rfl
  exact integerSize_node hnode hvalue

-- The parameters of a DSA key, and their size after they were parsed.
theorem dsaParams_spec {p q g : Bytes} {built : Option Atlv}
    (hbuild : anodeBuildAnything true (.mk dsaParametersAnode ((dsaFields p q g).map usgNode)) = some built) :
    ∃ params, built = some params ∧ Built params ∧ ∀ params', ParsedAs params params' →
      calculateDsaParamsSize now (marked (.mk parametersAnode []) params') = some (keySize (usgOctets p).length) := by
  obtain ⟨params, rfl, hbuilt, htag, hparses⟩ := integers_sequence now (by rfl) (by rfl) (by rfl)
    (dsaFields_integer p q g) (List.cons_ne_nil _ _) hbuild
  refine ⟨params, rfl, hbuilt, fun params' hparsed => ?_⟩
  obtain ⟨tlvs, hprimitives, hone, hvalid⟩ := hparses params' hparsed
  have htag' : anodeCalcTag (.mk dsaParametersAnode ((dsaFields p q g).map blankNode)) = params'.tag := by
    cases hparsed with
    | value _ _    => exact htag.symm
    | children _ _ => exact htag.symm
  have hu : Untagged (marked (.mk parametersAnode []) params') := rfl
  have hasn := getAnyAs_of (create_dsaParameters p q g) hu rfl rfl (.inr htag') hone hvalid
  rw [calculateDsaParamsSize, hasn, Option.bind_eq_bind, Option.bind_some]
  exact primeSize hprimitives

def curveTemplate : GNode :=
  .mk ecParametersAnode [.mk namedCurveAnode []]

-- The node of the curve that was decoded, and the choice of it.
def curveNode (tlv : Atlv) : GNode :=
  (marked (anodeSetValue (.mk namedCurveAnode []) tlv.value) tlv).modify ({ · with chosen := true })

def choiceNode (tlv : Atlv) : GNode :=
  marked (.mk ecParametersAnode [curveNode tlv]) tlv

theorem decode_namedCurve {node : GNode} {ok : Bool} (h : anodeDecodeOne (.mk namedCurveAnode []) tlv = some (ok, node)) :
    if tlv.tag = 6 ∧ tlv.cls &&& classStructured = 0 then
      tlv.child = [] ∧ ok = true ∧ node = marked (anodeSetValue (.mk namedCurveAnode []) tlv.value) tlv
    else ok = false := by
  have hu : Untagged (.mk namedCurveAnode []) := rfl
  have htag : anodeCalcTag (.mk namedCurveAnode []) = 6 := rfl
  have htype : anodeDefType (.mk namedCurveAnode []) = .objectId := rfl
  rw [anodeDecodeOne, htag] at h
  split at h
  case isTrue htag =>
    rw [if_neg fun hboth => htag.2 hboth.1.symm]
    cases h
    rfl
  case isFalse htag =>
    have htag : tlv.tag = 6 := by
      by_contra hne
      exact htag ⟨by decide, Ne.symm hne⟩
    rw [hu.decodeOne] at h
    split at h
    case isTrue hcls =>
      rw [if_neg fun hboth => hcls hboth.2]
      rw [anodeDecodeStructured, htype] at h
      cases h
      rfl
    case isFalse hcls =>
      rw [if_pos ⟨htag, not_not.mp hcls⟩]
      rw [anodeDecodePrimitive] at h
      split at h
      case isTrue  => cases h
      case isFalse hchild =>
        rw [htype] at h
        cases h
        exact ⟨by simpa using hchild, rfl, rfl⟩

-- Both kinds of elements are decoded in the same way.
theorem decode_anyChoice {node child : GNode} (hu : Untagged node) (htype : anodeDefType node = .choice)
    (h : anodeDecodeOneWithoutTag node tlv (anodeDefFlags node) = some (true, child)) :
    ∃ node', anodeDecodeChoice node tlv = some (true, node') ∧ child = marked node' tlv := by
  rw [hu.decodeOne, Option.map_eq_some_iff] at h
  obtain ⟨⟨ok, node'⟩, h, heq⟩ := h
  obtain ⟨rfl, hchild⟩ := Prod.mk.inj heq
  refine ⟨node', ?_, hchild.symm⟩
  split at h
  case isTrue =>
    rw [anodeDecodeStructured, htype] at h
    exact h
  case isFalse =>
    rw [anodeDecodePrimitive] at h
    split at h
    case isTrue  => cases h
    case isFalse =>
      rw [htype] at h
      exact h

theorem decode_choice {child : GNode}
    (h : anodeDecodeOneWithoutTag curveTemplate tlv (anodeDefFlags curveTemplate) = some (true, child)) :
    child = choiceNode tlv := by
  obtain ⟨node, hchoice, rfl⟩ := decode_anyChoice (by rfl) (by rfl) h
  rw [anodeDecodeChoice, Option.bind_eq_bind, Option.bind_eq_some_iff] at hchoice
  obtain ⟨children, hchildren, hchoice⟩ := hchoice
  have hcurve : decodeChoices [.mk namedCurveAnode []] tlv = some children := hchildren
  rw [decodeChoices, Option.bind_eq_bind, Option.bind_eq_some_iff] at hcurve
  obtain ⟨⟨ok, curve⟩, hone, hrest⟩ := hcurve
  rw [decodeChoices] at hrest
  obtain rfl := Option.some.inj hrest
  have hspec := decode_namedCurve hone
  split at hspec
  case isTrue =>
    obtain ⟨-, rfl, rfl⟩ := hspec
    cases hchoice
    rfl
  case isFalse =>
    obtain rfl := hspec
    cases hchoice

theorem decode_curve {octets : Bytes} (h : Primitive 6 octets tlv) :
    anodeDecodeOneWithoutTag curveTemplate tlv (anodeDefFlags curveTemplate) = some (true, choiceNode tlv) := by
  have hu : Untagged curveTemplate := rfl
  have hu' : Untagged (.mk namedCurveAnode []) := rfl
  have hone : anodeDecodeOne (.mk namedCurveAnode []) tlv =
      some (true, marked (anodeSetValue (.mk namedCurveAnode []) tlv.value) tlv) := by
    rw [anodeDecodeOne, if_neg fun hne => hne.2 h.tag.symm]
    exact h.decode_value hu' (.inr rfl)
  refine h.decodeOne hu ?_
  have htype : anodeDefType curveTemplate = .choice := rfl
  have hchildren : curveTemplate.children = [.mk namedCurveAnode []] := rfl
  rw [anodeDecodePrimitive, h.child, htype]
  dsimp only
  rw [if_neg (by simp), anodeDecodeChoice, hchildren, decodeChoices, hone, decodeChoices]
  rfl

theorem readObjectId_encodes {node node' : GNode} {content behind : Bytes} {oid : Option Bytes} (hne : content ≠ [])
    (h : anodeReadObjectId node ⟨content, behind⟩ = some (true, node', oid)) : ∃ text, Encodes content text := by
  cases content with
  | nil          => exact absurd rfl hne
  | cons c rest =>
    rw [anodeReadObjectId] at h
    simp only [List.cons_append, List.drop_succ_cons, List.drop_zero] at h
    split at h
    case h_1            => cases h
    case h_2 arcs harcs => exact ⟨_, encodes_of_arcs harcs rfl⟩

theorem valid_choice (strict : Bool) :
    eggAsn1xValidate now (choiceNode tlv) strict = (eggAsn1xValidate now (curveNode tlv) strict).map fun (ok, curve) =>
      (ok, .mk (choiceNode tlv).data [curve]) := by
  have htype : (choiceNode tlv).data.type = .choice := rfl
  have hchosen : (curveNode tlv).data.chosen = true := rfl
  have heq : choiceNode tlv = .mk (choiceNode tlv).data [curveNode tlv] := rfl
  have hany : [curveNode tlv].any (·.data.chosen) = true := rfl
  have hcount : ¬1 < [curveNode tlv].countP (·.data.chosen) := Nat.not_lt.mpr List.countP_le_length
  rw [eggAsn1xValidate, heq, anodeValidateAnything, htype]
  dsimp only
  rw [hany, if_neg (by simp), validateChosen, if_pos hchosen, eggAsn1xValidate]
  cases anodeValidateAnything now strict (curveNode tlv) with
  | none       => rfl
  | some valid =>
    obtain ⟨ok, curve⟩ := valid
    cases ok with
    | false => rfl
    | true  =>
      dsimp only [Option.bind_eq_bind, Option.bind_some, Option.map_some]
      rw [if_neg (by simp), if_neg hcount]
      rfl

-- A choice is valid if and only if its object identifier can be read.
theorem valid_curve (strict : Bool) : eggAsn1xValidate now (curveNode tlv) strict = match tlv.value with
    | some value => (anodeReadObjectId (curveNode tlv) value).map fun (ok, node, _) => (ok, node)
    | none       => some (anodeFailure (curveNode tlv) "missing value") := by
  have htype : anodeDefType (curveNode tlv) = .objectId := rfl
  have hvalue : (curveNode tlv).data.value = tlv.value := rfl
  cases h : tlv.value with
  | some value =>
    rw [validate_value (hvalue.trans h) (by simp [htype]), anodeValidateValue, htype]
    rfl
  | none =>
    have heq : eggAsn1xValidate now (curveNode tlv) strict = anodeValidateSimple now (curveNode tlv) := rfl
    rw [heq, anodeValidateSimple, hvalue, h]
    rfl

theorem namedCurveSize_choice {content : Bytes} (h : tlv.value = some ⟨content, behind⟩) {oid : Bytes} (hoid : Encodes content oid) :
    namedCurveSize (choiceNode tlv) = some (curveSize namedCurves (some oid)) := by
  have hnode : nodeAt (choiceNode tlv) [.name (identifier "namedCurve")] = some (some (curveNode tlv)) := rfl
  have htype : ¬anodeDefType (curveNode tlv) ≠ .objectId := not_not.mpr rfl
  have hvalue : (curveNode tlv).data.value = some ⟨content, behind⟩ := h
  rw [namedCurveSize, oidAt, hnode, Option.bind_eq_bind, Option.bind_some]
  dsimp only
  rw [eggAsn1xGetOidAsString, if_neg htype, hvalue]
  exact congrArg (Option.map (curveSize namedCurves)) (congrArg (Option.map fun x => x.2.2) (hoid _ behind))

-- The last element of the data ends where the data does.
theorem parsed_behind {data value : GBytes} (h : atlvParseDer data = some (.ok tlv)) (hvalue : tlv.value = some value) :
    value.behind = data.behind := by
  rw [atlvParseDer] at h
  split at h
  case h_1 => cases h
  case h_2 => cases h
  case h_3 header _ =>
    split at h
    case h_1 => cases h
    case h_2 => cases h
    case h_3 tlv' at' htag =>
      split at h
      case isTrue  => cases h
      case isFalse hend =>
        cases h
        rw [not_not] at hend
        rw [atlvParseDerTag] at htag
        simp only [Nat.not_lt_zero, if_false] at htag
        split at htag
        case isTrue  => cases htag
        case isFalse =>
          split at htag
          case isTrue  => cases htag
          case isFalse =>
            split at htag
            case isTrue =>
              obtain ⟨x, -, heq⟩ := Option.map_eq_some_iff.mp htag
              cases x with
              | error msg => cases heq
              | ok x      => cases heq; cases hvalue
            case isFalse =>
              cases htag
              obtain rfl := Option.some.inj hvalue
              rw [GBytes.slice, List.drop_drop, hend, GBytes.memory, List.drop_left]

theorem decodeAnything_only {node : GNode} {nodes : List GNode} (htag : anodeCalcTag node = maxUlong)
    (h : anodeDecodeAnything [node] [tlv] = some (true, nodes)) :
    ∃ child, nodes = [child] ∧ anodeDecodeOneWithoutTag node tlv (anodeDefFlags node) = some (true, child) := by
  rw [anodeDecodeAnything] at h
  dsimp only at h
  rw [if_neg fun hne => hne.1 htag, Option.bind_eq_bind, Option.bind_eq_some_iff] at h
  obtain ⟨⟨ok, child⟩, hone, h⟩ := h
  cases ok with
  | false => cases h
  | true  =>
    rw [decodeAnything_nil] at h
    cases h
    exact ⟨child, rfl, hone⟩

-- The object identifier of a choice that is valid. It has bytes where it is at the end of the memory.
theorem encodes_of_valid {asn : GNode} (h : eggAsn1xValidate now (choiceNode tlv) true = some (true, asn))
    (hbehind : ∀ value, tlv.value = some value → value.behind = []) :
    ∃ content oid, tlv.value = some ⟨content, []⟩ ∧ Encodes content oid := by
  rw [valid_choice, Option.map_eq_some_iff] at h
  obtain ⟨⟨ok, curve⟩, hvalid, heq⟩ := h
  obtain rfl : ok = true := (Prod.mk.inj heq).1
  rw [valid_curve] at hvalid
  split at hvalid
  case h_2 => cases hvalid
  case h_1 value hvalue =>
    obtain ⟨content, behind⟩ := value
    obtain rfl : behind = [] := hbehind _ hvalue
    obtain ⟨⟨ok, node, oid⟩, hread, heq⟩ := Option.map_eq_some_iff.mp hvalid
    obtain rfl : ok = true := (Prod.mk.inj heq).1
    have hne : content ≠ [] := by
      rintro rfl
      cases hread
    obtain ⟨text, hencodes⟩ := readObjectId_encodes hne hread
    exact ⟨content, text, hvalue, hencodes⟩

-- The object identifier of a curve that was decoded.
theorem decoded_curve {data : Bytes} {asn : GNode}
    (h : eggAsn1xCreateAndDecode now pkAsn1Tab (identifier "ECParameters") (usg data) = some (some asn)) :
    ∃ tlv content oid, asn = choiceNode tlv ∧ tlv.value = some ⟨content, []⟩ ∧ Encodes content oid := by
  rw [eggAsn1xCreateAndDecode, create_ecParameters, Option.bind_eq_bind, Option.bind_some, Option.bind_eq_bind,
    Option.bind_eq_some_iff] at h
  obtain ⟨⟨ok, asn'⟩, hdecode, h⟩ := h
  dsimp only at h
  split at h
  case isFalse => cases h
  case isTrue hok =>
    obtain rfl : ok = true := hok
    obtain rfl := Option.some.inj (Option.some.inj h)
    have hdecode : eggAsn1xDecodeFull now curveTemplate (usg data) true = some (true, asn') := hdecode
    rw [eggAsn1xDecodeFull, show eggAsn1xClear curveTemplate = curveTemplate from rfl, Option.bind_eq_bind,
      Option.bind_eq_some_iff] at hdecode
    obtain ⟨result, hparse, hdecode⟩ := hdecode
    cases result with
    | error msg => cases hdecode
    | ok tlv    =>
      rw [Option.bind_eq_bind, Option.bind_eq_some_iff] at hdecode
      obtain ⟨⟨ok, nodes⟩, hnodes, hvalid⟩ := hdecode
      cases ok with
      | false => cases hvalid
      | true  =>
        have hvalid : eggAsn1xValidate now (nodes.headD curveTemplate) true = some (true, asn') := hvalid
        obtain ⟨child, rfl, hone⟩ := decodeAnything_only (by rfl) hnodes
        obtain rfl := decode_choice hone
        obtain ⟨content, oid, hvalue, hencodes⟩ := encodes_of_valid hvalid fun value => parsed_behind hparse
        exact ⟨tlv, content, oid, validate_unchanged hvalid, hvalue, hencodes⟩

-- The parameters of an EC key, and their size after they were parsed.
theorem ecParams_spec {tlv : Atlv} {content oid : Bytes} {built : Option Atlv} (hvalue : tlv.value = some ⟨content, []⟩)
    (hoid : Encodes content oid) (hbuild : anodeBuildAnything true (choiceNode tlv) = some built) :
    ∃ params, built = some params ∧ Built params ∧ ∀ params', ParsedAs params params' →
      calculateEcParamsSize now (marked (.mk parametersAnode []) params') =
        some (curveSize namedCurves (some oid)) := by
  have hu : Untagged (choiceNode tlv) := rfl
  have hbuild : maybeExplicit (choiceNode tlv) (anodeBuildAnything true (curveNode tlv)) = some built := hbuild
  rw [hu.maybeExplicit] at hbuild
  have hu' : Untagged (curveNode tlv) := rfl
  obtain ⟨params, rfl, hleaf⟩ := @build_value (curveNode tlv).data [] hu' (.inl rfl) _ hvalue _ hbuild
  refine ⟨params, rfl, hleaf.built, fun params' hparsed => ?_⟩
  have hprimitive : Primitive 6 content params' := hleaf.parsed hparsed
  obtain ⟨behind, hvalue'⟩ := hprimitive.value
  have hvalid : eggAsn1xValidate now (choiceNode params') true = some (true, choiceNode params') := by
    rw [valid_choice, valid_curve, hvalue']
    dsimp only
    rw [hoid]
    rfl
  have hu'' : Untagged (marked (.mk parametersAnode []) params') := rfl
  have hasn := getAnyAs_of create_ecParameters hu'' rfl rfl (.inl rfl) (decode_curve hprimitive) hvalid
  rw [calculateEcParamsSize, hasn, Option.bind_eq_bind, Option.bind_some]
  exact namedCurveSize_choice hvalue' hoid

-- What is built for an RSA key.
theorem rsa_inv {info : GNode} (h : rsaSubjectPublicKeyFromAttributes now attrs infoTemplate = some (some info)) :
    ∃ modulus exponent keyAsn key, findData attrs ckaModulus = some modulus ∧
      eggAsn1xEncode now (.mk rsaKeyAnode ((rsaFields modulus exponent).map usgNode)) = some (keyAsn, some key) ∧
      setKey infoTemplate key oidPkix1Rsa (eggAsn1xSetNull (.mk nullAnode [])) = some info := by
  unfold rsaSubjectPublicKeyFromAttributes at h
  split at h
  case h_2 => cases h
  case h_1 modulus exponent hmodulus _ =>
    have htake := takeUsg_rsa modulus exponent
    rw [create_rsaKey modulus exponent, create_rsaParameters, Option.bind_eq_bind, Option.bind_some, Option.bind_eq_bind,
      Option.bind_some] at h
    obtain ⟨asn, hfirst, h⟩ := Option.bind_eq_some_iff.mp h
    obtain ⟨asn', hsecond, h⟩ := Option.bind_eq_some_iff.mp h
    obtain ⟨⟨keyAsn, encoded⟩, hencode, h⟩ := Option.bind_eq_some_iff.mp h
    obtain ⟨key, hkey, h⟩ := Option.bind_eq_some_iff.mp h
    obtain ⟨info', hset, h⟩ := Option.bind_eq_some_iff.mp h
    obtain rfl := Option.some.inj (Option.some.inj h)
    rw [hfirst, Option.bind_some, hsecond] at htake
    obtain rfl := Option.some.inj htake
    obtain rfl : encoded = some key := hkey
    exact ⟨modulus, exponent, keyAsn, key, hmodulus, hencode, hset⟩

theorem dsa_inv {lib : Library} {klass : Nat} {info : GNode}
    (h : dsaSubjectPublicKeyFromAttributes lib now attrs klass infoTemplate = some (some info)) :
    ∃ p q g key, findData attrs ckaPrime = some p ∧
      setKey infoTemplate key oidPkix1Dsa (.mk dsaParametersAnode ((dsaFields p q g).map usgNode)) = some info := by
  unfold dsaSubjectPublicKeyFromAttributes at h
  split at h
  case h_2 => cases h
  case h_1 p q g value hp _ _ _ =>
    have htake := takeUsg_dsa p q g
    obtain ⟨keyAsn, -, h⟩ := Option.bind_eq_some_iff.mp h
    rw [create_dsaParameters p q g, Option.bind_eq_bind, Option.bind_some] at h
    obtain ⟨asn, hfirst, h⟩ := Option.bind_eq_some_iff.mp h
    obtain ⟨asn', hsecond, h⟩ := Option.bind_eq_some_iff.mp h
    obtain ⟨asn'', hthird, h⟩ := Option.bind_eq_some_iff.mp h
    -- the value of the key does not matter here
    obtain ⟨keyAsn', h⟩ : ∃ keyAsn', ((eggAsn1xEncode now keyAsn').bind fun x => x.2.bind fun key =>
        (setKey infoTemplate key oidPkix1Dsa asn'').bind fun info => some (some info)) = some (some info) := by
      dsimp only at h
      split at h
      all_goals
        obtain ⟨keyAsn', -, h⟩ := Option.bind_eq_some_iff.mp h
        exact ⟨keyAsn', h⟩
    obtain ⟨⟨keyAsn'', encoded⟩, -, h⟩ := Option.bind_eq_some_iff.mp h
    obtain ⟨key, -, h⟩ := Option.bind_eq_some_iff.mp h
    obtain ⟨info', hset, h⟩ := Option.bind_eq_some_iff.mp h
    obtain rfl := Option.some.inj (Option.some.inj h)
    rw [hfirst, Option.bind_some, hsecond, Option.bind_some, hthird] at htake
    obtain rfl := Option.some.inj htake
    exact ⟨p, q, g, key, hp, hset⟩

theorem ec_inv {info : GNode} (h : ecSubjectPublicKeyFromAttributes now attrs infoTemplate = some (some info)) :
    ∃ ecParams paramsAsn key, findData attrs ckaEcParams = some ecParams ∧
      eggAsn1xCreateAndDecode now pkAsn1Tab (identifier "ECParameters") (usg ecParams) = some (some paramsAsn) ∧
      setKey infoTemplate key oidPkix1Ec paramsAsn = some info := by
  unfold ecSubjectPublicKeyFromAttributes at h
  split at h
  case h_2 => cases h
  case h_1 ecParams ecPoint hparams _ =>
    obtain ⟨paramsAsn, hdecode, h⟩ := Option.bind_eq_some_iff.mp h
    cases paramsAsn with
    | none           => cases h
    | some paramsAsn =>
      obtain ⟨pointAsn, -, h⟩ := Option.bind_eq_some_iff.mp h
      cases pointAsn with
      | none          => cases h
      | some pointAsn =>
        obtain ⟨keyBytes, -, h⟩ := Option.bind_eq_some_iff.mp h
        cases keyBytes with
        | none          => cases h
        | some keyBytes =>
          obtain ⟨info', hset, h⟩ := Option.bind_eq_some_iff.mp h
          obtain rfl := Option.some.inj (Option.some.inj h)
          exact ⟨ecParams, paramsAsn, _, hparams, hdecode, hset⟩

-- The parameters of an RSA key are always built.
theorem nullParams_spec {built : Option Atlv}
    (hbuild : anodeBuildAnything true (eggAsn1xSetNull (.mk nullAnode [])) = some built) :
    ∃ params, built = some params ∧ Built params := by
  obtain ⟨params, rfl, hleaf⟩ := @build_value { nullAnode with value := some ⟨[], []⟩ } [] (by rfl) (.inr rfl) _ rfl _ hbuild
  exact ⟨params, rfl, hleaf.built⟩

theorem find_of_findData {type : Nat} {value : Bytes} (h : findData attrs type = some value) :
    ∃ attr, find attrs type = some attr ∧ attributeLength attr = value.length := by
  obtain ⟨attr, hfind, hvalue⟩ := Option.bind_eq_some_iff.mp h
  refine ⟨attr, hfind, ?_⟩
  rw [attributeLength, hvalue]
  rfl

-- The key that is encoded is of the type that the attributes have.
theorem calculated_rsa {info info' : GNode} {bytes : GBytes}
    (h : rsaSubjectPublicKeyFromAttributes now attrs infoTemplate = some (some info))
    (hencode : eggAsn1xEncode now info = some (info', some bytes)) :
    ∃ modulus asn, findData attrs ckaModulus = some modulus ∧
      eggAsn1xCreateAndDecode now pkixAsn1Tab (identifier "SubjectPublicKeyInfo") bytes = some (some asn) ∧
      calculateSize now asn = some (keySize (usgOctets modulus).length) := by
  obtain ⟨modulus, exponent, keyAsn, key, hmodulus, hkey, hset⟩ := rsa_inv h
  obtain ⟨built, hbuild⟩ := setKey_built write_rsa hset
  obtain ⟨params, rfl, hbuilt⟩ := nullParams_spec hbuild
  obtain ⟨tlv, algorithm, oidTlv, params', bits, behind, -, hprimitive, hdecode⟩ :=
    decoded_of_encoded write_rsa encodes_rsa hbuild hbuilt hset hencode
  refine ⟨modulus, _, hmodulus, hdecode, ?_⟩
  rw [calculateSize, oidAt_decodedInfo hprimitive encodes_rsa, Option.bind_eq_bind, Option.bind_some]
  dsimp only
  rw [if_pos rfl]
  exact calculateRsaKeySize_spec hkey behind

theorem calculated_dsa {lib : Library} {klass : Nat} {info info' : GNode} {bytes : GBytes}
    (h : dsaSubjectPublicKeyFromAttributes lib now attrs klass infoTemplate = some (some info))
    (hencode : eggAsn1xEncode now info = some (info', some bytes)) :
    ∃ p asn, findData attrs ckaPrime = some p ∧
      eggAsn1xCreateAndDecode now pkixAsn1Tab (identifier "SubjectPublicKeyInfo") bytes = some (some asn) ∧
      calculateSize now asn = some (keySize (usgOctets p).length) := by
  obtain ⟨p, q, g, key, hp, hset⟩ := dsa_inv h
  obtain ⟨built, hbuild⟩ := setKey_built write_dsa hset
  obtain ⟨params, rfl, hbuilt, hsize⟩ := @dsaParams_spec now _ _ _ _ hbuild
  obtain ⟨tlv, algorithm, oidTlv, params', bits, behind, hparsed, hprimitive, hdecode⟩ :=
    decoded_of_encoded write_dsa encodes_dsa hbuild hbuilt hset hencode
  refine ⟨p, _, hp, hdecode, ?_⟩
  rw [calculateSize, oidAt_decodedInfo hprimitive encodes_dsa, Option.bind_eq_bind, Option.bind_some]
  dsimp only
  rw [if_neg (by decide +kernel), if_pos rfl]
  exact hsize params' hparsed

theorem calculated_ec {info info' : GNode} {bytes : GBytes}
    (h : ecSubjectPublicKeyFromAttributes now attrs infoTemplate = some (some info))
    (hencode : eggAsn1xEncode now info = some (info', some bytes)) :
    ∃ size asn, attributesEcParamsSize now attrs = some size ∧
      eggAsn1xCreateAndDecode now pkixAsn1Tab (identifier "SubjectPublicKeyInfo") bytes = some (some asn) ∧
      calculateSize now asn = some size := by
  obtain ⟨ecParams, paramsAsn, key, hparams, hcurve, hset⟩ := ec_inv h
  obtain ⟨curve, content, oid, rfl, hvalue, hoid⟩ := decoded_curve hcurve
  obtain ⟨built, hbuild⟩ := setKey_built write_ec hset
  obtain ⟨params, rfl, hbuilt, hsize⟩ := @ecParams_spec now _ _ _ _ hvalue hoid hbuild
  obtain ⟨tlv, algorithm, oidTlv, params', bits, behind, hparsed, hprimitive, hdecode⟩ :=
    decoded_of_encoded write_ec encodes_ec hbuild hbuilt hset hencode
  refine ⟨curveSize namedCurves (some oid), _, ?_, hdecode, ?_⟩
  · rw [attributesEcParamsSize, hparams]
    dsimp only
    rw [hcurve, Option.bind_eq_bind, Option.bind_some]
    exact namedCurveSize_choice hvalue hoid
  · rw [calculateSize, oidAt_decodedInfo hprimitive encodes_ec, Option.bind_eq_bind, Option.bind_some]
    dsimp only
    rw [if_neg (by decide +kernel), if_neg (by decide +kernel), if_pos rfl]
    exact hsize params' hparsed

variable {lib : Library} {klass keyType : Nat} {data : GBytes}

-- The attributes of a key, and what is built from them.
theorem encoded_inv (hclass : findUlong attrs ckaClass = some klass) (hkey : klass ≠ ckoCertificate)
    (h : encoded lib now attrs = some data) :
    ∃ keyType info info', findUlong attrs ckaKeyType = some keyType ∧ eggAsn1xEncode now info = some (info', some data) ∧
      (if keyType = ckkRsa then rsaSubjectPublicKeyFromAttributes now attrs infoTemplate
        else if keyType = ckkDsa then dsaSubjectPublicKeyFromAttributes lib now attrs klass infoTemplate
        else if keyType = ckkEc then ecSubjectPublicKeyFromAttributes now attrs infoTemplate
        else some none) = some (some info) := by
  obtain ⟨result, hbuilt, hrest⟩ := Option.bind_eq_some_iff.mp h
  obtain ⟨info, rfl, hrest'⟩ := Option.bind_eq_some_iff.mp hrest
  obtain ⟨⟨info', bytes⟩, hencode, hbytes⟩ := Option.bind_eq_some_iff.mp hrest'
  obtain rfl : bytes = some data := hbytes
  rw [forAttributes, hclass] at hbuilt
  dsimp only at hbuilt
  rw [if_neg hkey] at hbuilt
  split at hbuilt
  case isFalse => cases hbuilt
  case isTrue =>
    split at hbuilt
    case h_1 => cases hbuilt
    case h_2 keyType htype =>
      rw [create_info, Option.bind_eq_bind, Option.bind_some] at hbuilt
      exact ⟨keyType, info, info', htype, hencode, hbuilt⟩

theorem sizesAgree_of {asn : GNode} {size size' : Nat}
    (hdecode : eggAsn1xCreateAndDecode now pkixAsn1Tab (identifier "SubjectPublicKeyInfo") data = some (some asn))
    (hsize : calculateSize now asn = some size) (hsize' : attributesSize now attrs = some size') :
    SizesAgree now attrs data ↔ size = size' := by
  constructor
  · rintro ⟨asn', size'', hdecode', hcalculate, hattributes⟩
    obtain rfl := Option.some.inj (Option.some.inj (hdecode.symm.trans hdecode'))
    obtain rfl := Option.some.inj (hsize.symm.trans hcalculate)
    exact Option.some.inj (hattributes.symm.trans hsize')
  · rintro rfl
    exact ⟨asn, size, hdecode, hsize, hsize'⟩

theorem sizesAgree_rsa {modulus : Bytes} (hclass : findUlong attrs ckaClass = some klass) (hkey : klass ≠ ckoCertificate)
    (htype : findUlong attrs ckaKeyType = some ckkRsa) (hmodulus : findData attrs ckaModulus = some modulus)
    (h : encoded lib now attrs = some data) : SizesAgree now attrs data ↔ Rounded modulus := by
  obtain ⟨keyType, info, info', htype', hencode, hbuilt⟩ := encoded_inv hclass hkey h
  obtain rfl := Option.some.inj (htype.symm.trans htype')
  rw [if_pos rfl] at hbuilt
  obtain ⟨modulus', asn, hmodulus', hdecode, hsize⟩ := calculated_rsa hbuilt hencode
  obtain rfl := Option.some.inj (hmodulus.symm.trans hmodulus')
  obtain ⟨attr, hfind, hlength⟩ := find_of_findData hmodulus
  have hsize' : attributesSize now attrs = some (keySize modulus.length) := by
    rw [attributesSize, htype, attributesRsaKeySize, hfind, ← hlength]
    rfl
  rw [sizesAgree_of hdecode hsize hsize']
  exact keySize_usgOctets

theorem sizesAgree_dsa {p : Bytes} (hclass : findUlong attrs ckaClass = some klass) (hkey : klass ≠ ckoCertificate)
    (htype : findUlong attrs ckaKeyType = some ckkDsa) (hp : findData attrs ckaPrime = some p)
    (h : encoded lib now attrs = some data) : SizesAgree now attrs data ↔ Rounded p := by
  obtain ⟨keyType, info, info', htype', hencode, hbuilt⟩ := encoded_inv hclass hkey h
  obtain rfl := Option.some.inj (htype.symm.trans htype')
  rw [if_neg (by decide), if_pos rfl] at hbuilt
  obtain ⟨p', asn, hp', hdecode, hsize⟩ := calculated_dsa hbuilt hencode
  obtain rfl := Option.some.inj (hp.symm.trans hp')
  obtain ⟨attr, hfind, hlength⟩ := find_of_findData hp
  have hsize' : attributesSize now attrs = some (keySize p.length) := by
    rw [attributesSize, htype, attributesDsaKeySize, hfind, ← hlength]
    rfl
  rw [sizesAgree_of hdecode hsize hsize']
  exact keySize_usgOctets

theorem sizesAgree_ec (hclass : findUlong attrs ckaClass = some klass) (hkey : klass ≠ ckoCertificate)
    (htype : findUlong attrs ckaKeyType = some ckkEc) (h : encoded lib now attrs = some data) :
    SizesAgree now attrs data := by
  obtain ⟨keyType, info, info', htype', hencode, hbuilt⟩ := encoded_inv hclass hkey h
  obtain rfl := Option.some.inj (htype.symm.trans htype')
  rw [if_neg (by decide), if_neg (by decide), if_pos rfl] at hbuilt
  obtain ⟨size, asn, hattributes, hdecode, hsize⟩ := calculated_ec hbuilt hencode
  refine ⟨asn, size, hdecode, hsize, ?_⟩
  rw [attributesSize, htype]
  exact hattributes

-- The number that is measured for the size of a key, where it is one of an RSA or a DSA key.
def measured (attrs : Attributes) : Option Bytes :=
  match findUlong attrs ckaKeyType with
  | none         => none
  | some keyType =>
    if keyType = ckkRsa then findData attrs ckaModulus
    else if keyType = ckkDsa then findData attrs ckaPrime
    else none

-- The sizes of a key are the same if and only if no complement byte changes the rounding.
theorem sizesAgree_iff (hclass : findUlong attrs ckaClass = some klass) (hkey : klass ≠ ckoCertificate)
    (h : encoded lib now attrs = some data) : SizesAgree now attrs data ↔ ∀ value ∈ measured attrs, Rounded value := by
  obtain ⟨keyType, info, info', htype, hencode, hbuilt⟩ := encoded_inv hclass hkey h
  split at hbuilt
  case isTrue hrsa =>
    obtain rfl := hrsa
    obtain ⟨modulus, -, hmodulus, -⟩ := calculated_rsa hbuilt hencode
    have hmeasured : measured attrs = some modulus := by
      rw [measured, htype]
      exact hmodulus
    rw [sizesAgree_rsa hclass hkey htype hmodulus h, hmeasured]
    simp
  case isFalse hrsa =>
    split at hbuilt
    case isTrue hdsa =>
      obtain rfl := hdsa
      obtain ⟨p, -, hp, -⟩ := calculated_dsa hbuilt hencode
      have hmeasured : measured attrs = some p := by
        rw [measured, htype]
        exact hp
      rw [sizesAgree_dsa hclass hkey htype hp h, hmeasured]
      simp
    case isFalse hdsa =>
      split at hbuilt
      case isFalse => cases hbuilt
      case isTrue hec =>
        obtain rfl := hec
        have hmeasured : measured attrs = none := by
          rw [measured, htype]
          rfl
        refine iff_of_true (sizesAgree_ec hclass hkey htype h) ?_
        rw [hmeasured]
        exact fun value hvalue => absurd hvalue (by simp)

end

-- An RSA key of so few bytes.
def rsaAttributes (modulus : Bytes) : Attributes := [
  ⟨ckaClass, some [2, 0, 0, 0, 0, 0, 0, 0]⟩,
  ⟨ckaKeyType, some [0, 0, 0, 0, 0, 0, 0, 0]⟩,
  ⟨ckaModulus, some modulus⟩,
  ⟨ckaPublicExponent, some [3]⟩]

def noLibrary : Library where
  dsaPublic _ _ _ _ := none
  certificate _     := none

theorem sizesAgree_even : SizesAgree 126 (rsaAttributes [0x81, 5])
    ⟨[48, 28, 48, 13, 6, 9, 42, 134, 72, 134, 247, 13, 1, 1, 1, 5, 0, 3, 11, 0, 48, 8, 2, 3, 0, 129, 5, 2, 1, 3], []⟩ :=
  (@sizesAgree_iff 126 (rsaAttributes [0x81, 5]) noLibrary 2 _ rfl (by decide) (by decide +kernel)).mpr (by decide)

-- Three bytes that start with a set bit are four bytes in the encoding.
theorem not_sizesAgree_odd : encoded noLibrary 126 (rsaAttributes [0x81, 2, 3]) =
      some ⟨[48, 29, 48, 13, 6, 9, 42, 134, 72, 134, 247, 13, 1, 1, 1, 5, 0, 3, 12, 0, 48, 9, 2, 4, 0, 129, 2, 3, 2, 1, 3], []⟩ ∧
    ¬SizesAgree 126 (rsaAttributes [0x81, 2, 3])
      ⟨[48, 29, 48, 13, 6, 9, 42, 134, 72, 134, 247, 13, 1, 1, 1, 5, 0, 3, 12, 0, 48, 9, 2, 4, 0, 129, 2, 3, 2, 1, 3], []⟩ := by
  have hencoded : encoded noLibrary 126 (rsaAttributes [0x81, 2, 3]) =
      some ⟨[48, 29, 48, 13, 6, 9, 42, 134, 72, 134, 247, 13, 1, 1, 1, 5, 0, 3, 12, 0, 48, 9, 2, 4, 0, 129, 2, 3, 2, 1, 3], []⟩ := by
    decide +kernel
  refine ⟨hencoded, fun hagree => ?_⟩
  have hrounded := (@sizesAgree_rsa 126 (rsaAttributes [0x81, 2, 3]) noLibrary 2 _ _ rfl (by decide) rfl rfl hencoded).mp hagree
  revert hrounded
  decide

end SubjectPublicKey
