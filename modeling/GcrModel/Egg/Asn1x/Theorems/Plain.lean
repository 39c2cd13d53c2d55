import GcrModel.Egg.Asn1x.Build
import GcrModel.Egg.Asn1x.Theorems.Reparse
import GcrModel.Egg.Asn1x.Theorems.Simple

-- What is built from nodes without tags, and how it is decoded again.
namespace Asn1x

open GLib

variable {node node' child : GNode} {nodes : List GNode} {tlv ctlv : Atlv} {tlvs : List Atlv} {bytes : GBytes}
variable {octets header : Bytes} {room : Nat}

-- An element that is structured if and only if it has no value, and then it has no children either.
inductive Built : Atlv → Prop
  | mk {tlv : Atlv} : Legible tlv → (tlv.value.isSome → tlv.child = []) → (∀ ctlv ∈ tlv.child, Built ctlv) → Built tlv

theorem Built.allLegible (h : Built tlv) : AllLegible tlv := by
  induction h with
  | mk hlegible _ _ ih => exact .mk hlegible ih

theorem sortCells_unsorted (h : ∀ ctlv ∈ tlvs, ∃ l, atlvSortPerform ctlv = some l ∧ l.toTree = some ctlv) :
    ∃ cells, sortCells tlvs = some cells ∧ toTrees cells = some tlvs ∧ cells.length = tlvs.length := by
  induction tlvs with
  | nil => exact ⟨[], rfl, rfl, rfl⟩
  | cons ctlv tlvs ih =>
    obtain ⟨⟨l, hsort, htree⟩, htlvs⟩ := List.forall_mem_cons.mp h
    obtain ⟨cells, hcells, htrees, hlength⟩ := ih htlvs
    refine ⟨l :: cells, ?_, ?_, ?_⟩
    · rw [sortCells, hsort, hcells]
      rfl
    · rw [toTrees, htree, htrees]
      rfl
    · rw [List.length_cons, List.length_cons, hlength]

-- Where nothing is to be sorted, the tree stays as it is.
theorem Built.sort (h : Built tlv) : ∃ l, atlvSortPerform tlv = some l ∧ l.toTree = some tlv := by
  induction h with
  | @mk tlv hlegible _ _ ih =>
    obtain ⟨cells, hcells, htrees, hlength⟩ := sortCells_unsorted ih
    refine ⟨.mk tlv cells (Chain.inOrder cells.length), ?_, ?_⟩
    · cases tlv with
      | mk cls tag off len value child =>
        rw [atlvSortPerform, hcells, Option.bind_eq_bind, Option.bind_some]
        exact if_pos (by simpa using hlegible.sorted)
    · rw [toTree_mk htrees, hlength, inChain_inOrder, Option.map_some]
      cases tlv
      rfl

theorem atlvUnparseDer_eq (tlv : Atlv) (room : Nat) :
    atlvUnparseDer tlv room = (atlvUnparseClsTagLen tlv.cls tlv.tag tlv.len).bind fun header =>
      if room < header.length ∨ header.length ≠ tlv.off then none
      else (unparseContent tlv (room - header.length)).bind fun content =>
        if room - header.length < content.length then none else some (header ++ content) := by
  cases tlv with
  | mk cls tag off len value child =>
    rw [atlvUnparseDer]
    cases value <;> rfl

-- What is unparsed is a header of the right length and a content, for both of which there is room.
theorem unparseDer_inv (h : atlvUnparseDer tlv room = some octets) :
    ∃ header content, atlvUnparseClsTagLen tlv.cls tlv.tag tlv.len = some header ∧ header.length = tlv.off ∧
      unparseContent tlv (room - header.length) = some content ∧ octets = header ++ content ∧ octets.length ≤ room := by
  rw [atlvUnparseDer_eq, Option.bind_eq_some_iff] at h
  obtain ⟨header, hheader, h⟩ := h
  split at h
  case isTrue  => cases h
  case isFalse hroom =>
    rw [Option.bind_eq_some_iff] at h
    obtain ⟨content, hcontent, h⟩ := h
    split at h
    case isTrue  => cases h
    case isFalse hfits =>
      obtain rfl := Option.some.inj h
      rw [not_or, not_lt, not_not] at hroom
      refine ⟨header, content, hheader, hroom.2, hcontent, rfl, ?_⟩
      rw [List.length_append]
      omega

theorem unparseChildren_inv (h : unparseChildren tlvs room = some octets) :
    (octets.length : Int) = (tlvs.map fun ctlv => ctlv.off + ctlv.len).sum ∧
      ∀ ctlv ∈ tlvs, ∃ room' ≤ room, ∃ octets, atlvUnparseDer ctlv room' = some octets ∧
        (octets.length : Int) = ctlv.off + ctlv.len := by
  induction tlvs generalizing room octets with
  | nil =>
    obtain rfl := Option.some.inj h
    exact ⟨rfl, fun _ hc => absurd hc List.not_mem_nil⟩
  | cons ctlv tlvs ih =>
    rw [unparseChildren, Option.bind_eq_bind, Option.bind_eq_some_iff] at h
    obtain ⟨first, hfirst, h⟩ := h
    split at h
    case isTrue  => cases h
    case isFalse hlen =>
      obtain ⟨others, hothers, h⟩ := Option.bind_eq_some_iff.mp h
      obtain rfl := Option.some.inj h
      obtain ⟨hsum, hall⟩ := ih hothers
      rw [not_not] at hlen
      refine ⟨?_, List.forall_mem_cons.mpr ⟨⟨room, Nat.le_refl _, first, hfirst, by omega⟩, fun c hc => ?_⟩⟩
      · rw [List.length_append, Nat.cast_add, hsum, hlen, List.map_cons, List.sum_cons, Int.add_comm ctlv.len]
      · obtain ⟨room', hle, rest⟩ := hall c hc
        exact ⟨room', Nat.le_trans hle (Nat.sub_le _ _), rest⟩

-- What can be unparsed has the sizes that it says.
theorem Built.wellSized (h : Built tlv) (hunparse : atlvUnparseDer tlv room = some octets)
    (hlen : (octets.length : Int) = tlv.off + tlv.len) (hroom : room < 2 ^ 31) : WellSized tlv := by
  induction h generalizing room octets with
  | @mk tlv hlegible hbare hchildren ih =>
    obtain ⟨header, content, hwritten, hoff, hcontent, rfl, hle⟩ := unparseDer_inv hunparse
    have hheaded : Headed tlv header := ⟨hwritten, hoff, by omega⟩
    rw [List.length_append] at hlen
    cases hvalue : tlv.value with
    | some value =>
      rw [unparseContent, hvalue] at hcontent
      exact .value hheaded hvalue (hbare (by rw [hvalue]; rfl)) hcontent
    | none =>
      rw [unparseContent, hvalue] at hcontent
      obtain ⟨hsum, hall⟩ := unparseChildren_inv hcontent
      refine .children hheaded hvalue (by omega) fun ctlv hc => ?_
      obtain ⟨room', hle', octets, hoctets, hlength⟩ := hall ctlv hc
      exact ih ctlv hc hoctets hlength (by omega)

theorem Built.toBytes (h : Built tlv) (hbytes : atlvUnparseToBytes tlv = some (some bytes)) :
    WellSized tlv ∧ bytes = ⟨der tlv, []⟩ := by
  have hsized : WellSized tlv ∧ bytes.behind = [] := by
    rw [atlvUnparseToBytes, Option.bind_eq_bind, Option.bind_eq_some_iff] at hbytes
    obtain ⟨len, hlen, hbytes⟩ := hbytes
    rw [addGint] at hlen
    split at hlen
    case isFalse => cases hlen
    case isTrue hfits =>
      obtain rfl := Option.some.inj hlen
      split at hbytes
      case isTrue  => cases hbytes
      case isFalse =>
        split at hbytes
        case isTrue  => cases hbytes
        case isFalse =>
          rw [Option.bind_eq_bind, Option.bind_eq_some_iff] at hbytes
          obtain ⟨octets, hoctets, hbytes⟩ := hbytes
          split at hbytes
          case isFalse => cases hbytes
          case isTrue hlength =>
            cases hbytes
            exact ⟨h.wellSized hoctets hlength (by omega), rfl⟩
  obtain ⟨bytes', hencoding, hder⟩ := ((setsSorted_iff hsized.1).mpr h.allLegible.lastGreatest).encoding_eq
  obtain ⟨l, hsort, htree⟩ := h.sort
  rw [encoding, hsort, Option.bind_eq_bind, Option.bind_some, htree, Option.bind_eq_bind, Option.bind_some, hbytes] at hencoding
  obtain rfl := Option.some.inj (Option.some.inj hencoding)
  refine ⟨hsized.1, ?_⟩
  rw [← hder, ← hsized.2]

-- Nodes that are encoded are valid, and the bytes are what was built for them.
theorem encode_inv {now : Nat} (h : eggAsn1xEncode now node = some (node', some bytes)) :
    node' = node ∧ eggAsn1xValidate now node true = some (true, node) ∧ ∃ tlv,
      anodeBuildAnything true node = some (some tlv) ∧ (Built tlv → WellSized tlv ∧ bytes = ⟨der tlv, []⟩) := by
  rw [eggAsn1xEncode] at h
  split at h
  case isTrue  => cases h
  case isFalse =>
    rw [Option.bind_eq_bind, Option.bind_eq_some_iff] at h
    obtain ⟨⟨ok, asn⟩, hvalid, h⟩ := h
    dsimp only at h
    split at h
    case isTrue  => cases h
    case isFalse hok =>
      obtain rfl : ok = true := by simpa using hok
      rw [Option.bind_eq_bind, Option.bind_eq_some_iff] at h
      obtain ⟨tlv, hbuild, h⟩ := h
      cases tlv with
      | none     => cases h
      | some tlv =>
        simp only [Option.bind_eq_bind, Option.bind_eq_some_iff] at h
        obtain ⟨l, hsort, tlv', htree, bytes', hbytes, h⟩ := h
        cases h
        obtain rfl := validate_unchanged hvalid
        refine ⟨rfl, hvalid, tlv, hbuild, fun hbuilt => ?_⟩
        obtain ⟨l', hsort', htree'⟩ := hbuilt.sort
        obtain rfl : l' = l := Option.some.inj (hsort'.symm.trans hsort)
        obtain rfl : tlv' = tlv := Option.some.inj (htree.symm.trans htree')
        obtain ⟨hsized, hder⟩ := hbuilt.toBytes hbytes
        exact ⟨hsized, hder⟩

def Untagged (node : GNode) : Prop :=
  (anodeDefFlags node).contains .tag = false

theorem Untagged.explicit (h : Untagged node) : anodeCalcExplicitForFlags node (anodeDefFlags node) = (false, none) := by
  rw [anodeCalcExplicitForFlags, h]
  rfl

theorem Untagged.calcTag (h : Untagged node) :
    anodeCalcTag node = (anodeDefType node).universalTag (anodeDefFlags node) := by
  rw [anodeCalcTag, anodeCalcTagForFlags, h]
  rfl

theorem Untagged.maybeExplicit (h : Untagged node) (tlv : Option (Option Atlv)) : maybeExplicit node tlv = tlv := by
  obtain _ | _ | tlv := tlv
  · rfl
  · rfl
  · rw [Asn1x.maybeExplicit, Option.bind_some]
    dsimp only
    rw [anodeBuildMaybeExplicit, h.explicit]
    rfl

-- Only the header is filled in.
theorem Untagged.buildClsTagLen (h : Untagged node) {len : Int} {basis : UInt8}
    (hbasis : (anodeDefType node).classBasis = some basis) (hbuild : anodeBuildClsTagLen node ctlv len = some tlv) :
    ∃ off len, tlv = { ctlv with cls := basis, tag := anodeCalcTag node, off := off, len := len } := by
  rw [anodeBuildClsTagLen, Option.bind_eq_bind, Option.bind_eq_some_iff] at hbuild
  obtain ⟨len, -, hbuild⟩ := hbuild
  rw [hbasis, Option.bind_eq_bind, Option.bind_some, classAndFlags, h, if_neg Bool.false_ne_true, Option.bind_eq_bind,
    Option.bind_some, Option.bind_eq_bind, Option.bind_eq_some_iff] at hbuild
  obtain ⟨header, -, hbuild⟩ := hbuild
  exact ⟨_, _, (Option.some.inj hbuild).symm⟩

-- A primitive element that is written with these octets.
structure Leaf (tag : Nat) (octets : Bytes) (tlv : Atlv) : Prop where
  built  : Built tlv
  cls    : tlv.cls = 0
  tag    : tlv.tag = tag
  octets : ∃ value, tlv.value = some value ∧ ∀ written, unparseValue tlv value.data = some written → written = octets

-- What is written of a value.
def writtenValue (tlv : Atlv) (value : Bytes) : Bytes :=
  tlv.prefixes ++ if tlv.prefixForBitString then clearEmpty tlv.bitsEmpty value else value

theorem eq_of_unparseValue {value written : Bytes} (h : unparseValue tlv value = some written) :
    written = writtenValue tlv value := by
  have heq : unparseValue tlv value =
    if (writtenValue tlv value).length = tlv.len then some (writtenValue tlv value) else none := rfl
  rw [heq] at h
  split at h
  case isTrue  => exact (Option.some.inj h).symm
  case isFalse => cases h

theorem Untagged.leaf (h : Untagged node) {len : Int} {value : GBytes} {tag : Nat}
    (hbasis : (anodeDefType node).classBasis = some 0) (htag : anodeCalcTag node = tag) (hlt : tag < 2 ^ 32)
    (hvalue : ctlv.value = some value) (hchild : ctlv.child = []) (hsorted : ctlv.sorted = false)
    (hbuild : anodeBuildClsTagLen node ctlv len = some tlv) : Leaf tag (writtenValue ctlv value.data) tlv := by
  obtain ⟨off, len', rfl⟩ := h.buildClsTagLen hbasis hbuild
  constructor
  case built =>
    refine .mk ⟨UInt8.zero_and, iff_of_true UInt8.zero_and (by simp [hvalue]), by simpa [htag] using hlt, hsorted⟩
      (fun _ => hchild) fun c hc => ?_
    rw [hchild] at hc
    cases hc
  case cls => rfl
  case tag => exact htag
  case octets => exact ⟨value, hvalue, fun written => eq_of_unparseValue⟩

-- The octets of a value that is an integer without a sign.
def usgOctets (value : Bytes) : Bytes :=
  if value.head?.any (· &&& 0x80 ≠ 0) then 0 :: value else value

variable {data : Anode} {children : List GNode} {value : Bytes}

-- There is something to build for an integer without a sign, unless it has no bytes.
theorem build_usg (h : Untagged (.mk data children)) (htype : data.type = .integer)
    (hvalue : data.value = some ⟨value, []⟩) (husg : data.guaranteeUnsigned = true) {built : Option Atlv}
    (hbuild : anodeBuildAnything true (.mk data children) = some built) :
    ∃ tlv, built = some tlv ∧ Leaf 2 (usgOctets value) tlv ∧ value ≠ [] := by
  have hbasis : (anodeDefType (.mk data children)).classBasis = some 0 := by rw [anodeDefType, GNode.data_mk, htype]; rfl
  have htag : anodeCalcTag (.mk data children) = 2 := by rw [h.calcTag, anodeDefType, GNode.data_mk, htype]; rfl
  rw [anodeBuildAnything] at hbuild
  simp only [htype] at hbuild
  rw [h.maybeExplicit, anodeBuildInteger] at hbuild
  simp only [GNode.data_mk, hvalue, husg, if_true, GBytes.memory, List.append_nil] at hbuild
  cases value with
  | nil         => cases hbuild
  | cons c rest =>
    obtain ⟨tlv, hhead, rfl⟩ := Option.map_eq_some_iff.mp hbuild
    have hleaf := h.leaf hbasis htag (by decide) rfl rfl rfl hhead
    refine ⟨tlv, rfl, ?_, List.cons_ne_nil _ _⟩
    rw [usgOctets, List.head?_cons, Option.any_some]
    by_cases hsign : c &&& 0x80 ≠ 0
    · simpa [writtenValue, Atlv.prefixes, hsign, newAtlv] using hleaf
    · simpa [writtenValue, Atlv.prefixes, hsign, newAtlv] using hleaf

-- A value that is written as it is.
theorem build_value (h : Untagged (.mk data children)) (htype : data.type = .objectId ∨ data.type = .null)
    {value : GBytes} (hvalue : data.value = some value) {built : Option Atlv}
    (hbuild : anodeBuildAnything true (.mk data children) = some built) :
    ∃ tlv, built = some tlv ∧ Leaf (anodeCalcTag (.mk data children)) value.data tlv := by
  have hbuild : (anodeBuildClsTagLen (.mk data children) { newAtlv with value := some value } value.size).map some =
      some built := by
    rw [anodeBuildAnything] at hbuild
    obtain htype | htype := htype
    all_goals
      simp only [htype] at hbuild
      rw [h.maybeExplicit, anodeBuildValue] at hbuild
      simpa only [GNode.data_mk, hvalue] using hbuild
  obtain ⟨tlv, hhead, rfl⟩ := Option.map_eq_some_iff.mp hbuild
  refine ⟨tlv, rfl, h.leaf ?_ rfl ?_ rfl rfl rfl hhead⟩
  · obtain htype | htype := htype
    all_goals
      rw [anodeDefType, GNode.data_mk, htype]
      rfl
  · rw [h.calcTag, anodeDefType, GNode.data_mk]
    obtain htype | htype := htype
    all_goals
      rw [htype, EggAsn1xType.universalTag]
      decide

theorem build_bits (h : Untagged (.mk data children)) (htype : data.type = .bitString) {value : GBytes}
    (hvalue : data.value = some value) (hempty : data.bitsEmpty = 0) {built : Option Atlv}
    (hbuild : anodeBuildAnything true (.mk data children) = some built) :
    ∃ tlv, built = some tlv ∧ Leaf 3 (0 :: value.data) tlv := by
  have hbasis : (anodeDefType (.mk data children)).classBasis = some 0 := by rw [anodeDefType, GNode.data_mk, htype]; rfl
  have htag : anodeCalcTag (.mk data children) = 3 := by rw [h.calcTag, anodeDefType, GNode.data_mk, htype]; rfl
  rw [anodeBuildAnything] at hbuild
  simp only [htype] at hbuild
  rw [h.maybeExplicit, anodeBuildBitString] at hbuild
  simp only [GNode.data_mk, hvalue, hempty] at hbuild
  obtain ⟨tlv, hhead, rfl⟩ := Option.map_eq_some_iff.mp hbuild
  have hleaf := h.leaf hbasis htag (by decide) rfl rfl rfl hhead
  exact ⟨tlv, rfl, by simpa [writtenValue, Atlv.prefixes, clearEmpty] using hleaf⟩

-- A structured element with these children.
structure Branch (tlvs : List Atlv) (tlv : Atlv) : Prop where
  cls   : tlv.cls = classStructured
  tag   : tlv.tag = 0x10
  value : tlv.value = none
  child : tlv.child = tlvs

theorem build_sequence (h : Untagged (.mk data children)) (htype : data.type = .sequence)
    (hoption : data.flags.contains .option = false) {built : Option Atlv}
    (hbuild : anodeBuildAnything true (.mk data children) = some built) :
    ∃ tlv tlvs, built = some tlv ∧ buildChildren true children = some tlvs ∧ Branch tlvs tlv ∧
      ((∀ ctlv ∈ tlvs, Built ctlv) → Built tlv) := by
  have hbasis : (anodeDefType (.mk data children)).classBasis = some classStructured := by
    rw [anodeDefType, GNode.data_mk, htype]
    rfl
  have htag : anodeCalcTag (.mk data children) = 0x10 := by rw [h.calcTag, anodeDefType, GNode.data_mk, htype]; rfl
  rw [anodeBuildAnything] at hbuild
  simp only [htype] at hbuild
  rw [h.maybeExplicit, Option.bind_eq_some_iff] at hbuild
  obtain ⟨tlvs, htlvs, hbuild⟩ := hbuild
  rw [buildStructured] at hbuild
  split at hbuild
  case isTrue hnone => exact absurd hnone.2 (by simp only [hoption]; simp)
  case isFalse =>
    simp only [Option.bind_eq_bind, Option.bind_eq_some_iff] at hbuild
    obtain ⟨len, -, tlv', hhead, heq⟩ := hbuild
    obtain rfl := Option.some.inj heq
    obtain ⟨off, len, rfl⟩ := h.buildClsTagLen hbasis hhead
    have hsorted : (decide (anodeDefType (.mk data children) = .setOf)) = false := by
      rw [anodeDefType, GNode.data_mk, htype]
      rfl
    have hcls : classStructured &&& 0xE0 = classStructured := rfl
    have hstructured : ¬classStructured &&& classStructured = 0 := by decide
    refine ⟨_, tlvs, rfl, htlvs, ⟨rfl, htag, rfl, rfl⟩, fun hbuilt => ?_⟩
    exact .mk ⟨hcls, iff_of_false hstructured (by simp [newAtlv]), by simp [htag], hsorted⟩ (by simp [newAtlv]) hbuilt

theorem buildChildren_cons (h : buildChildren true (child :: nodes) = some tlvs) :
    ∃ ctlv rest, anodeBuildAnything true child = some ctlv ∧ buildChildren true nodes = some rest ∧
      tlvs = ctlv.toList ++ rest := by
  rw [buildChildren, Option.bind_eq_bind, Option.bind_eq_some_iff] at h
  obtain ⟨ctlv, hctlv, h⟩ := h
  obtain ⟨rest, hrest, h⟩ := Option.bind_eq_some_iff.mp h
  exact ⟨ctlv, rest, hctlv, hrest, (Option.some.inj h).symm⟩

-- A primitive element that was parsed.
structure Primitive (tag : Nat) (octets : Bytes) (tlv : Atlv) : Prop where
  cls   : tlv.cls = 0
  tag   : tlv.tag = tag
  child : tlv.child = []
  value : ∃ behind, tlv.value = some ⟨octets, behind⟩

theorem Leaf.parsed {tag : Nat} (h : Leaf tag octets tlv) (hp : ParsedAs tlv ctlv) : Primitive tag octets ctlv := by
  obtain ⟨value, hvalue, hwritten⟩ := h.octets
  cases hp with
  | value hvalue' hoctets =>
    obtain rfl := Option.some.inj (hvalue.symm.trans hvalue')
    obtain rfl := hwritten _ hoctets
    exact ⟨h.cls, h.tag, rfl, _, rfl⟩
  | children hnone _ => rw [hvalue] at hnone; cases hnone

theorem Branch.parsed (h : Branch tlvs tlv) (hp : ParsedAs tlv ctlv) :
    ∃ children, Branch children ctlv ∧ List.Forall₂ ParsedAs tlvs children := by
  cases hp with
  | value hvalue _ => rw [h.value] at hvalue; cases hvalue
  | children _ hchildren =>
    rw [h.child] at hchildren
    exact ⟨_, ⟨h.cls, h.tag, rfl, rfl⟩, hchildren⟩

theorem Untagged.decodeOne (h : Untagged node) :
    anodeDecodeOneWithoutTag node tlv (anodeDefFlags node) =
      (if tlv.cls &&& classStructured ≠ 0 then anodeDecodeStructured node tlv else anodeDecodePrimitive node tlv).map
        fun (ok, node) => (ok, markParsed ok tlv node) := by
  rw [anodeDecodeOneWithoutTag, h.explicit, if_neg Bool.false_ne_true]
  split
  case isTrue  => cases anodeDecodeStructured node tlv <;> rfl
  case isFalse => cases anodeDecodePrimitive node tlv <;> rfl

def marked (node : GNode) (tlv : Atlv) : GNode :=
  node.modify ({ · with parsed := some tlv })

theorem Primitive.decodeOne {tag : Nat} (h : Primitive tag octets tlv) (hu : Untagged node)
    (hdecode : anodeDecodePrimitive node tlv = some (true, node')) :
    anodeDecodeOneWithoutTag node tlv (anodeDefFlags node) = some (true, marked node' tlv) := by
  rw [hu.decodeOne, h.cls, if_neg (by decide), hdecode]
  rfl

theorem Primitive.decode_value {tag : Nat} (h : Primitive tag octets tlv) (hu : Untagged node)
    (htype : anodeDefType node = .integer ∨ anodeDefType node = .objectId) :
    anodeDecodeOneWithoutTag node tlv (anodeDefFlags node) = some (true, marked (anodeSetValue node tlv.value) tlv) := by
  refine h.decodeOne hu ?_
  rw [anodeDecodePrimitive, h.child]
  obtain htype | htype := htype
  all_goals
    rw [htype]
    rfl

theorem Primitive.decode_bits (h : Primitive 3 (0 :: octets) tlv) (hu : Untagged node)
    (htype : anodeDefType node = .bitString) :
    ∃ behind, anodeDecodeOneWithoutTag node tlv (anodeDefFlags node) =
      some (true, marked (node.modify fun an => { an.takeValue ⟨octets, behind⟩ with bitsEmpty := 0 }) tlv) := by
  obtain ⟨behind, hvalue⟩ := h.value
  refine ⟨behind, h.decodeOne hu ?_⟩
  rw [anodeDecodePrimitive, h.child, htype]
  simp only [List.isEmpty_nil, not_true_eq_false, if_false, anodeDecodeBitString, hvalue]
  have hlast : octets.getLast?.any (· &&& UInt8.ofNat (0xFF >>> (8 - (0 : UInt8).toNat)) ≠ 0) = false := by
    cases octets.getLast? <;> simp
  rw [if_neg (by decide), if_neg (by rw [hlast]; exact Bool.false_ne_true)]
  rfl

-- An open type takes any element.
theorem decode_any (hu : Untagged node) (htype : anodeDefType node = .any)
    (hchild : tlv.cls &&& classStructured = 0 → tlv.child = []) :
    anodeDecodeOneWithoutTag node tlv (anodeDefFlags node) = some (true, marked node tlv) := by
  rw [hu.decodeOne]
  split
  case isTrue =>
    rw [anodeDecodeStructured, htype]
    rfl
  case isFalse hcls =>
    rw [anodeDecodePrimitive, hchild (not_not.mp hcls), htype]
    rfl

theorem Branch.decode_sequence (h : Branch tlvs tlv) (hu : Untagged node) (htype : anodeDefType node = .sequence)
    (hne : node.children ≠ []) (hdecode : anodeDecodeAnything node.children tlvs = some (true, nodes)) :
    anodeDecodeOneWithoutTag node tlv (anodeDefFlags node) = some (true, marked (node.setChildren nodes) tlv) := by
  rw [hu.decodeOne, h.cls, if_pos (by decide), anodeDecodeStructured, htype]
  dsimp only
  rw [anodeDecodeSequenceOrSet, tagsAscend, if_neg (by simp [htype]), Option.bind_eq_bind, Option.bind_some,
    if_neg (by simp), if_neg (by simpa using hne), h.child, hdecode]
  rfl

theorem decodeAnything_step (htag : anodeCalcTag node = maxUlong ∨ anodeCalcTag node = tlv.tag)
    (hone : anodeDecodeOneWithoutTag node tlv (anodeDefFlags node) = some (true, child)) {rest children : List GNode}
    (hmore : rest = [] → tlvs = []) (hrest : anodeDecodeAnything rest tlvs = some (true, children)) :
    anodeDecodeAnything (node :: rest) (tlv :: tlvs) = some (true, child :: children) := by
  rw [anodeDecodeAnything]
  dsimp only
  rw [if_neg (by tauto), hone, Option.bind_eq_bind, Option.bind_some]
  dsimp only
  rw [if_neg (by simp), if_neg (by simpa using hmore), hrest]
  rfl

theorem decodeAnything_nil : anodeDecodeAnything [] [] = some (true, []) := by
  rw [anodeDecodeAnything]

-- What was unparsed is decoded into the nodes that it is parsed for.
theorem decode_unparsed (now : Nat) (hbuilt : Built tlv) (hsized : WellSized tlv) (hclear : eggAsn1xClear node = node)
    (htag : anodeCalcTag node = maxUlong ∨ anodeCalcTag node = tlv.tag) (behind : Bytes) :
    ∃ parsed, ParsedAs tlv parsed ∧ ∀ child,
      anodeDecodeOneWithoutTag node parsed (anodeDefFlags node) = some (true, child) →
        eggAsn1xDecode now node ⟨der tlv, behind⟩ = eggAsn1xValidate now child true := by
  obtain ⟨parsed, hparsed, hparse⟩ := parseDer_unparsed hsized hbuilt.allLegible behind
  have htag' : parsed.tag = tlv.tag := by cases hparsed <;> rfl
  refine ⟨parsed, hparsed, fun child hone => ?_⟩
  rw [eggAsn1xDecode, eggAsn1xDecodeFull, hclear, hparse, Option.bind_eq_bind, Option.bind_some]
  dsimp only
  rw [decodeAnything_step (htag' ▸ htag) hone (fun _ => rfl) decodeAnything_nil]
  rfl

theorem validateChildren_all {now : Nat} {strict : Bool}
    (h : ∀ child ∈ nodes, anodeValidateAnything now strict child = some (true, child)) :
    validateChildren now strict false nodes = some (true, nodes) := by
  induction nodes with
  | nil => rfl
  | cons child nodes ih =>
    obtain ⟨hchild, hnodes⟩ := List.forall_mem_cons.mp h
    rw [validateChildren, if_neg (by simp), hchild, Option.bind_eq_bind, Option.bind_some]
    dsimp only
    rw [if_neg (by simp), ih hnodes]
    rfl

theorem validate_sequence {now : Nat} {strict : Bool} (htype : data.type = .sequence)
    (hflags : data.flags.contains .option = false)
    (h : ∀ child ∈ children, anodeValidateAnything now strict child = some (true, child)) :
    anodeValidateAnything now strict (.mk data children) = some (true, .mk data children) := by
  rw [anodeValidateAnything, htype]
  dsimp only
  rw [if_neg fun hskip => Bool.false_ne_true (hflags.symm.trans hskip.1), validateChildren_all h]
  rfl

-- A node for an integer of any size.
structure IntegerField (data : Anode) : Prop where
  type     : data.type = .integer
  untagged : data.flags.contains .tag = false
  list     : data.flags.contains .list = false

-- The node with a value that is set, the one that has none, and the one that an element is decoded into.
def usgNode (field : Anode × Bytes) : GNode :=
  eggAsn1xTakeIntegerAsUsg (.mk field.1 []) ⟨field.2, []⟩

def blankNode (field : Anode × Bytes) : GNode :=
  .mk field.1 []

def integerNode (field : Anode × Bytes) (tlv : Atlv) : GNode :=
  marked (anodeSetValue (blankNode field) tlv.value) tlv

variable {field : Anode × Bytes} {fields : List (Anode × Bytes)}

theorem usgNode_eq (h : IntegerField field.1) :
    usgNode field = .mk { field.1.takeValue ⟨field.2, []⟩ with guaranteeUnsigned := true } [] := by
  have htype : ¬anodeDefType (.mk field.1 []) ≠ .integer := not_not.mpr h.type
  rw [usgNode, eggAsn1xTakeIntegerAsUsg, if_neg htype]
  rfl

theorem build_usgNode (h : IntegerField field.1) {built : Option Atlv}
    (hbuild : anodeBuildAnything true (usgNode field) = some built) :
    ∃ tlv, built = some tlv ∧ Leaf 2 (usgOctets field.2) tlv ∧ field.2 ≠ [] := by
  rw [usgNode_eq h] at hbuild
  have hu : Untagged (.mk { field.1.takeValue ⟨field.2, []⟩ with guaranteeUnsigned := true } []) := h.untagged
  exact build_usg hu h.type rfl rfl hbuild

theorem build_integers (hfields : ∀ field ∈ fields, IntegerField field.1)
    (hbuild : buildChildren true (fields.map usgNode) = some tlvs) :
    List.Forall₂ (fun field tlv => Leaf 2 (usgOctets field.2) tlv ∧ field.2 ≠ []) fields tlvs := by
  induction fields generalizing tlvs with
  | nil =>
    obtain rfl := Option.some.inj hbuild
    exact .nil
  | cons field fields ih =>
    obtain ⟨hfield, hfields⟩ := List.forall_mem_cons.mp hfields
    obtain ⟨ctlv, rest, hctlv, hrest, rfl⟩ := buildChildren_cons hbuild
    obtain ⟨tlv, rfl, hleaf⟩ := build_usgNode hfield hctlv
    exact .cons hleaf (ih hfields hrest)

theorem decode_integers (hfields : ∀ field ∈ fields, IntegerField field.1)
    (h : List.Forall₂ (fun field tlv => Primitive 2 (usgOctets field.2) tlv) fields tlvs) :
    anodeDecodeAnything (fields.map blankNode) tlvs = some (true, List.zipWith integerNode fields tlvs) := by
  induction h with
  | nil => exact decodeAnything_nil
  | @cons field tlv fields tlvs hp hrest ih =>
    obtain ⟨hfield, hfields⟩ := List.forall_mem_cons.mp hfields
    have hu : Untagged (blankNode field) := hfield.untagged
    refine decodeAnything_step (.inr ?_) (hp.decode_value hu (.inl hfield.type)) (fun hnil => ?_) (ih hfields)
    · rw [hu.calcTag, hp.tag, show anodeDefType (blankNode field) = .integer from hfield.type]
      rfl
    · obtain rfl := List.map_eq_nil_iff.mp hnil
      cases hrest
      rfl

theorem valid_integers {now : Nat} {strict : Bool} (hfields : ∀ field ∈ fields, IntegerField field.1)
    (h : List.Forall₂ (fun field tlv => Primitive 2 (usgOctets field.2) tlv ∧ field.2 ≠ []) fields tlvs) :
    ∀ child ∈ List.zipWith integerNode fields tlvs, anodeValidateAnything now strict child = some (true, child) := by
  induction h with
  | nil => exact fun child hc => absurd hc List.not_mem_nil
  | @cons field tlv fields tlvs hp _ ih =>
    obtain ⟨hfield, hfields⟩ := List.forall_mem_cons.mp hfields
    refine List.forall_mem_cons.mpr ⟨?_, ih hfields⟩
    obtain ⟨behind, hvalue⟩ := hp.1.value
    have htype : anodeDefType (integerNode field tlv) = .integer := hfield.type
    have hset : (integerNode field tlv).data.value = some ⟨usgOctets field.2, behind⟩ := hvalue
    have hne : usgOctets field.2 ≠ [] := by
      rw [usgOctets]
      split
      · exact List.cons_ne_nil _ _
      · exact hp.2
    have hlist : ¬(anodeDefFlags (integerNode field tlv)).contains .list = true := by
      rw [show (anodeDefFlags (integerNode field tlv)).contains .list = false from hfield.list]
      exact Bool.false_ne_true
    rw [show anodeValidateAnything now strict (integerNode field tlv) =
        eggAsn1xValidate now (integerNode field tlv) strict from rfl, validate_value hset (by simp [htype]),
      anodeValidateValue, htype]
    dsimp only
    rw [anodeValidateInteger, if_neg hne, if_neg hlist]

theorem built_integers (h : List.Forall₂ (fun field tlv => Leaf 2 (usgOctets field.2) tlv ∧ field.2 ≠ []) fields tlvs) :
    ∀ ctlv ∈ tlvs, Built ctlv := by
  induction h with
  | nil            => exact fun _ hc => absurd hc List.not_mem_nil
  | cons hleaf _ ih => exact List.forall_mem_cons.mpr ⟨hleaf.1.built, ih⟩

theorem parsed_integers {children : List Atlv}
    (h : List.Forall₂ (fun field tlv => Leaf 2 (usgOctets field.2) tlv ∧ field.2 ≠ []) fields tlvs)
    (hparsed : List.Forall₂ ParsedAs tlvs children) :
    List.Forall₂ (fun field tlv => Primitive 2 (usgOctets field.2) tlv ∧ field.2 ≠ []) fields children := by
  induction h generalizing children with
  | nil =>
    cases hparsed
    exact .nil
  | cons hleaf _ ih =>
    cases hparsed with
    | cons hp hrest => exact .cons ⟨hleaf.1.parsed hp, hleaf.2⟩ (ih hrest)

-- The integers that a SEQUENCE of them is decoded into are the octets that were written.
theorem integers_sequence (now : Nat) (htype : data.type = .sequence) (htag : data.flags.contains .tag = false)
    (hoption : data.flags.contains .option = false) (hfields : ∀ field ∈ fields, IntegerField field.1) (hne : fields ≠ [])
    {built : Option Atlv} (hbuild : anodeBuildAnything true (.mk data (fields.map usgNode)) = some built) :
    ∃ tlv, built = some tlv ∧ Built tlv ∧ tlv.tag = 0x10 ∧ ∀ parsed, ParsedAs tlv parsed →
      ∃ tlvs, List.Forall₂ (fun field tlv => Primitive 2 (usgOctets field.2) tlv) fields tlvs ∧
        anodeDecodeOneWithoutTag (.mk data (fields.map blankNode)) parsed data.flags =
          some (true, marked (.mk data (List.zipWith integerNode fields tlvs)) parsed) ∧
        eggAsn1xValidate now (marked (.mk data (List.zipWith integerNode fields tlvs)) parsed) true =
          some (true, marked (.mk data (List.zipWith integerNode fields tlvs)) parsed) := by
  obtain ⟨tlv, tlvs, rfl, htlvs, hbranch, hbuilt⟩ := build_sequence htag htype hoption hbuild
  have hleaves := build_integers hfields htlvs
  refine ⟨tlv, rfl, hbuilt (built_integers hleaves), hbranch.tag, fun parsed hparsed => ?_⟩
  obtain ⟨children, hbranch', hchildren⟩ := hbranch.parsed hparsed
  have hprimitives := parsed_integers hleaves hchildren
  have hprimitive := hprimitives.imp fun _ _ h => h.1
  refine ⟨children, hprimitive, ?_, ?_⟩
  · have hu : Untagged (.mk data (fields.map blankNode)) := htag
    exact hbranch'.decode_sequence hu htype (by simpa using hne) (decode_integers hfields hprimitive)
  · exact validate_sequence htype hoption (valid_integers hfields hprimitives)

end Asn1x
