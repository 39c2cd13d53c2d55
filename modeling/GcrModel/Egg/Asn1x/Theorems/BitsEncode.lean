import GcrModel.Egg.Asn1x.Theorems.Bits

-- Bit strings that are encoded and decoded.
namespace Asn1x

open GLib

variable {asn asn' node node' : GNode} {tlv ctlv parsed : Atlv} {buf header : Bytes} {cls : UInt8} {flags : List Flag}
variable {bits nBits now tag : Nat}

-- The tag of a node is read again, and an explicit one is known from its class.
structure TagKept (node : GNode) : Prop where
  number : anodeCalcTag node < 2 ^ 32
  cls    : ∀ c, anodeCalcExplicitForFlags node (anodeDefFlags node) = (true, some c) → c &&& classContextSpecific ≠ 0

-- A node with bits that an `unsigned long` has room for.
structure HasBits (node : GNode) (buf : Bytes) : Prop where
  type  : anodeDefType node = .bitString
  value : ∃ behind, node.data.value = some ⟨buf, behind⟩
  size  : buf.length ≤ 8
  empty : node.data.bitsEmpty < 8
  zero  : ZeroAtEnd node.data.bitsEmpty buf

-- The element that is built for it.
def bitsElement (node : GNode) (buf : Bytes) (cls : UInt8) (tag : Nat) (header : Bytes) : Atlv where
  cls                := cls
  tag                := tag
  off                := header.length
  len                := buf.length + 1
  value              := node.data.value
  bitsEmpty          := node.data.bitsEmpty
  prefixForBitString := true

def wrapElement (cls : UInt8) (tag : Nat) (header : Bytes) (tlv : Atlv) : Atlv where
  cls   := classStructured ||| cls
  tag   := tag
  off   := header.length
  len   := tlv.off + tlv.len
  child := [tlv]

theorem bitsOctets_zeroAtEnd (bits nBits : Nat) : ZeroAtEnd (emptyBits nBits) (bitsOctets bits nBits) := by
  have hlt := emptyBits_lt nBits
  rw [bitsOctets]
  cases nBits / 8 + if emptyBits nBits ≠ 0 then 1 else 0 with
  | zero => simp [ZeroAtEnd, Radix.fixed]
  | succ k =>
    have hdvd : 2 ^ emptyBits nBits ∣ 256 := Nat.pow_dvd_pow 2 (show emptyBits nBits ≤ 8 by omega)
    have hdvd' : 2 ^ emptyBits nBits ∣ 2 ^ 64 := Nat.pow_dvd_pow 2 (by omega)
    intro c hc
    obtain rfl : UInt8.ofNat (bits * 2 ^ emptyBits nBits % 2 ^ 64 % 256) = c := by simpa [Radix.fixed] using hc
    rw [toNat_ofNat_of_lt (Nat.mod_lt _ (by decide)), Nat.mod_mod_of_dvd _ hdvd, Nat.mod_mod_of_dvd _ hdvd',
      Nat.mul_mod_left]

theorem clearEmpty_eq {empty : Nat} (h : empty < 8) (hzero : ZeroAtEnd empty buf) : clearEmpty empty buf = buf := by
  rw [clearEmpty]
  split
  case isFalse => rfl
  case isTrue =>
    cases buf using List.reverseRecOn with
    | nil => rfl
    | append_singleton buf c =>
      rw [List.modifyLast_concat, and_not_mask c h (hzero c (by simp))]

theorem HasBits.unparse (h : HasBits node buf) (cls : UInt8) (tag : Nat) (header : Bytes) :
    unparseValue (bitsElement node buf cls tag header) buf = some (UInt8.ofNat node.data.bitsEmpty :: buf) := by
  have hclear := clearEmpty_eq h.empty h.zero
  rw [unparseValue]
  simp [bitsElement, Atlv.prefixes, hclear]

theorem HasBits.build (h : HasBits node buf) :
    anodeBuildBitString node = (classAndFlags node 0).bind fun (cls, flags) =>
      (atlvUnparseClsTagLen cls (anodeCalcTagForFlags node flags) (buf.length + 1)).map fun header =>
        some (bitsElement node buf cls (anodeCalcTagForFlags node flags) header) := by
  obtain ⟨behind, hvalue⟩ := h.value
  have hsize : GBytes.size ⟨buf, behind⟩ = buf.length := by
    have hle := h.size
    change toGint (buf.length % 2 ^ 32) = _
    rw [Nat.mod_eq_of_lt (by omega), toGint, if_pos (by omega)]
  have hadd : addGint (buf.length : Int) 1 = some (buf.length + 1 : Int) := by
    have hle := h.size
    rw [addGint, if_pos (by omega)]
  have hbasis : EggAsn1xType.bitString.classBasis = some 0x00 := rfl
  rw [anodeBuildBitString, hvalue]
  dsimp only
  rw [hsize, anodeBuildClsTagLen, h.type, hbasis, if_pos (.inl rfl), hadd]
  simp only [Option.bind_eq_bind, Option.bind_some]
  cases classAndFlags node 0 with
  | none => rfl
  | some p =>
    obtain ⟨cls, flags⟩ := p
    simp only [Option.bind_some]
    cases atlvUnparseClsTagLen cls (anodeCalcTagForFlags node flags) (buf.length + 1) with
    | none        => rfl
    | some header => simp [bitsElement, newAtlv, hvalue]

theorem setBitsAsUlong_hasBits (hnode : anodeDefType node = .bitString) (h : nBits ≤ 64) :
    HasBits (eggAsn1xSetBitsAsUlong node bits nBits) (bitsOctets bits nBits) := by
  obtain ⟨behind, heq⟩ := @setBitsAsUlong_eq node bits nBits hnode h
  have hcount := octets_bits nBits
  have hlt := emptyBits_lt nBits
  rw [heq]
  refine ⟨hnode, ⟨behind, rfl⟩, ?_, hlt, bitsOctets_zeroAtEnd bits nBits⟩
  rw [bitsOctets, List.length_map, Radix.length_fixed]
  omega

-- The classes of tags.
def tagClasses : List UInt8 :=
  [0x00, 0x40, 0xC0, 0x80]

-- How the tag of a bit string is written: as its own, around the universal one, or not at all.
inductive TagForm (node : GNode) : Prop
  | bare {c : UInt8} {flags : List Flag} : (anodeCalcExplicitForFlags node (anodeDefFlags node)).1 = false →
    classAndFlags node 0 = some (c, flags) → anodeCalcTagForFlags node flags = anodeCalcTag node → c ∈ tagClasses →
    TagForm node
  | wrapped {c : UInt8} : anodeCalcExplicitForFlags node (anodeDefFlags node) = (true, some c) →
    classAndFlags node 0 = some (0, withoutTag (anodeDefFlags node)) →
    anodeCalcTagForFlags node (withoutTag (anodeDefFlags node)) = 3 → c ∈ tagClasses → TagForm node
  | missing : classAndFlags node 0 = none → anodeCalcTag node = maxUlong → TagForm node

theorem tagForm (hnode : anodeDefType node = .bitString) : TagForm node := by
  by_cases htag : (anodeDefFlags node).contains .tag = true
  case neg =>
    have hexplicit : anodeCalcExplicitForFlags node (anodeDefFlags node) = (false, none) := by
      rw [anodeCalcExplicitForFlags, if_pos htag]
    refine @TagForm.bare _ 0 (anodeDefFlags node) (by rw [hexplicit]) ?_ rfl (by decide)
    rw [classAndFlags]
    exact if_neg htag
  case pos =>
    have htagged : anodeCalcTag node = ((anodeOptLookup node .tag none).map anodeDefValueAsUlong).getD maxUlong := by
      rw [anodeCalcTag, anodeCalcTagForFlags, if_pos htag]
    cases hopt : anodeOptLookup node .tag none with
    | none =>
      have hexplicit : anodeCalcExplicitForFlags node (anodeDefFlags node) = (false, none) := by
        rw [anodeCalcExplicitForFlags, if_neg (not_not.mpr htag), hopt]
      refine .missing ?_ (by rw [htagged, hopt]; rfl)
      rw [classAndFlags, if_pos htag, hexplicit]
    | some opt =>
      obtain ⟨explicit, c, hexplicit, hc⟩ : ∃ explicit c,
          anodeCalcExplicitForFlags node (anodeDefFlags node) = (explicit, some c) ∧ c ∈ tagClasses := by
        rw [anodeCalcExplicitForFlags, if_neg (not_not.mpr htag), hopt]
        refine ⟨_, _, rfl, ?_⟩
        split
        case isTrue => decide
        case isFalse =>
          split
          case isTrue => decide
          case isFalse =>
            split
            all_goals decide
      cases explicit with
      | false =>
        refine @TagForm.bare _ c (anodeDefFlags node) (by rw [hexplicit]) ?_ rfl hc
        rw [classAndFlags, if_pos htag, hexplicit]
        exact congrArg some (congrArg (·, anodeDefFlags node) UInt8.zero_or)
      | true =>
        refine .wrapped hexplicit ?_ ?_ hc
        · rw [classAndFlags, if_pos htag, hexplicit]
        · rw [anodeCalcTagForFlags, withoutTag_notMem, if_neg (by simp), hnode]
          rfl

theorem class_of_mem (h : cls ∈ tagClasses) : cls &&& 0xE0 = cls ∧ cls &&& classStructured = 0 ∧
    (classStructured ||| cls) &&& 0xE0 = classStructured ||| cls ∧ (classStructured ||| cls) &&& classStructured ≠ 0 ∧
    ((classStructured ||| cls) &&& classContextSpecific = 0 ↔ cls &&& classContextSpecific = 0) := by
  have hall : ∀ c ∈ tagClasses, c &&& 0xE0 = c ∧ c &&& classStructured = 0 ∧
      (classStructured ||| c) &&& 0xE0 = classStructured ||| c ∧ (classStructured ||| c) &&& classStructured ≠ 0 ∧
      ((classStructured ||| c) &&& classContextSpecific = 0 ↔ c &&& classContextSpecific = 0) := by decide +kernel
  exact hall cls h

theorem HasBits.wellSized (h : HasBits node buf)
    (hheader : atlvUnparseClsTagLen cls tag (buf.length + 1 : Nat) = some header) :
    WellSized (bitsElement node buf cls tag header) := by
  obtain ⟨behind, hvalue⟩ := h.value
  have hsize := h.size
  have hlen := length_header_le (show buf.length + 1 < 2 ^ 31 by omega) hheader
  refine .value ⟨hheader, rfl, ?_⟩ hvalue rfl (h.unparse cls tag header)
  change (header.length : Int) + (buf.length + 1) < 2 ^ 31
  omega

theorem HasBits.allLegible (h : HasBits node buf) (hcls : cls ∈ tagClasses) (htag : tag < 2 ^ 32) :
    AllLegible (bitsElement node buf cls tag header) := by
  obtain ⟨behind, hvalue⟩ := h.value
  obtain ⟨hbits, hprimitive, -⟩ := class_of_mem hcls
  refine .mk ⟨hbits, iff_of_true hprimitive ?_, htag, rfl⟩ (by simp [bitsElement])
  simp [bitsElement, hvalue]

theorem wrap_wellSized (h : WellSized tlv) (hsmall : tlv.off + tlv.len < 2 ^ 30)
    (hheader : atlvUnparseClsTagLen (classStructured ||| cls) tag (tlv.off + tlv.len) = some header) :
    WellSized (wrapElement cls tag header tlv) := by
  obtain ⟨inner, content, hheaded, -, hlen, -⟩ := h.encoded
  have hoff := hheaded.off
  obtain ⟨n, hn⟩ : ∃ n : Nat, tlv.off + tlv.len = n := ⟨inner.length + content.length, by rw [← hoff, ← hlen, Nat.cast_add]⟩
  have hwritten := hheader
  rw [hn] at hheader hsmall
  have hle := length_header_le (show n < 2 ^ 31 by omega) hheader
  refine @WellSized.children _ header ⟨hwritten, rfl, ?_⟩ rfl (by simp [wrapElement]) (by simpa [wrapElement] using h)
  change (header.length : Int) + (tlv.off + tlv.len) < 2 ^ 31
  omega

theorem wrap_allLegible (h : AllLegible tlv) (hcls : cls ∈ tagClasses) (htag : tag < 2 ^ 32) :
    AllLegible (wrapElement cls tag header tlv) := by
  obtain ⟨-, -, hbits, hstructured, -⟩ := class_of_mem hcls
  refine .mk ⟨hbits, iff_of_false hstructured ?_, htag, rfl⟩ ?_
  · simp [wrapElement]
  · simpa [wrapElement] using h

-- The root is valid, and what is built for it is sorted and unparsed.
theorem HasBits.encode_eq (h : HasBits node buf) (now : Nat) :
    eggAsn1xEncode now node = (anodeBuildAnything true node).bind fun tlv =>
      match tlv with
      | none     => some (node, none)
      | some tlv => (encoding tlv).map fun bytes => (node, bytes) := by
  obtain ⟨behind, hvalue⟩ := h.value
  have hreal : anodeDefTypeIsReal node = true := by
    rw [anodeDefTypeIsReal, h.type]
    rfl
  have hvalid : eggAsn1xValidate now node true = some (true, node) := by
    rw [validate_value hvalue (by simp [h.type]), anodeValidateValue, h.type]
    rfl
  rw [eggAsn1xEncode, if_neg (not_not.mpr hreal), hvalid, Option.bind_eq_bind, Option.bind_some]
  dsimp only
  rw [if_neg (by simp), Option.bind_eq_bind]
  congr 1
  funext tlv
  cases tlv with
  | none => rfl
  | some tlv =>
    simp only [encoding, Option.bind_eq_bind, Option.map_bind]
    cases atlvSortPerform tlv with
    | none => rfl
    | some l =>
      simp only [Option.bind_some, Function.comp_def, Option.map_bind]
      cases l.toTree with
      | none => rfl
      | some tlv' =>
        simp only [Option.bind_some]
        cases atlvUnparseToBytes tlv'
        all_goals rfl

-- What is encoded is what was built, as nothing is sorted.
theorem HasBits.encode (h : HasBits node buf) (hbuild : anodeBuildAnything true node = some (some tlv)) (hsized : WellSized tlv)
    (hlegible : AllLegible tlv) (now : Nat) : ∃ behind, eggAsn1xEncode now node = some (node, some ⟨der tlv, behind⟩) := by
  obtain ⟨bytes, hencoding, hder⟩ := ((setsSorted_iff hsized).mpr hlegible.lastGreatest).encoding_eq
  obtain ⟨data, behind⟩ := bytes
  refine ⟨behind, ?_⟩
  rw [h.encode_eq now, hbuild, Option.bind_some]
  dsimp only
  rw [hencoding, ← hder]
  rfl

theorem buildAnything_bits (hnode : anodeDefType node = .bitString) :
    anodeBuildAnything true node = maybeExplicit node (anodeBuildBitString node) := by
  cases node with
  | mk data children =>
    have htype : data.type = .bitString := hnode
    rw [anodeBuildAnything]
    simp only [htype]

theorem HasBits.build_bare (h : HasBits node buf)
    (hexplicit : (anodeCalcExplicitForFlags node (anodeDefFlags node)).1 = false)
    (hform : classAndFlags node 0 = some (cls, flags)) (htag : anodeCalcTagForFlags node flags = anodeCalcTag node) :
    anodeBuildAnything true node = (atlvUnparseClsTagLen cls (anodeCalcTag node) (buf.length + 1)).map fun header =>
      some (bitsElement node buf cls (anodeCalcTag node) header) := by
  have hplain : ∀ tlv, anodeBuildMaybeExplicit node tlv (anodeDefFlags node) = some tlv := by
    intro tlv
    rw [anodeBuildMaybeExplicit]
    split
    case h_1 => rfl
    case h_2 heq | h_3 heq =>
      rw [heq] at hexplicit
      cases hexplicit
  rw [buildAnything_bits h.type, h.build, hform, Option.bind_some]
  dsimp only
  rw [htag]
  cases atlvUnparseClsTagLen cls (anodeCalcTag node) (buf.length + 1) with
  | none => rfl
  | some header =>
    rw [Option.map_some, maybeExplicit, Option.bind_some]
    dsimp only
    rw [hplain]
    rfl

theorem HasBits.build_wrapped (h : HasBits node buf)
    (hexplicit : anodeCalcExplicitForFlags node (anodeDefFlags node) = (true, some cls))
    (hform : classAndFlags node 0 = some (0, withoutTag (anodeDefFlags node)))
    (htag : anodeCalcTagForFlags node (withoutTag (anodeDefFlags node)) = 3)
    (hheader : atlvUnparseClsTagLen 0 3 (buf.length + 1) = some header) :
    anodeBuildAnything true node =
      (atlvUnparseClsTagLen (classStructured ||| cls) (anodeCalcTag node) (header.length + (buf.length + 1))).map fun wrap =>
        some (wrapElement cls (anodeCalcTag node) wrap (bitsElement node buf 0 3 header)) := by
  have hsize := h.size
  have hle := length_header_le (show buf.length + 1 < 2 ^ 31 by omega) hheader
  have hadd : addGint (bitsElement node buf 0 3 header).off (bitsElement node buf 0 3 header).len =
      some ((header.length : Int) + (buf.length + 1)) := by
    change addGint (header.length : Int) (buf.length + 1) = _
    rw [addGint, if_pos (by omega)]
  rw [buildAnything_bits h.type, h.build, hform, Option.bind_some]
  dsimp only
  rw [htag, hheader, Option.map_some, maybeExplicit, Option.bind_some]
  dsimp only
  rw [anodeBuildMaybeExplicit, hexplicit]
  dsimp only
  rw [hadd, Option.bind_eq_bind, Option.bind_some]
  cases atlvUnparseClsTagLen (classStructured ||| cls) (anodeCalcTag node) (header.length + (buf.length + 1)) with
  | none      => rfl
  | some wrap => rfl

theorem HasBits.build_missing (h : HasBits node buf) (hform : classAndFlags node 0 = none) :
    anodeBuildAnything true node = none := by
  rw [buildAnything_bits h.type, h.build, hform]
  rfl

-- A node is encoded, and the bytes are decoded into another one: that has the bits.
def BitsKept (now : Nat) (node asn : GNode) (buf : Bytes) (empty : Nat) : Prop :=
  ∃ (node' : GNode) (bytes : GBytes) (asn' : GNode) (behind : Bytes),
    eggAsn1xEncode now node = some (node', some bytes) ∧ eggAsn1xDecode now asn bytes = some (true, asn') ∧
    anodeDefType asn' = .bitString ∧ asn'.data.value = some ⟨buf, behind⟩ ∧ asn'.data.bitsEmpty = empty

theorem ParsedAs.element (h : HasBits node buf) (hparsed : ParsedAs (bitsElement node buf cls tag header) parsed) :
    parsed.tag = tag ∧ parsed.cls = cls ∧ parsed.child = [] ∧
      ∃ behind, parsed.value = some ⟨UInt8.ofNat node.data.bitsEmpty :: buf, behind⟩ := by
  obtain ⟨behind, hvalue⟩ := h.value
  cases hparsed with
  | @value _ value octets behind' hv hoctets =>
    obtain rfl : value = ⟨buf, behind⟩ := Option.some.inj (hv.symm.trans hvalue)
    obtain rfl := Option.some.inj (hoctets.symm.trans (h.unparse cls tag header))
    exact ⟨rfl, rfl, rfl, behind', rfl⟩
  | children hnone _ => cases hvalue.symm.trans hnone

theorem ParsedAs.wrapped (hparsed : ParsedAs (wrapElement cls tag header tlv) parsed) :
    parsed.tag = tag ∧ parsed.cls = classStructured ||| cls ∧ ∃ ctlv, parsed.child = [ctlv] ∧ ParsedAs tlv ctlv := by
  cases hparsed with
  | value hv _ => cases hv
  | @children _ children _ hchildren =>
    obtain ⟨ctlv, tlvs, hctlv, htlvs, rfl⟩ := List.forall₂_cons_left_iff.mp hchildren
    obtain rfl := List.forall₂_nil_left_iff.mp htlvs
    exact ⟨rfl, rfl, ctlv, rfl, hctlv⟩

theorem wrapped_parsed (hb : HasBits node buf) (hnumber : anodeCalcTag node < 2 ^ 32) (now : Nat)
    (hexplicit : anodeCalcExplicitForFlags node (anodeDefFlags node) = (true, some cls))
    (hform : classAndFlags node 0 = some (0, withoutTag (anodeDefFlags node)))
    (htag : anodeCalcTagForFlags node (withoutTag (anodeDefFlags node)) = 3) (hcls : cls ∈ tagClasses) :
    ∃ bytes parsed ctlv behind, eggAsn1xEncode now node = some (node, some bytes) ∧
      atlvParseDer bytes = some (.ok parsed) ∧ parsed.tag = anodeCalcTag node ∧ parsed.cls = classStructured ||| cls ∧
      parsed.child = [ctlv] ∧ ctlv.cls = 0 ∧ ctlv.child = [] ∧
      ctlv.value = some ⟨UInt8.ofNat node.data.bitsEmpty :: buf, behind⟩ := by
  obtain ⟨header, hheader⟩ := header_of_lt (show 3 < 2 ^ 32 by decide) 0 (buf.length + 1 : Nat)
  obtain ⟨wrap, hwrap⟩ := header_of_lt hnumber (classStructured ||| cls) (header.length + (buf.length + 1) : Int)
  have hbuild := hb.build_wrapped hexplicit hform htag hheader
  rw [hwrap, Option.map_some] at hbuild
  have hsize := hb.size
  have hle := length_header_le (show buf.length + 1 < 2 ^ 31 by omega) hheader
  have hsized := hb.wellSized hheader
  have hsmall : (bitsElement node buf 0 3 header).off + (bitsElement node buf 0 3 header).len < 2 ^ 30 := by
    change (header.length : Int) + (buf.length + 1) < 2 ^ 30
    omega
  have hwrapSized := wrap_wellSized hsized hsmall hwrap
  have hinner : AllLegible (bitsElement node buf 0 3 header) := hb.allLegible (by decide) (by decide)
  have hlegible : AllLegible (wrapElement cls (anodeCalcTag node) wrap _) := wrap_allLegible hinner hcls hnumber
  obtain ⟨behind, hencode⟩ := hb.encode hbuild hwrapSized hlegible now
  obtain ⟨parsed, hparsed, hparse⟩ := parseDer_unparsed hwrapSized hlegible behind
  obtain ⟨hparsedTag, hparsedCls, ctlv, hchild, hctlv⟩ := hparsed.wrapped
  obtain ⟨-, hctlvCls, hctlvChild, behind', hvalue⟩ := hctlv.element hb
  exact ⟨_, parsed, ctlv, behind', hencode, hparse, hparsedTag, hparsedCls, hchild, hctlvCls, hctlvChild, hvalue⟩

section Kept

variable (hb : HasBits node buf) (hsame : Same node asn)

include hb hsame

theorem kept_of_carries {bytes : GBytes} (hencode : eggAsn1xEncode now node = some (node, some bytes))
    (hparse : atlvParseDer bytes = some (.ok parsed)) (hcarries : Carries asn parsed ctlv) (hchild : ctlv.child = [])
    {behind : Bytes} (hvalue : ctlv.value = some ⟨UInt8.ofNat node.data.bitsEmpty :: buf, behind⟩) :
    BitsKept now node asn buf node.data.bitsEmpty := by
  have hempty := hb.empty
  have hnat := toNat_ofNat_of_lt (show node.data.bitsEmpty < 256 by omega)
  have hcontent : BitContent (UInt8.ofNat node.data.bitsEmpty :: buf) :=
    .mk (UInt8.lt_iff_toNat_lt.mpr (by rw [hnat]; exact hempty)) (by rw [hnat]; exact hb.zero)
  obtain ⟨asn', hdecode, htype, hset, hempty'⟩ :=
    decode_bits_accepted (hsame.type_eq.trans hb.type) hparse hcarries hchild hvalue now rfl hcontent
  exact ⟨node, bytes, asn', behind, hencode, hdecode, htype, hset, hempty'.trans hnat⟩

theorem kept_bare (hkept : TagKept node) (hexplicit : (anodeCalcExplicitForFlags node (anodeDefFlags node)).1 = false)
    (hform : classAndFlags node 0 = some (cls, flags)) (htag : anodeCalcTagForFlags node flags = anodeCalcTag node)
    (hcls : cls ∈ tagClasses) : BitsKept now node asn buf node.data.bitsEmpty := by
  obtain ⟨header, hheader⟩ := header_of_lt hkept.number cls (buf.length + 1 : Nat)
  have hbuild := hb.build_bare hexplicit hform htag
  have hheader' : atlvUnparseClsTagLen cls (anodeCalcTag node) (buf.length + 1) = some header := hheader
  rw [hheader', Option.map_some] at hbuild
  have hlegible : AllLegible (bitsElement node buf cls (anodeCalcTag node) header) := hb.allLegible hcls hkept.number
  obtain ⟨behind, hencode⟩ := hb.encode hbuild (hb.wellSized hheader) hlegible now
  obtain ⟨parsed, hparsed, hparse⟩ := parseDer_unparsed (hb.wellSized hheader) hlegible behind
  obtain ⟨hparsedTag, hparsedCls, hchild, behind', hvalue⟩ := hparsed.element hb
  have hcarries : Carries asn parsed parsed := by
    refine ⟨.inr (hsame.calcTag.trans hparsedTag.symm), fun _ => rfl, fun h => ?_, hparsedCls ▸ (class_of_mem hcls).2.1⟩
    rw [hsame.explicit, hsame.flags_eq, hexplicit] at h
    cases h
  exact kept_of_carries hb hsame hencode hparse hcarries hchild hvalue

-- What was encoded is decoded only if its tag is read again.
theorem tagKept_of_decoded {bytes : GBytes} (hencode : eggAsn1xEncode now node = some (node', some bytes))
    (hdecode : eggAsn1xDecode now asn bytes = some (true, asn')) : TagKept node := by
  obtain ⟨parsed, hparse, htag, hclass⟩ := decoded_tag hdecode
  rw [hsame.calcTag] at htag
  rw [hsame.explicit, hsame.flags_eq] at hclass
  have hnumber : anodeCalcTag node ≠ maxUlong → anodeCalcTag node < 2 ^ 32 := fun hne =>
    htag.resolve_left hne ▸ parseDer_tag_lt hparse
  have hbuilt : anodeBuildAnything true node ≠ none := by
    intro hnone
    rw [hb.encode_eq now, hnone] at hencode
    cases hencode
  cases tagForm hb.type with
  | missing hform _ => exact absurd (hb.build_missing hform) hbuilt
  | bare hexplicit hform hflags hcls =>
    refine ⟨hnumber fun hmax => hbuilt ?_, fun c hc => ?_⟩
    · rw [hb.build_bare hexplicit hform hflags, hmax, header_maxUlong]
      rfl
    · rw [hc] at hexplicit
      cases hexplicit
  | @wrapped cls hexplicit hform hflags hcls =>
    obtain ⟨header, hheader⟩ := header_of_lt (show 3 < 2 ^ 32 by decide) 0 (buf.length + 1 : Nat)
    have hnumber : anodeCalcTag node < 2 ^ 32 := hnumber fun hmax => hbuilt (by
      rw [hb.build_wrapped hexplicit hform hflags hheader, hmax, header_maxUlong]
      rfl)
    refine ⟨hnumber, fun c hc => ?_⟩
    obtain rfl : cls = c := by
      rw [hexplicit] at hc
      simpa using hc
    obtain ⟨bytes', parsed', -, -, hencode', hparse', -, hparsedCls, -⟩ :=
      wrapped_parsed hb hnumber now hexplicit hform hflags hcls
    obtain ⟨rfl, rfl⟩ : node' = node ∧ bytes = bytes' := by
      rw [hencode] at hencode'
      simpa using hencode'
    obtain rfl : parsed = parsed' := by
      rw [hparse] at hparse'
      simpa using hparse'
    have hctx := hclass (by rw [hexplicit])
    rw [hparsedCls] at hctx
    exact fun h => hctx ((class_of_mem hcls).2.2.2.2.mpr h)

theorem kept_of_tagKept (hkept : TagKept node) : BitsKept now node asn buf node.data.bitsEmpty := by
  cases tagForm hb.type with
  | missing _ hmax =>
    have hnumber := hkept.number
    rw [hmax] at hnumber
    exact absurd hnumber (by decide)
  | bare hexplicit hform hflags hcls => exact kept_bare hb hsame hkept hexplicit hform hflags hcls
  | @wrapped cls hexplicit hform hflags hcls =>
    obtain ⟨bytes, parsed, ctlv, behind, hencode, hparse, htag, hparsedCls, hchild, hctlvCls, hctlvChild, hvalue⟩ :=
      wrapped_parsed hb hkept.number now hexplicit hform hflags hcls
    have hcarries : Carries asn parsed ctlv := by
      refine ⟨.inr (hsame.calcTag.trans htag.symm), fun h => ?_, fun _ => ⟨?_, hchild⟩, by rw [hctlvCls]; decide⟩
      · rw [hsame.explicit, hsame.flags_eq, hexplicit] at h
        cases h
      · rw [hparsedCls]
        exact fun h => hkept.cls cls hexplicit ((class_of_mem hcls).2.2.2.2.mp h)
    exact kept_of_carries hb hsame hencode hparse hcarries hctlvChild hvalue

end Kept

def RoundTripped (now : Nat) (node asn : GNode) (bits nBits : Nat) : Prop :=
  ∃ node' bytes asn', eggAsn1xEncode now (eggAsn1xSetBitsAsUlong node bits nBits) = some (node', some bytes) ∧
    eggAsn1xDecode now asn bytes = some (true, asn') ∧
    eggAsn1xGetBitsAsUlong asn' = some (some (bits % 2 ^ nBits, nBits))

theorem setBitsAsUlong_same (hnode : anodeDefType node = .bitString) (h : nBits ≤ 64) :
    Same node (eggAsn1xSetBitsAsUlong node bits nBits) := by
  obtain ⟨behind, heq⟩ := @setBitsAsUlong_eq node bits nBits hnode h
  rw [heq]
  exact ⟨rfl, rfl, rfl⟩

theorem Same.tagKept (h : Same node node') : TagKept node' ↔ TagKept node := by
  constructor
  · rintro ⟨hnumber, hcls⟩
    exact ⟨by rwa [h.calcTag] at hnumber, by simpa only [h.explicit, h.flags_eq] using hcls⟩
  · rintro ⟨hnumber, hcls⟩
    exact ⟨by rwa [h.calcTag], by simpa only [h.explicit, h.flags_eq] using hcls⟩

theorem setBits_getBits (hnode : anodeDefType node = .bitString) (h : nBits ≤ 64) :
    eggAsn1xGetBitsAsUlong (eggAsn1xSetBitsAsUlong node bits nBits) = some (some (bits % 2 ^ nBits, nBits)) := by
  obtain ⟨behind, heq⟩ := @setBitsAsUlong_eq node bits nBits hnode h
  rw [heq]
  exact @getBitsAsUlong_eq _ bits nBits hnode h behind rfl rfl

theorem roundTripped_iff (hnode : anodeDefType node = .bitString) (hsame : Same node asn) (h : nBits ≤ 64) :
    RoundTripped now node asn bits nBits ↔ TagKept node := by
  have hset := @setBitsAsUlong_same node bits nBits hnode h
  have hb := @setBitsAsUlong_hasBits node bits nBits hnode h
  have hsame' : Same (eggAsn1xSetBitsAsUlong node bits nBits) asn := ⟨hsame.1.trans hset.1.symm, hsame.2.trans hset.2.symm,
    hsame.3.trans hset.3.symm⟩
  rw [← hset.tagKept]
  constructor
  · rintro ⟨node', bytes, asn', hencode, hdecode, -⟩
    exact tagKept_of_decoded hb hsame' hencode hdecode
  · intro hkept
    obtain ⟨node', bytes, asn', behind, hencode, hdecode, htype, hvalue, hempty⟩ := @kept_of_tagKept _ _ _ now hb hsame' hkept
    refine ⟨node', bytes, asn', hencode, hdecode, getBitsAsUlong_eq htype h hvalue (hempty.trans ?_)⟩
    obtain ⟨behind', heq⟩ := @setBitsAsUlong_eq node bits nBits hnode h
    rw [heq]
    rfl

theorem bitString_iff (now : Nat) (node asn : GNode) (hnode : anodeDefType node = .bitString) (hsame : Same node asn) :
    (∀ data tlv ctlv content, atlvParseDer data = some (.ok tlv) → Carries node tlv ctlv → ctlv.child = [] →
      ctlv.value = some content →
      (BitsJudged now node data content.data ↔ (BitContent content.data → BitsFit content.data))) ∧
    ∀ bits nBits, nBits ≤ 64 →
      eggAsn1xGetBitsAsUlong (eggAsn1xSetBitsAsUlong node bits nBits) = some (some (bits % 2 ^ nBits, nBits)) ∧
      (RoundTripped now node asn bits nBits ↔ TagKept node) :=
  ⟨fun _ _ _ _ => decode_bits_iff hnode, fun _ _ h => ⟨setBits_getBits hnode h, roundTripped_iff hnode hsame h⟩⟩

def exampleBits : GNode :=
  .mk { adef := ⟨none, .bitString, [], none⟩ } []

def exampleBitsTlv (content : Bytes) : Atlv where
  cls   := 0
  tag   := 3
  off   := 2
  len   := content.length
  value := some ⟨content, []⟩

theorem exampleBits_carries (content : Bytes) : Carries exampleBits (exampleBitsTlv content) (exampleBitsTlv content) where
  tag       := .inr rfl
  plain     := fun _ => rfl
  explicit  := fun h => by cases h
  primitive := (rfl : (0 : UInt8) &&& 0x20 = 0)

theorem bitString_iff_exampleBits :
    (BitsJudged 126 exampleBits ⟨[3, 2, 4, 0xF0], []⟩ [4, 0xF0] ↔ (BitContent [4, 0xF0] → BitsFit [4, 0xF0])) ∧
    eggAsn1xGetBitsAsUlong (eggAsn1xSetBitsAsUlong exampleBits 1021 9) = some (some (1021 % 2 ^ 9, 9)) ∧
    (RoundTripped 126 exampleBits exampleBits 1021 9 ↔ TagKept exampleBits) :=
  have h := bitString_iff 126 exampleBits exampleBits rfl (.refl _)
  ⟨h.1 ⟨[3, 2, 4, 0xF0], []⟩ (exampleBitsTlv [4, 0xF0]) (exampleBitsTlv [4, 0xF0]) ⟨[4, 0xF0], []⟩ rfl
      (exampleBits_carries [4, 0xF0]) rfl rfl, h.2 1021 9 (by decide)⟩

-- Five unused bits of no byte at all.
theorem bitString_not : ¬BitsJudged 126 exampleBits ⟨[3, 1, 5], []⟩ [5] := by
  have hvalue : (exampleBitsTlv [5]).value = some ⟨[5], []⟩ := rfl
  rw [decode_bits_iff rfl rfl (exampleBits_carries [5]) rfl hvalue]
  intro h
  have hfit := (h (.mk (by decide) (by simp [ZeroAtEnd]))) 5 [] rfl
  exact absurd hfit.1 (by decide)

end Asn1x
