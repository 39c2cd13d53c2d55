import GcrModel.Egg.Asn1x.Theorems.ObjectId
import GcrModel.Egg.Asn1x.Theorems.Simple

-- What becomes of the content of an object identifier that is decoded.
namespace Asn1x

open GLib
open Septets (Terminated Canonical)

variable {asn asn' node node' : GNode} {data content : GBytes} {tlv ctlv : Atlv} {rest s : Bytes} {arcs : List Nat}
variable {b : UInt8} {a now nData i fuel : Nat}

-- Some number behind the first byte has a byte 0x80, or a value that gets smaller modulo 2^32 on the way.
def OidRefused (content : Bytes) : Prop :=
  ∃ (b : UInt8) (gs : List Bytes) (more : Bytes), content = b :: (gs.flatten ++ more) ∧
    (∀ g ∈ gs, Terminated g) ∧ (∀ d ∈ more, 128 ≤ d) ∧ ¬((∀ g ∈ gs, Clean g) ∧ Clean more)

-- A first byte other than 0x80, and one or more numbers below 2^31 that are as short as they can be.
inductive OidRegular : Bytes → Prop
  | mk {b : UInt8} {arcs : List Nat} : b ≠ 0x80 → arcs ≠ [] → (∀ a ∈ arcs, a < 2 ^ 31) →
    arcs.length + 2 < 2 ^ 31 ∧ (restOctets arcs).length + 1 < 2 ^ 31 → OidRegular (b :: restOctets arcs)

-- One or more numbers that end and do not start with 0x80.
def SubIdentifiers (content : Bytes) : Prop :=
  ∃ gs : List Bytes, gs ≠ [] ∧ (∀ g ∈ gs, Canonical g) ∧ content = gs.flatten

-- What is read of a node is set, and becomes the same bytes.
def WrittenAgain (node : GNode) (content : Bytes) : Prop :=
  ∃ (oid : CString) (node' : GNode), eggAsn1xGetOidAsString node = some (some oid.bytes) ∧
    eggAsn1xSetOidAsString node oid = some (true, node') ∧ node'.data.value.map (·.data) = some content

-- An object identifier is accepted only if its content is well formed, and then becomes the same bytes again.
def OidJudged (now : Nat) (asn : GNode) (data : GBytes) (content : Bytes) : Prop :=
  ∃ ok asn', eggAsn1xDecode now asn data = some (ok, asn') ∧
    (ok → SubIdentifiers content ∧ WrittenAgain asn' content)

theorem refused_iff : OidRefused (b :: rest) ↔ readArcs true 0 0 rest = none := by
  constructor
  case mp =>
    rintro ⟨c, gs, more, h, hgs, hmore, hnot⟩
    obtain ⟨-, rfl⟩ := List.cons.inj h
    exact (readArcs_flatten hgs hmore).2 hnot
  case mpr =>
    intro h
    obtain ⟨gs, more, rfl, hgs, hmore⟩ := Septets.exists_split rest
    refine ⟨b, gs, more, rfl, hgs, hmore, fun hclean => ?_⟩
    rw [(readArcs_flatten hgs hmore).1 hclean] at h
    cases h

theorem readArcs_lt (h : readArcs true 0 0 rest = some arcs) : ∀ a ∈ arcs, a < 2 ^ 32 := by
  obtain ⟨gs, more, rfl, hgs, hmore⟩ := Septets.exists_split rest
  obtain ⟨hclean, hnot⟩ := readArcs_flatten hgs hmore
  by_cases hc : (∀ g ∈ gs, Clean g) ∧ Clean more
  case neg =>
    rw [hnot hc] at h
    cases h
  case pos =>
    obtain rfl := Option.some.inj ((hclean hc).symm.trans h)
    intro a ha
    obtain ⟨g, -, rfl⟩ := List.mem_map.mp ha
    exact Nat.mod_lt _ (by decide)

-- All of the numbers that were written are `gint`s.
theorem writeParts_gint {data : Bytes} {num1 : Int} {octets : Option Bytes} (harcs : ∀ a ∈ arcs, a < 2 ^ 32)
    (h : writeParts nData fuel i num1 data (dotted arcs) = some octets) : ∀ a ∈ arcs, a < 2 ^ 31 := by
  induction arcs generalizing fuel i num1 data with
  | nil => simp
  | cons a arcs ih =>
    obtain ⟨ha, harcs⟩ := List.forall_mem_cons.mp harcs
    cases fuel with
    | zero => cases h
    | succ fuel =>
      by_cases hgint : a < 2 ^ 31
      case pos =>
        rw [writeParts_cons fuel hgint, Option.bind_eq_some_iff] at h
        obtain ⟨part, -, h⟩ := h
        split at h
        case isTrue  => cases h
        case isFalse => exact List.forall_mem_cons.mpr ⟨hgint, ih harcs h⟩
      case neg =>
        have hten : a < 10 ^ 10 := Nat.lt_trans ha (by decide)
        have hlen := length_printUnsigned_le (by decide) hten
        have hdigits : (toGint ((printUnsigned a).length % 2 ^ 32)).toNat = (printUnsigned a).length := by
          rw [Nat.mod_eq_of_lt (by omega), toGint, if_pos (by omega), Int.toNat_natCast]
        rw [writeParts, if_neg (dotted_ne_nil a arcs), nextPart_dotted] at h
        dsimp only at h
        rw [if_neg (printUnsigned_ne_nil a), hdigits,
          atoin_printUnsigned_overflow (Nat.le_of_not_lt hgint) ha] at h
        cases h

-- What is set where a first byte and numbers were read.
theorem setOid_dotted (hnode : anodeDefType node = .objectId) (harcs : ∀ a ∈ arcs, a < 2 ^ 32) :
    (∃ node', eggAsn1xSetOidAsString node (oidString (b.toNat / 40 :: b.toNat % 40 :: arcs)) = some (true, node') ∧
      node'.data.value.map (·.data) = some s) ↔
    s = b :: restOctets arcs ∧ arcs ≠ [] ∧ (∀ a ∈ arcs, a < 2 ^ 31) ∧
      arcs.length + 2 < 2 ^ 31 ∧ (restOctets arcs).length + 1 < 2 ^ 31 := by
  have hb := b.toNat_lt
  have hsum : 40 * (b.toNat / 40) + b.toNat % 40 = b.toNat := Nat.div_add_mod _ _
  have hbyte : UInt8.ofNat (b.toNat % 256) = b := by simp
  rw [eggAsn1xSetOidAsString, if_neg (not_not.mpr hnode), oidString]
  dsimp only
  by_cases hgint : ∀ a ∈ arcs, a < 2 ^ 31
  case pos =>
    have hall : ∀ c ∈ b.toNat / 40 :: b.toNat % 40 :: arcs, c < 2 ^ 31 := by
      simp only [List.forall_mem_cons]
      exact ⟨by omega, by omega, hgint⟩
    rw [anodeWriteObjectId_dotted (by omega) hall, hsum, hbyte]
    by_cases hcounts : CountsFit (b.toNat / 40 :: b.toNat % 40 :: arcs)
    case pos =>
      rw [if_pos ⟨by omega, hcounts⟩, Option.bind_eq_bind, Option.bind_some]
      by_cases hnil : arcs = []
      case pos =>
        rw [if_pos hnil]
        exact iff_of_false (by simp) fun h => h.2.1 hnil
      case neg =>
        rw [if_neg hnil]
        simp only [Option.some.injEq, Prod.mk.injEq, true_and, exists_eq_left']
        constructor
        · intro h
          exact ⟨(Option.some.inj h).symm, hnil, hgint, hcounts⟩
        · rintro ⟨rfl, -⟩
          rfl
    case neg =>
      rw [if_neg fun h => hcounts h.2]
      exact iff_of_false (by simp) fun h => hcounts h.2.2.2
  case neg =>
    refine iff_of_false ?_ fun h => hgint h.2.2.1
    rintro ⟨node', h, -⟩
    rw [Option.bind_eq_bind, Option.bind_eq_some_iff] at h
    obtain ⟨octets, h, -⟩ := h
    rw [anodeWriteObjectId, Option.bind_eq_bind, Option.bind_eq_some_iff] at h
    obtain ⟨parts, h, -⟩ := h
    have hall : ∀ c ∈ b.toNat / 40 :: b.toNat % 40 :: arcs, c < 2 ^ 32 := by
      simp only [List.forall_mem_cons]
      exact ⟨by omega, by omega, harcs⟩
    have hgints := writeParts_gint hall h
    exact hgint fun a ha => hgints a (by simp [ha])

theorem SubIdentifiers.ne_nil (h : SubIdentifiers s) : s ≠ [] := by
  obtain ⟨gs, hne, hgs, rfl⟩ := h
  obtain ⟨g, gs, rfl⟩ := List.exists_cons_of_ne_nil hne
  have hg := (hgs g List.mem_cons_self).terminated.ne_nil
  exact fun h => hg (List.append_eq_nil_iff.mp h).1

theorem SubIdentifiers.head (h : SubIdentifiers (b :: rest)) : b ≠ 0x80 := by
  obtain ⟨gs, hne, hgs, heq⟩ := h
  obtain ⟨g, gs, rfl⟩ := List.exists_cons_of_ne_nil hne
  have hg := hgs g List.mem_cons_self
  obtain ⟨c, g, rfl⟩ := List.exists_cons_of_ne_nil hg.terminated.ne_nil
  obtain ⟨rfl, -⟩ := List.cons.inj heq
  exact fun h => hg.head (congrArg some h)

theorem OidRegular.subIdentifiers (h : OidRegular s) : SubIdentifiers s := by
  obtain @⟨b, arcs, hb, hne, harcs, -⟩ := h
  have hcanonical : ∀ a < 2 ^ 31, Canonical (arcOctets a false 4) := fun a ha =>
    (arcOctets_spec (show a < 128 ^ (4 + 1) by omega)).1
  have hgs : ∀ arcs : List Nat, (∀ a ∈ arcs, a < 2 ^ 31) → ∀ g ∈ arcs.map (arcOctets · false 4), Canonical g := by
    intro arcs harcs g hg
    obtain ⟨a, ha, rfl⟩ := List.mem_map.mp hg
    exact hcanonical a (harcs a ha)
  have hhead : ∀ g : Bytes, (b :: g).head? ≠ some 0x80 := fun g h => hb (Option.some.inj h)
  by_cases hlt : b < 128
  case pos =>
    refine ⟨[b] :: arcs.map (arcOctets · false 4), by simp, ?_, ?_⟩
    · exact List.forall_mem_cons.mpr ⟨⟨Septets.terminated_singleton hlt, hhead []⟩, hgs arcs harcs⟩
    · rw [restOctets, List.flatMap_def]
      rfl
  case neg =>
    -- The first byte is a part of the number behind it.
    obtain ⟨a, arcs, rfl⟩ := List.exists_cons_of_ne_nil hne
    obtain ⟨ha, harcs⟩ := List.forall_mem_cons.mp harcs
    have hterm := (hcanonical a ha).terminated.cons (UInt8.not_lt.mp hlt)
    refine ⟨(b :: arcOctets a false 4) :: arcs.map (arcOctets · false 4), by simp, ?_, ?_⟩
    · exact List.forall_mem_cons.mpr ⟨⟨hterm, hhead _⟩, hgs arcs harcs⟩
    · rw [restOctets, List.flatMap_cons, List.flatMap_def]
      rfl

-- The numbers that were read are what the bytes are written from.
theorem writtenAgain_iff (hnode : anodeDefType node = .objectId) {behind : Bytes}
    (hvalue : node.data.value = some ⟨b :: rest, behind⟩) (hread : readArcs true 0 0 rest = some arcs) :
    SubIdentifiers (b :: rest) ∧ WrittenAgain node (b :: rest) ↔ OidRegular (b :: rest) := by
  have harcs := readArcs_lt hread
  have hget := getOid_of_value hnode hvalue
  rw [hread] at hget
  have hagain : WrittenAgain node (b :: rest) ↔ b :: rest = b :: restOctets arcs ∧ arcs ≠ [] ∧
      (∀ a ∈ arcs, a < 2 ^ 31) ∧ arcs.length + 2 < 2 ^ 31 ∧ (restOctets arcs).length + 1 < 2 ^ 31 := by
    rw [← setOid_dotted hnode harcs]
    constructor
    · rintro ⟨oid, node', hoid, hset⟩
      have heq : oid = oidString (b.toNat / 40 :: b.toNat % 40 :: arcs) := by
        rw [hget] at hoid
        cases oid
        simp only [Option.map_some, Option.some.injEq] at hoid
        simp only [oidString, hoid]
      exact ⟨node', heq ▸ hset⟩
    · rintro ⟨node', hset⟩
      exact ⟨oidString (b.toNat / 40 :: b.toNat % 40 :: arcs), node', hget, hset⟩
  rw [hagain]
  constructor
  case mp =>
    rintro ⟨hformed, heq, hne, hgint, hcounts⟩
    rw [heq]
    exact .mk hformed.head hne hgint hcounts
  case mpr =>
    intro h
    refine ⟨h.subIdentifiers, ?_⟩
    generalize hs : b :: rest = s at h
    obtain @⟨c, arcs', hc, hne, hgint, hcounts⟩ := h
    obtain ⟨rfl, rfl⟩ := List.cons.inj hs
    rw [readArcs_restOctets hgint] at hread
    split at hread
    case isFalse => cases hread
    case isTrue =>
      obtain rfl := Option.some.inj hread
      exact ⟨rfl, hne, hgint, hcounts⟩

theorem decode_oid_iff (hnode : anodeDefType asn = .objectId) (hparse : atlvParseDer data = some (.ok tlv))
    (hcarries : Carries asn tlv ctlv) (hchild : ctlv.child = []) (hvalue : ctlv.value = some content) :
    OidJudged now asn data content.data ↔ OidRefused content.data ∨ OidRegular content.data := by
  have hprimitive : ∀ n, Same asn n → anodeDecodePrimitive n ctlv = some (true, anodeSetValue n ctlv.value) := by
    intro n hsame
    have htype : anodeDefType n = .objectId := hsame.type_eq.trans hnode
    rw [anodeDecodePrimitive, htype, hchild]
    rfl
  obtain ⟨n, hsame, hdecode, -⟩ := decode_carried now hparse hcarries hprimitive
  have hdecode := hdecode rfl
  generalize hnode' : (anodeSetValue n ctlv.value).modify ({ · with parsed := some tlv }) = node at hdecode
  have htype : anodeDefType node = .objectId := by
    rw [← hnode']
    exact hsame.type_eq.trans hnode
  have hcontent : node.data.value = some content := by
    rw [← hnode']
    exact hvalue
  rw [validate_value hcontent (by simp [htype]), anodeValidateValue, htype] at hdecode
  dsimp only at hdecode
  obtain ⟨bytes, behind⟩ := content
  rw [OidJudged, hdecode, anodeValidateObjectId, anodeReadObjectId]
  cases bytes with
  | nil =>
    refine iff_of_false ?_ ?_
    · rintro ⟨ok, asn', h, hformed⟩
      cases behind with
      | nil => cases h
      | cons p behind =>
        cases h
        exact (hformed rfl).1.ne_nil rfl
    · rintro (⟨b, gs, more, h, -⟩ | h)
      · cases h
      · cases h
  | cons b rest =>
    have hdrop : (b :: rest).drop 1 = rest := rfl
    dsimp only [List.cons_append]
    rw [refused_iff, hdrop]
    cases hread : readArcs true 0 0 rest with
    | none      => exact iff_of_true ⟨false, _, rfl, by simp⟩ (.inl rfl)
    | some arcs =>
      rw [← writtenAgain_iff htype hcontent hread]
      simp

theorem objectId_codec_iff (now : Nat) (node : GNode) (hnode : anodeDefType node = .objectId) :
    (∀ arcs, ValidOid arcs → (SetThenGet node arcs ↔ ReadBack arcs)) ∧
    (∀ data tlv ctlv content, atlvParseDer data = some (.ok tlv) → Carries node tlv ctlv → ctlv.child = [] →
      ctlv.value = some content →
      (OidJudged now node data content.data ↔ OidRefused content.data ∨ OidRegular content.data)) :=
  ⟨fun _ => setThenGet_iff hnode, fun _ _ _ _ => decode_oid_iff hnode⟩

def exampleOid : GNode :=
  .mk { adef := ⟨none, .objectId, [], none⟩ } []

-- 1.2.840, and a number that lacks its end.
def exampleOidData : GBytes :=
  ⟨[0x06, 0x03, 0x2A, 0x86, 0x48], []⟩

def exampleOpenData : GBytes :=
  ⟨[0x06, 0x02, 0x2A, 0x86], []⟩

def exampleOidTlv (data : GBytes) : Atlv where
  cls   := 0
  tag   := 6
  off   := 2
  len   := data.data.length - 2
  value := some ⟨data.data.drop 2, []⟩

theorem exampleOid_carries (data : GBytes) : Carries exampleOid (exampleOidTlv data) (exampleOidTlv data) where
  tag       := .inr rfl
  plain     := fun _ => rfl
  explicit  := fun h => by cases h
  primitive := (rfl : (0 : UInt8) &&& 0x20 = 0)

theorem objectId_codec_iff_exampleOid :
    (SetThenGet exampleOid [1, 2, 840] ↔ ReadBack [1, 2, 840]) ∧
    (OidJudged 126 exampleOid exampleOidData [0x2A, 0x86, 0x48] ↔
      OidRefused [0x2A, 0x86, 0x48] ∨ OidRegular [0x2A, 0x86, 0x48]) :=
  have h := objectId_codec_iff 126 exampleOid rfl
  ⟨h.1 [1, 2, 840] (.mk (by decide) (by decide) (by decide)),
    h.2 exampleOidData (exampleOidTlv exampleOidData) (exampleOidTlv exampleOidData) ⟨[0x2A, 0x86, 0x48], []⟩ rfl
      (exampleOid_carries exampleOidData) rfl rfl⟩

-- Two arcs are not set, 2.999.3 is read as something else, and a content without an end is accepted.
theorem objectId_codec_not :
    (ValidOid [1, 2] ∧ ¬SetThenGet exampleOid [1, 2]) ∧ (ValidOid [2, 999, 3] ∧ ¬SetThenGet exampleOid [2, 999, 3]) ∧
    ¬OidJudged 126 exampleOid exampleOpenData [0x2A, 0x86] := by
  have htwo : ValidOid [1, 2] := .mk (by decide) (by decide) (by decide)
  have hlarge : ValidOid [2, 999, 3] := .mk (by decide) (by decide) (by decide)
  refine ⟨⟨htwo, ?_⟩, ⟨hlarge, ?_⟩, ?_⟩
  · rw [setThenGet_iff rfl htwo]
    exact fun h => absurd h.three (by decide)
  · rw [setThenGet_iff rfl hlarge]
    exact fun h => absurd (h.second 999 rfl) (by decide)
  · have hvalue : (exampleOidTlv exampleOpenData).value = some ⟨[0x2A, 0x86], []⟩ := rfl
    rw [decode_oid_iff rfl rfl (exampleOid_carries exampleOpenData) rfl hvalue]
    have hread : readArcs true 0 0 [0x86] = some [] := by decide
    rintro (h | h)
    · rw [refused_iff, hread] at h
      cases h
    · dsimp only at h
      generalize hs : ([0x2A, 0x86] : Bytes) = s at h
      obtain @⟨b, arcs, -, hne, hgint, -⟩ := h
      obtain ⟨-, hrest⟩ := List.cons.inj hs
      rw [hrest, readArcs_restOctets hgint] at hread
      split at hread
      case isFalse => cases hread
      case isTrue  => exact hne (Option.some.inj hread)

end Asn1x
