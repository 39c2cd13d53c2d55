import GcrModel.Egg.Asn1x.Decode
import GcrModel.Egg.Asn1x.Theorems.Node

namespace Asn1x

open GLib

variable {node node' : GNode} {nodes nodes' : List GNode} {tlv t : Atlv} {tlvs done : List Atlv} {flags : List Flag}
variable {ok : Bool} {now tag i n : Nat} {data : GBytes}

-- The element with the content of a node, which an explicit tag is around.
def contentOf (node : GNode) (flags : List Flag) (tlv : Atlv) : Atlv :=
  if (anodeCalcExplicitForFlags node flags).1 then tlv.child.headD tlv else tlv

-- The elements of a list that was decoded.
def elements (node : GNode) (tlv : Atlv) : List Atlv :=
  (contentOf node (anodeDefFlags node) tlv).child

-- The children with data are for the elements, in their order.
structure Kept (node : GNode) (tlvs : List Atlv) : Prop where
  parsed : (node.children.filter eggAsn1xHave).map (·.data.parsed) = tlvs.map some
  few    : tlvs.length < 2 ^ 31

-- A node that was decoded, if it is a list, has all of its elements.
def ListKept (node : GNode) : Prop :=
  (anodeDefType node).isList → ∀ tlv, node.data.parsed = some tlv → Kept node (elements node tlv)

def AllKept (node : GNode) : Prop :=
  ∀ sub : GNode, sub.Sub node → ListKept sub

theorem allKept_iff : AllKept node ↔ ListKept node ∧ ∀ child ∈ node.children, AllKept child :=
  forall_sub

theorem Blank.allKept (h : Blank node) : AllKept node := by
  intro sub hsub _ tlv htlv
  rw [(h sub hsub).2] at htlv
  cases htlv

-- What a node is did not change.
structure Same (node node' : GNode) : Prop where
  adef : node'.data.adef = node.data.adef
  join : node'.data.join = node.data.join
  opts : node'.data.opts = node.data.opts

theorem Same.refl (node : GNode) : Same node node :=
  ⟨rfl, rfl, rfl⟩

theorem Same.type_eq (h : Same node node') : anodeDefType node' = anodeDefType node := by
  rw [anodeDefType, Anode.type, h.adef, h.join]
  rfl

theorem Same.flags_eq (h : Same node node') : anodeDefFlags node' = anodeDefFlags node := by
  rw [anodeDefFlags, Anode.flags, h.adef, h.join]
  rfl

theorem Same.contentOf (h : Same node node') : contentOf node' flags tlv = contentOf node flags tlv := by
  have hexplicit : anodeCalcExplicitForFlags node' flags = anodeCalcExplicitForFlags node flags := by
    simp only [anodeCalcExplicitForFlags, anodeOptLookup, h.opts]
  rw [Asn1x.contentOf, Asn1x.contentOf, hexplicit]

theorem Same.elements (h : Same node node') : elements node' tlv = elements node tlv := by
  rw [Asn1x.elements, Asn1x.elements, h.flags_eq, h.contentOf]

-- What became of a node that had no data, where the content of `tlv` was decoded into it.
structure Decoded (node : GNode) (tlv : Atlv) (ok : Bool) (node' : GNode) : Prop where
  same     : Same node node'
  children : ∀ child ∈ node'.children, AllKept child
  kept     : ok → (anodeDefType node).isList → Kept node' tlv.child

theorem withoutTag_notMem (flags : List Flag) : (withoutTag flags).contains .tag = false := by
  simp [withoutTag]

theorem contentOf_withoutTag (node : GNode) (flags : List Flag) (tlv : Atlv) :
    contentOf node (withoutTag flags) tlv = tlv := by
  rw [contentOf, anodeCalcExplicitForFlags, withoutTag_notMem]
  rfl

-- A node whose element was marked.
theorem Decoded.allKept (d : Decoded node (contentOf node (anodeDefFlags node) tlv) ok node')
    (hparsed : node'.data.parsed = if ok then some tlv else none) : AllKept node' := by
  refine (allKept_iff).mpr ⟨fun hlist t ht => ?_, d.children⟩
  rw [hparsed] at ht
  split at ht
  case isFalse => cases ht
  case isTrue hok =>
    cases ht
    rw [d.same.elements]
    exact d.kept hok (d.same.type_eq ▸ hlist)

theorem AllKept.modify (h : AllKept node) (f : Anode → Anode) (hsame : Same node (node.modify f))
    (hparsed : (f node.data).parsed = node.data.parsed) : AllKept (node.modify f) := by
  obtain ⟨hroot, hchildren⟩ := (allKept_iff).mp h
  refine (allKept_iff).mpr ⟨fun hlist t ht => ?_, hchildren⟩
  rw [GNode.data_modify, hparsed] at ht
  rw [hsame.elements]
  have hkept := hroot (hsame.type_eq ▸ hlist) t ht
  exact ⟨hkept.parsed, hkept.few⟩

theorem AllKept.failure (h : AllKept node) (msg : String) : AllKept (anodeFailure node msg).2 :=
  h.modify (·.fail msg) ⟨rfl, rfl, rfl⟩ rfl

-- Where a node is no list, or the decoding failed, its children are what matters.
theorem Blank.decoded (h : Blank node) (f : Anode → Anode) (hsame : Same node (node.modify f))
    (hnot : ok → (anodeDefType node).isList = false) : Decoded node tlv ok (node.modify f) where
  same     := hsame
  children := fun _ hc => (h.of_mem hc).allKept
  kept     := fun hok h => by simp [hnot hok] at h

theorem Blank.failure (h : Blank node) {msg : String} (heq : anodeFailure node msg = (ok, node')) :
    Decoded node tlv ok node' ∧ node'.data.parsed = none := by
  cases heq
  exact ⟨h.decoded _ ⟨rfl, rfl, rfl⟩ (by simp), h.parsed⟩

theorem Blank.unchanged (h : Blank node) (hnot : ok → (anodeDefType node).isList = false) :
    Decoded node tlv ok node ∧ node.data.parsed = none := by
  refine ⟨⟨.refl node, fun _ hc => (h.of_mem hc).allKept, fun hok hlist => ?_⟩, h.parsed⟩
  simp [hnot hok] at hlist

theorem decodeBitString_spec (hb : Blank node) (htype : anodeDefType node = .bitString)
    (h : anodeDecodeBitString node tlv = some (ok, node')) : Decoded node tlv ok node' ∧ node'.data.parsed = none := by
  have hnot : (anodeDefType node).isList = false := by rw [htype]; rfl
  unfold anodeDecodeBitString at h
  split at h
  case h_1 => cases h
  case h_2 =>
    split at h
    case h_1 => exact hb.failure (Option.some.inj h)
    case h_2 =>
      split at h
      case isTrue => exact hb.failure (Option.some.inj h)
      case isFalse =>
        split at h
        case isTrue  => exact hb.failure (Option.some.inj h)
        case isFalse =>
          cases h
          exact ⟨hb.decoded _ ⟨rfl, rfl, rfl⟩ fun _ => hnot, rfl⟩

theorem Decoded.mark {node node' : GNode} {tlv content : Atlv} {ok : Bool} (h : Decoded node content ok node')
    (hparsed : ok = false → node'.data.parsed = none) :
    Decoded node content ok (markParsed ok tlv node') ∧
      (markParsed ok tlv node').data.parsed = if ok then some tlv else none := by
  cases ok with
  | false => exact ⟨h, hparsed rfl⟩
  | true  => exact ⟨⟨⟨h.same.adef, h.same.join, h.same.opts⟩, h.children, fun _ hlist => ⟨(h.kept rfl hlist).parsed,
      (h.kept rfl hlist).few⟩⟩, rfl⟩

-- A node that is passed over has no data.
theorem decodeOptionOrDefault_blank (hb : Blank node) : Blank (anodeDecodeOptionOrDefault node).2 := by
  unfold anodeDecodeOptionOrDefault
  split
  case isTrue  => exact blank_iff.mpr ⟨⟨rfl, rfl⟩, fun _ hc => hb.of_mem hc⟩
  case isFalse => exact hb

mutual

theorem decodeOneWithoutTag_spec {node node' : GNode} {tlv : Atlv} {flags : List Flag} {ok : Bool} (hb : Blank node)
    (h : anodeDecodeOneWithoutTag node tlv flags = some (ok, node')) :
    Decoded node (contentOf node flags tlv) ok node' ∧ node'.data.parsed = if ok then some tlv else none := by
  rw [anodeDecodeOneWithoutTag] at h
  split at h
  case isTrue hexplicit =>
    split at h
    case isTrue =>
      obtain ⟨hd, hparsed⟩ := hb.failure (Option.some.inj h)
      cases h
      exact ⟨hd, hparsed⟩
    case isFalse =>
      split at h
      case h_1 =>
        obtain ⟨hd, hparsed⟩ := hb.failure (Option.some.inj h)
        cases h
        exact ⟨hd, hparsed⟩
      case h_2 ctlv hchild =>
        obtain ⟨⟨ok', inner⟩, hinner, h⟩ := Option.bind_eq_some_iff.mp h
        cases h
        have hsize := sizeOf_only hchild
        obtain ⟨hd, hparsed⟩ := decodeOneWithoutTag_spec hb hinner
        rw [contentOf_withoutTag] at hd
        have hcontent : contentOf node flags tlv = ctlv := by
          rw [contentOf, if_pos hexplicit, hchild]
          rfl
        rw [hcontent]
        exact hd.mark fun hok => by rw [hparsed, hok]; rfl
      case h_3 =>
        obtain ⟨hd, hparsed⟩ := hb.failure (Option.some.inj h)
        cases h
        exact ⟨hd, hparsed⟩
  case isFalse hexplicit =>
    have hcontent : contentOf node flags tlv = tlv := if_neg hexplicit
    rw [hcontent]
    dsimp only at h
    split at h
    case isTrue =>
      obtain ⟨⟨ok', inner⟩, hinner, h⟩ := Option.bind_eq_some_iff.mp h
      cases h
      obtain ⟨hd, hparsed⟩ := decodeStructured_spec hb hinner
      exact hd.mark fun _ => hparsed
    case isFalse =>
      obtain ⟨⟨ok', inner⟩, hinner, h⟩ := Option.bind_eq_some_iff.mp h
      cases h
      obtain ⟨hd, hparsed⟩ := decodePrimitive_spec hb hinner
      exact hd.mark fun _ => hparsed
termination_by (sizeOf tlv, sizeOf node, 3)

theorem decodeStructured_spec {node node' : GNode} {tlv : Atlv} {ok : Bool} (hb : Blank node)
    (h : anodeDecodeStructured node tlv = some (ok, node')) : Decoded node tlv ok node' ∧ node'.data.parsed = none := by
  rw [anodeDecodeStructured] at h
  split at h
  case h_12 htype => exact decodeChoice_spec hb htype h
  case h_13 htype => exact decodeSequenceOrSet_spec hb (by rw [htype]; rfl) h
  case h_14 htype => exact decodeSequenceOrSet_spec hb (by rw [htype]; rfl) h
  case h_15 => exact decodeSequenceOrSetOf_spec hb h
  case h_16 => exact decodeSequenceOrSetOf_spec hb h
  case h_17 => exact hb.failure (Option.some.inj h)
  all_goals
    cases h
    exact hb.unchanged fun _ => by simp_all [EggAsn1xType.isList]
termination_by (sizeOf tlv, sizeOf node, 2)

theorem decodePrimitive_spec {node node' : GNode} {tlv : Atlv} {ok : Bool} (hb : Blank node)
    (h : anodeDecodePrimitive node tlv = some (ok, node')) : Decoded node tlv ok node' ∧ node'.data.parsed = none := by
  rw [anodeDecodePrimitive] at h
  split at h
  case isTrue => cases h
  case isFalse =>
    split at h
    case h_1 htype => exact decodeBitString_spec hb htype h
    case h_20 htype =>
      cases h
      exact hb.unchanged fun _ => by rw [htype]; rfl
    case h_21 htype => exact decodeChoice_spec hb htype h
    case h_22 => exact hb.failure (Option.some.inj h)
    all_goals
      cases h
      exact ⟨hb.decoded _ ⟨rfl, rfl, rfl⟩ fun _ => by simp_all [EggAsn1xType.isList], rfl⟩
termination_by (sizeOf tlv, sizeOf node, 2)

theorem decodeChoice_spec {node node' : GNode} {tlv : Atlv} {ok : Bool} (hb : Blank node)
    (htype : anodeDefType node = .choice) (h : anodeDecodeChoice node tlv = some (ok, node')) :
    Decoded node tlv ok node' ∧ node'.data.parsed = none := by
  have hnot : (anodeDefType node).isList = false := by rw [htype]; rfl
  rw [anodeDecodeChoice] at h
  obtain ⟨children, hchildren, h⟩ := Option.bind_eq_some_iff.mp h
  have hall := decodeChoices_spec (fun child hc => hb.of_mem hc) hchildren
  have hkept : ∀ n : GNode, ok → (anodeDefType node).isList → Kept n tlv.child := fun n _ hlist => by
    rw [hnot] at hlist
    cases hlist
  dsimp only at h
  split at h
  case isTrue =>
    cases h
    exact ⟨⟨⟨rfl, rfl, rfl⟩, hall, hkept _⟩, hb.parsed⟩
  case isFalse =>
    cases h
    exact ⟨⟨⟨rfl, rfl, rfl⟩, hall, hkept _⟩, hb.parsed⟩
termination_by (sizeOf tlv, sizeOf node, 1)
decreasing_by
  exact Prod.Lex.right _ (Prod.Lex.left _ _ (sizeOf_children node))

theorem decodeChoices_spec {nodes nodes' : List GNode} {tlv : Atlv} (hb : ∀ node ∈ nodes, Blank node)
    (h : decodeChoices nodes tlv = some nodes') : ∀ node ∈ nodes', AllKept node := by
  match nodes with
  | [] =>
    rw [decodeChoices] at h
    cases h
    simp
  | node :: nodes =>
    rw [decodeChoices] at h
    obtain ⟨⟨ok, first⟩, hfirst, h⟩ := Option.bind_eq_some_iff.mp h
    obtain ⟨rest, hrest, h⟩ := Option.bind_eq_some_iff.mp h
    cases h
    obtain ⟨hnode, hnodes⟩ := List.forall_mem_cons.mp hb
    obtain ⟨hkept, -, -⟩ := decodeOne_spec hnode hfirst
    exact List.forall_mem_cons.mpr ⟨hkept.modify _ ⟨rfl, rfl, rfl⟩ rfl, decodeChoices_spec hnodes hrest⟩
termination_by (sizeOf tlv, sizeOf nodes, 0)

theorem decodeSequenceOrSet_spec {node node' : GNode} {tlv : Atlv} {ok : Bool} (hb : Blank node)
    (hnot : (anodeDefType node).isList = false) (h : anodeDecodeSequenceOrSet node tlv = some (ok, node')) :
    Decoded node tlv ok node' ∧ node'.data.parsed = none := by
  rw [anodeDecodeSequenceOrSet] at h
  obtain ⟨ascend, -, h⟩ := Option.bind_eq_some_iff.mp h
  split at h
  case isTrue => exact hb.failure (Option.some.inj h)
  case isFalse =>
    split at h
    case isTrue => cases h
    case isFalse =>
      obtain ⟨⟨ok', children⟩, hchildren, h⟩ := Option.bind_eq_some_iff.mp h
      cases h
      have hall := decodeAnything_spec (fun child hc => hb.of_mem hc) hchildren
      exact ⟨⟨⟨rfl, rfl, rfl⟩, hall, fun _ hlist => by rw [hnot] at hlist; cases hlist⟩, hb.parsed⟩
termination_by (sizeOf tlv, sizeOf node, 1)
decreasing_by
  exact Prod.Lex.left _ _ (sizeOf_child tlv)

theorem decodeSequenceOrSetOf_spec {node node' : GNode} {tlv : Atlv} {ok : Bool} (hb : Blank node)
    (h : anodeDecodeSequenceOrSetOf node tlv = some (ok, node')) :
    Decoded node tlv ok node' ∧ node'.data.parsed = none := by
  rw [anodeDecodeSequenceOrSetOf] at h
  split at h
  case h_1 =>
    cases h
    exact hb.unchanged (by simp)
  case h_2 child others hchildren =>
    have hothers : ∀ other ∈ others, Blank other := fun other hc => hb.of_mem (by simp [hchildren, hc])
    have hnone : others.filter eggAsn1xHave = [] := by
      simpa using fun other hc => (hothers other hc).not_have
    split at h
    case h_1 hempty =>
      cases h
      refine ⟨⟨.refl node, fun _ hc => (hb.of_mem hc).allKept, fun _ _ => ⟨?_, by simp [hempty]⟩⟩, hb.parsed⟩
      have hmem : child ∈ node.children := by simp [hchildren]
      have hchild := (hb.of_mem hmem).not_have
      simp [hchildren, hempty, hchild, hnone]
    case h_2 ctlv tlvs hcontent =>
      have hsize := sizeOf_element hcontent
      obtain ⟨⟨ok', first⟩, hfirst, h⟩ := Option.bind_eq_some_iff.mp h
      obtain ⟨hkept, -, hparsed⟩ := decodeOne_spec (hb.of_mem (by simp [hchildren])) hfirst
      have hall : ∀ child ∈ (node.setChildren (first :: others)).children, AllKept child :=
        List.forall_mem_cons.mpr ⟨hkept, fun other hc => (hothers other hc).allKept⟩
      dsimp only at h
      split at h
      case isTrue hok =>
        cases h
        exact ⟨⟨⟨rfl, rfl, rfl⟩, hall, fun hok' => by simp_all⟩, hb.parsed⟩
      case isFalse hok =>
        obtain rfl : ok' = true := by simpa using hok
        have hhave : eggAsn1xHave first := have_of_parsed (by rw [hparsed]; rfl)
        have hdone : ((node.setChildren (first :: others)).children.filter eggAsn1xHave).map (·.data.parsed) =
            [ctlv].map some := by
          simp [hhave, hnone, hparsed]
        have hone : [ctlv].length = 1 := rfl
        obtain ⟨⟨hsame, hparsed'⟩, hall', hkept'⟩ := decodeElements_spec hall hdone hone (by decide) h
        refine ⟨⟨⟨hsame.adef, hsame.join, hsame.opts⟩, hall', fun hok _ => ?_⟩, hparsed'.trans hb.parsed⟩
        rw [hcontent]
        exact hkept' hok
termination_by (sizeOf tlv, sizeOf node, 1)

theorem decodeElements_spec {node node' : GNode} {tag i : Nat} {tlvs done : List Atlv} {ok : Bool}
    (hchildren : ∀ child ∈ node.children, AllKept child)
    (hdone : (node.children.filter eggAsn1xHave).map (·.data.parsed) = done.map some) (hi : done.length = i)
    (hlt : i < 2 ^ 31) (h : decodeElements node tag i tlvs = some (ok, node')) :
    (Same node node' ∧ node'.data.parsed = node.data.parsed) ∧ (∀ child ∈ node'.children, AllKept child) ∧
      (ok → Kept node' (done ++ tlvs)) := by
  match tlvs with
  | [] =>
    rw [decodeElements] at h
    cases h
    refine ⟨⟨.refl node, rfl⟩, hchildren, fun _ => ⟨?_, ?_⟩⟩
    · rw [List.append_nil, hdone]
    · rw [List.append_nil, hi]
      exact hlt
  | ctlv :: tlvs =>
    rw [decodeElements] at h
    split at h
    case isTrue =>
      cases h
      exact ⟨⟨⟨rfl, rfl, rfl⟩, rfl⟩, hchildren, by simp⟩
    case isFalse =>
      split at h
      case h_1 => cases h
      case h_2 child others hlist =>
        obtain ⟨⟨ok', other⟩, hother, h⟩ := Option.bind_eq_some_iff.mp h
        obtain ⟨hkept, -, hparsed⟩ := decodeOne_spec (blank_clone child) hother
        have hall : ∀ child ∈ (node.setChildren (node.children ++ [other])).children, AllKept child := by
          simpa [or_imp, forall_and] using ⟨hchildren, hkept⟩
        dsimp only at h
        split at h
        case isTrue hok =>
          cases h
          exact ⟨⟨⟨rfl, rfl, rfl⟩, rfl⟩, hall, fun hok' => by simp_all⟩
        case isFalse hok =>
          obtain rfl : ok' = true := by simpa using hok
          split at h
          case isTrue => cases h
          case isFalse hnext =>
            have hhave : eggAsn1xHave other := have_of_parsed (by rw [hparsed]; rfl)
            have hdone' : ((node.setChildren (node.children ++ [other])).children.filter eggAsn1xHave).map
                (·.data.parsed) = (done ++ [ctlv]).map some := by
              simp [hdone, hhave, hparsed]
            have hi' : (done ++ [ctlv]).length = i + 1 := by simp [hi]
            obtain ⟨⟨hsame, hparsed'⟩, hall', hkept'⟩ := decodeElements_spec hall hdone' hi' (by omega) h
            refine ⟨⟨⟨hsame.adef, hsame.join, hsame.opts⟩, hparsed'⟩, hall', fun hok => ?_⟩
            have hkept'' := hkept' hok
            rwa [List.append_assoc, List.singleton_append] at hkept''
termination_by (sizeOf tlvs, sizeOf node, 0)

theorem decodeOne_spec {node node' : GNode} {tlv : Atlv} {ok : Bool} (hb : Blank node)
    (h : anodeDecodeOne node tlv = some (ok, node')) :
    AllKept node' ∧ Same node node' ∧ node'.data.parsed = if ok then some tlv else none := by
  rw [anodeDecodeOne] at h
  split at h
  case isTrue =>
    cases h
    exact ⟨hb.allKept.modify _ ⟨rfl, rfl, rfl⟩ rfl, ⟨rfl, rfl, rfl⟩, hb.parsed⟩
  case isFalse =>
    obtain ⟨hd, hparsed⟩ := decodeOneWithoutTag_spec hb h
    exact ⟨hd.allKept hparsed, hd.same, hparsed⟩
termination_by (sizeOf tlv, sizeOf node, 4)

theorem decodeAnything_spec {nodes nodes' : List GNode} {tlvs : List Atlv} {ok : Bool}
    (hb : ∀ node ∈ nodes, Blank node) (h : anodeDecodeAnything nodes tlvs = some (ok, nodes')) :
    ∀ node ∈ nodes', AllKept node := by
  match nodes, tlvs with
  | [], [] =>
    rw [anodeDecodeAnything] at h
    cases h
    simp
  | [], _ :: _ =>
    rw [anodeDecodeAnything] at h
    cases h
  | node :: nodes, [] =>
    obtain ⟨hnode, hnodes⟩ := List.forall_mem_cons.mp hb
    have hrest : ∀ node ∈ nodes, AllKept node := fun node hc => (hnodes node hc).allKept
    rw [anodeDecodeAnything] at h
    have hblank := decodeOptionOrDefault_blank hnode
    dsimp only at h
    split at h
    case isTrue =>
      cases h
      exact List.forall_mem_cons.mpr ⟨hblank.allKept.failure _, hrest⟩
    case isFalse =>
      obtain ⟨⟨ok', rest⟩, hnext, h⟩ := Option.bind_eq_some_iff.mp h
      cases h
      exact List.forall_mem_cons.mpr ⟨hblank.allKept, decodeAnything_spec hnodes hnext⟩
  | node :: nodes, tlv :: tlvs =>
    obtain ⟨hnode, hnodes⟩ := List.forall_mem_cons.mp hb
    have hrest : ∀ node ∈ nodes, AllKept node := fun node hc => (hnodes node hc).allKept
    rw [anodeDecodeAnything] at h
    dsimp only at h
    split at h
    case isTrue =>
      have hblank := decodeOptionOrDefault_blank hnode
      split at h
      case isTrue =>
        cases h
        exact List.forall_mem_cons.mpr ⟨hblank.allKept.failure _, hrest⟩
      case isFalse =>
        obtain ⟨⟨ok', rest⟩, hnext, h⟩ := Option.bind_eq_some_iff.mp h
        cases h
        exact List.forall_mem_cons.mpr ⟨hblank.allKept, decodeAnything_spec hnodes hnext⟩
    case isFalse =>
      obtain ⟨⟨ok', first⟩, hfirst, h⟩ := Option.bind_eq_some_iff.mp h
      obtain ⟨hd, hparsed⟩ := decodeOneWithoutTag_spec hnode hfirst
      have hkept := hd.allKept hparsed
      dsimp only at h
      split at h
      case isTrue =>
        cases h
        exact List.forall_mem_cons.mpr ⟨hkept, hrest⟩
      case isFalse =>
        split at h
        case isTrue =>
          cases h
          exact List.forall_mem_cons.mpr ⟨hkept.failure _, hrest⟩
        case isFalse =>
          obtain ⟨⟨ok'', rest⟩, hnext, h⟩ := Option.bind_eq_some_iff.mp h
          cases h
          exact List.forall_mem_cons.mpr ⟨hkept, decodeAnything_spec hnodes hnext⟩
termination_by (sizeOf tlvs, sizeOf nodes, 0)

end

-- `egg_asn1x_count` and `egg_asn1x_node` on a list with the elements `tlvs`.
structure Indexed (node : GNode) (tlvs : List Atlv) : Prop where
  count    : eggAsn1xCount node = tlvs.length
  nodes    : ∀ i : Nat, 1 ≤ i → i ≤ tlvs.length → ∃ k child, eggAsn1xNode node [.index i] = some (some [k]) ∧
    node.children[k]? = some child ∧ child.data.parsed = tlvs[i - 1]?
  distinct : ∀ i j : Nat, 1 ≤ i → i ≤ tlvs.length → eggAsn1xNode node [.index i] = eggAsn1xNode node [.index j] → i = j
  last     : eggAsn1xNode node [.index (tlvs.length + 1)] = some none

theorem eggAsn1xNode_index {i : Int} (hlist : (anodeDefType node).isList) (hi : 1 ≤ i) :
    eggAsn1xNode node [.index i] = some ((nthHave i node.children).map ([·])) := by
  unfold eggAsn1xNode
  simp only [hlist]
  rw [if_neg (by omega)]
  cases hk : nthHave i node.children with
  | none => rfl
  | some k =>
    obtain ⟨child, hget, -, -⟩ := nthHave_some hk
    simp [hget, eggAsn1xNode]

theorem Kept.indexed (h : Kept node tlvs) (hlist : (anodeDefType node).isList) : Indexed node tlvs := by
  have hlen : (node.children.filter eggAsn1xHave).length = tlvs.length := by
    simpa using congrArg List.length h.parsed
  have hcount : node.children.countP eggAsn1xHave = tlvs.length := by
    rw [List.countP_eq_length_filter, hlen]
  have hfew := h.few
  have hfound : ∀ i : Nat, 1 ≤ i → i ≤ tlvs.length → ∃ k, nthHave i node.children = some k := by
    intro i hi hle
    by_contra hnone
    have hlt := (nthHave_none (by omega)).mp (Option.eq_none_iff_forall_ne_some.mpr (not_exists.mp hnone))
    omega
  refine ⟨?_, ?_, ?_, ?_⟩
  case refine_1 => rw [eggAsn1xCount, if_pos hlist, hcount, Nat.mod_eq_of_lt (by omega)]
  case refine_2 =>
    intro i hi hle
    obtain ⟨k, hk⟩ := hfound i hi hle
    obtain ⟨child, hget, -, -⟩ := nthHave_some hk
    have hfilter := getElem?_filter_have hk
    have hindex : ((i : Int) - 1).toNat = i - 1 := by omega
    rw [hindex, hget] at hfilter
    have hparsed := congrArg (·[i - 1]?) h.parsed
    simp only [List.getElem?_map, hfilter] at hparsed
    refine ⟨k, child, by rw [eggAsn1xNode_index hlist (by omega), hk]; rfl, hget, ?_⟩
    rw [List.getElem?_eq_getElem (by omega)] at hparsed ⊢
    exact Option.some.inj hparsed
  case refine_3 =>
    intro i j hi hle heq
    obtain ⟨k, hk⟩ := hfound i hi hle
    rw [eggAsn1xNode_index hlist (by omega), hk] at heq
    by_cases hj : 1 ≤ j
    case pos =>
      rw [eggAsn1xNode_index hlist (by omega)] at heq
      have hk' : nthHave j node.children = some k := by
        cases hj' : nthHave j node.children with
        | none   => simp [hj'] at heq
        | some l => simpa [hj', eq_comm] using heq
      exact Int.ofNat.inj (nthHave_inj hk hk')
    case neg =>
      obtain rfl : j = 0 := by omega
      unfold eggAsn1xNode at heq
      simp [hlist] at heq
  case refine_4 =>
    rw [eggAsn1xNode_index hlist (by omega), (nthHave_none (by omega)).mpr (by omega)]
    rfl

-- The root is decoded, or the encoding is not accepted.
theorem decodeAnything_root {asn : GNode} (hb : Blank asn) (h : anodeDecodeAnything [asn] [tlv] = some (true, nodes)) :
    ∃ asn', nodes = [asn'] ∧ AllKept asn' ∧ asn'.data.parsed = some tlv := by
  rw [anodeDecodeAnything] at h
  dsimp only at h
  split at h
  case isTrue => simp at h
  case isFalse =>
    obtain ⟨⟨ok, asn'⟩, hasn, h⟩ := Option.bind_eq_some_iff.mp h
    obtain ⟨hd, hparsed⟩ := decodeOneWithoutTag_spec hb hasn
    dsimp only at h
    split at h
    case isTrue => cases h
    case isFalse hok =>
      obtain rfl : ok = true := by simpa using hok
      rw [if_neg (by simp), anodeDecodeAnything] at h
      cases h
      exact ⟨asn', rfl, hd.allKept hparsed, hparsed⟩

theorem decoded_root {asn asn' : GNode} (h : eggAsn1xDecode now asn data = some (true, asn')) (htemplates : Templates asn) :
    AllKept asn' ∧ ∃ tlv, atlvParseDer data = some (.ok tlv) ∧ asn'.data.parsed = some tlv := by
  rw [eggAsn1xDecode, eggAsn1xDecodeFull] at h
  obtain ⟨r, hr, h⟩ := Option.bind_eq_some_iff.mp h
  cases r with
  | error msg => cases h
  | ok tlv =>
    obtain ⟨⟨ret, nodes⟩, hnodes, h⟩ := Option.bind_eq_some_iff.mp h
    dsimp only at h
    split at h
    case isTrue => cases h
    case isFalse hret =>
      obtain rfl : ret = true := by simpa using hret
      obtain ⟨root, rfl, hkept, hparsed⟩ := decodeAnything_root (blank_clear htemplates) hnodes
      obtain rfl := validate_unchanged h
      exact ⟨hkept, tlv, hr, hparsed⟩

-- In a tree that an encoding was decoded into, the nodes of each list are its elements in their order.
theorem decoded_lists_indexed (now : Nat) (asn asn' : GNode) (data : GBytes) (htemplates : Templates asn)
    (h : eggAsn1xDecode now asn data = some (true, asn')) :
    (∃ tlv, atlvParseDer data = some (.ok tlv) ∧ asn'.data.parsed = some tlv) ∧
    ∀ (node : GNode) (tlv : Atlv), node.Sub asn' → (anodeDefType node).isList → node.data.parsed = some tlv →
      Indexed node (elements node tlv) := by
  obtain ⟨hkept, hroot⟩ := decoded_root h htemplates
  refine ⟨hroot, fun node tlv hsub hlist hparsed => ?_⟩
  exact (hkept node hsub hlist tlv hparsed).indexed hlist

-- A SEQUENCE OF INTEGER with two elements.
def exampleNumbers : GNode :=
  .mk { adef := ⟨none, .sequenceOf, [], none⟩ } [.mk { adef := ⟨none, .integer, [], none⟩ } []]

def exampleNumbersData : GBytes :=
  ⟨[0x30, 0x06, 0x02, 0x01, 0x05, 0x02, 0x01, 0x07], []⟩

def exampleNumberTlv (c : UInt8) (behind : Bytes) : Atlv where
  cls   := 0
  tag   := 2
  off   := 2
  len   := 1
  value := some ⟨[c], behind⟩

def exampleNumbersTlv : Atlv where
  cls   := 0x20
  tag   := 16
  off   := 2
  len   := 6
  child := [exampleNumberTlv 5 [2, 1, 7], exampleNumberTlv 7 []]

def exampleNumberNode (tlv : Atlv) : GNode :=
  .mk { adef := ⟨none, .integer, [], none⟩, value := tlv.value, parsed := some tlv } []

def exampleNumbersDecoded : GNode :=
  .mk { adef := ⟨none, .sequenceOf, [], none⟩, parsed := some exampleNumbersTlv }
    [exampleNumberNode (exampleNumberTlv 5 [2, 1, 7]), exampleNumberNode (exampleNumberTlv 7 [])]

theorem exampleNumbers_templates : Templates exampleNumbers := by
  refine templates_iff.mpr ⟨fun _ => List.cons_ne_nil _ _, fun child hc => templates_iff.mpr ⟨fun hlist => ?_, ?_⟩⟩
  · obtain rfl := List.mem_singleton.mp hc
    cases hlist
  · obtain rfl := List.mem_singleton.mp hc
    exact fun _ h => absurd h List.not_mem_nil

theorem parse_exampleNumbers : atlvParseDer exampleNumbersData = some (.ok exampleNumbersTlv) :=
  rfl

theorem decode_exampleNumbers : eggAsn1xDecode 126 exampleNumbers exampleNumbersData = some (true, exampleNumbersDecoded) := by
  have h : anodeDecodeAnything [eggAsn1xClear exampleNumbers] [exampleNumbersTlv] = some (true, [exampleNumbersDecoded]) := by
    simp [eggAsn1xClear, clearNode, clearNodes, exampleNumbers, anodeDecodeAnything, anodeCalcTag, anodeCalcTagForFlags,
      anodeDefFlags, Anode.flags, anodeDefType, Anode.type, EggAsn1xType.universalTag, exampleNumbersTlv,
      anodeDecodeOneWithoutTag, anodeCalcExplicitForFlags, anodeDecodeStructured, anodeDecodeSequenceOrSetOf, anodeDecodeOne,
      EggAsn1xType.isList, classStructured, exampleNumberTlv, anodeDecodePrimitive, decodeElements, markParsed,
      anodeSetValue, anodeClone, anodeCloneAll, GNode.modify, GNode.setChildren, Anode.clrValue, Anode.clear, Anode.copy,
      exampleNumbersDecoded, exampleNumberNode, maxUlong]
  rw [eggAsn1xDecode, eggAsn1xDecodeFull, parse_exampleNumbers, Option.bind_eq_bind, Option.bind_some]
  dsimp only
  rw [h]
  rfl

theorem decoded_lists_indexed_exampleNumbers :
    Indexed exampleNumbersDecoded [exampleNumberTlv 5 [2, 1, 7], exampleNumberTlv 7 []] :=
  (decoded_lists_indexed 126 exampleNumbers exampleNumbersDecoded exampleNumbersData exampleNumbers_templates
    decode_exampleNumbers).2 exampleNumbersDecoded exampleNumbersTlv .refl rfl rfl

end Asn1x
