import GcrModel.Egg.Asn1x.Theorems.Simple
import Mathlib.Data.List.Forall2

-- Which element of an encoding was taken by which node of a tree.
namespace Asn1x

open GLib

variable {node node' child : GNode} {nodes nodes' children : List GNode} {tlv ctlv : Atlv} {tlvs : List Atlv}
  {flags : List Flag} {p : List GNode → Prop} {now : Nat} {strict : Bool} {data : GBytes}

-- The nodes that keep the bytes of a primitive element.
def EggAsn1xType.isValue (type : EggAsn1xType) : Bool :=
  type.isString || [.integer, .enumerated, .boolean, .objectId, .null, .time, .utcTime, .generalizedTime].contains type

-- The tag of an element is the one of the node, if it has one.
def TagMatches (node : GNode) (tlv : Atlv) : Prop :=
  anodeCalcTag node = maxUlong ∨ anodeCalcTag node = tlv.tag

-- The first octet says how many bits at the end are not used, and these are zero.
structure BitsTaken (an : Anode) (value : Option GBytes) : Prop where
  value    : value.map (·.data) = an.value.map fun bits => UInt8.ofNat an.bitsEmpty :: bits.data
  isSome   : an.value.isSome
  few      : an.bitsEmpty < 8
  trailing : ∀ bits, an.value = some bits → ∀ last ∈ bits.data.getLast?, last &&& UInt8.ofNat (0xFF >>> (8 - an.bitsEmpty)) = 0

def SetAscends (node : GNode) (tlv : Atlv) : Prop :=
  anodeDefType node = .set → (tlv.child.map (·.tag)).Pairwise (· ≤ ·)

mutual

-- An element was taken by a node, as it is or with an explicit tag around the content. All that is known of the
-- alternatives of a CHOICE is `p`.
inductive Taken (p : List GNode → Prop) : GNode → Atlv → Prop
  | plain {node : GNode} {tlv : Atlv} : TagMatches node tlv → node.data.parsed = some tlv →
    (anodeCalcExplicitForFlags node (anodeDefFlags node)).1 = false → Content p node tlv → Taken p node tlv
  | explicit {node : GNode} {tlv ctlv : Atlv} : TagMatches node tlv → node.data.parsed = some tlv →
    (anodeCalcExplicitForFlags node (anodeDefFlags node)).1 = true → tlv.cls &&& classContextSpecific ≠ 0 →
    tlv.child = [ctlv] → Content p node ctlv → Taken p node tlv

-- What became of the content.
inductive Content (p : List GNode → Prop) : GNode → Atlv → Prop
  | value {node : GNode} {tlv : Atlv} : tlv.cls &&& classStructured = 0 → (anodeDefType node).isValue →
    node.data.value = tlv.value → Content p node tlv
  | bits {node : GNode} {tlv : Atlv} : tlv.cls &&& classStructured = 0 → anodeDefType node = .bitString →
    BitsTaken node.data tlv.value → Content p node tlv
  | whole {node : GNode} {tlv : Atlv} :
    anodeDefType node = .any ∨ (anodeDefType node).isString ∧ tlv.cls &&& classStructured ≠ 0 →
    node.data.value = none → Content p node tlv
  | choice {node : GNode} {tlv : Atlv} : anodeDefType node = .choice → p node.children →
    (∃ child ∈ node.children, child.data.chosen) → (∀ child ∈ node.children, child.data.chosen → Taken p child tlv) →
    Content p node tlv
  | fields {node : GNode} {tlv : Atlv} : tlv.cls &&& classStructured ≠ 0 →
    anodeDefType node = .sequence ∨ anodeDefType node = .set → SetAscends node tlv → Fields p node.children tlv.child →
    Content p node tlv
  | items {node : GNode} {tlv : Atlv} : tlv.cls &&& classStructured ≠ 0 → (anodeDefType node).isList →
    List.Forall₂ (Taken p) (node.children.filter eggAsn1xHave) tlv.child → Content p node tlv

-- The elements were taken by the nodes in their order, and only nodes that may be absent were passed over.
inductive Fields (p : List GNode → Prop) : List GNode → List Atlv → Prop
  | nil : Fields p [] []
  | absent {node : GNode} {nodes : List GNode} {tlvs : List Atlv} :
    (anodeDefFlags node).contains .option ∨ (anodeDefFlags node).contains .default → eggAsn1xHave node = false →
    Fields p nodes tlvs → Fields p (node :: nodes) tlvs
  | present {node : GNode} {nodes : List GNode} {tlv : Atlv} {tlvs : List Atlv} : Taken p node tlv →
    Fields p nodes tlvs → Fields p (node :: nodes) (tlv :: tlvs)

end

theorem Taken.parsed (h : Taken p node tlv) : node.data.parsed = some tlv := by
  cases h with
  | plain _ hparsed _ _        => exact hparsed
  | explicit _ hparsed _ _ _ _ => exact hparsed

theorem Taken.have (h : Taken p node tlv) : eggAsn1xHave node :=
  have_of_parsed (by rw [h.parsed]; rfl)

-- The content only depends on what the node is, its value and its children.
structure SameContent (node node' : GNode) : Prop where
  same      : Same node node'
  value     : node'.data.value = node.data.value
  bitsEmpty : node'.data.bitsEmpty = node.data.bitsEmpty
  children  : node'.children = node.children

theorem Content.congr (h : Content p node tlv) (hsame : SameContent node node') : Content p node' tlv := by
  obtain ⟨hsame, hvalue, hbits, hchildren⟩ := hsame
  have htype := hsame.type_eq
  cases h with
  | value hprimitive hisvalue htaken => exact .value hprimitive (by rwa [htype]) (hvalue.trans htaken)
  | bits hprimitive hbit htaken =>
    obtain ⟨htaken, hsome, hfew, htrailing⟩ := htaken
    rw [← hvalue] at hsome
    rw [← hbits] at hfew
    refine .bits hprimitive (htype.trans hbit) ⟨?_, hsome, hfew, ?_⟩
    · rw [htaken, hvalue, hbits]
    · rwa [hvalue, hbits]
  | whole hwhole hnone => exact .whole (by rwa [htype]) (hvalue.trans hnone)
  | choice hchoice hp hsome htaken =>
    rw [← hchildren] at hp hsome htaken
    exact .choice (htype.trans hchoice) hp hsome htaken
  | fields hstructured hfields hascends hall =>
    rw [← hchildren] at hall
    refine .fields hstructured (by rwa [htype]) (fun hset => hascends (htype ▸ hset)) hall
  | items hstructured hlist hall =>
    rw [← hchildren] at hall
    exact .items hstructured (by rwa [htype]) hall

theorem Same.tagMatches (h : Same node node') (hm : TagMatches node tlv) : TagMatches node' tlv := by
  rwa [TagMatches, h.calcTag]

theorem Taken.congr (h : Taken p node tlv) (hsame : SameContent node node') (hparsed : node'.data.parsed = node.data.parsed) :
    Taken p node' tlv := by
  have hflags := hsame.same.flags_eq
  cases h with
  | plain hmatches hp hexplicit hcontent =>
    refine .plain (hsame.same.tagMatches hmatches) (hparsed.trans hp) ?_ (hcontent.congr hsame)
    rwa [hflags, hsame.same.explicit]
  | explicit hmatches hp hexplicit hcls hchild hcontent =>
    refine .explicit (hsame.same.tagMatches hmatches) (hparsed.trans hp) ?_ hcls hchild (hcontent.congr hsame)
    rwa [hflags, hsame.same.explicit]

theorem Taken.choose (h : Taken p node tlv) (chosen : Bool) : Taken p (node.modify ({ · with chosen := chosen })) tlv :=
  h.congr ⟨⟨rfl, rfl, rfl⟩, rfl, rfl, rfl⟩ rfl

theorem Content.mark (h : Content p node tlv) (ok : Bool) (tlv' : Atlv) : Content p (markParsed ok tlv' node) tlv := by
  cases ok
  case false => exact h
  case true  => exact h.congr ⟨⟨rfl, rfl, rfl⟩, rfl, rfl, rfl⟩

-- The tags that were passed are not greater than the ones to come.
theorem ascending_pairwise {i tag : Nat} (h : ascending i tag tlvs = some true) :
    (tlvs.map (·.tag)).Pairwise (· ≤ ·) ∧ (0 < i → ∀ tlv ∈ tlvs, tag ≤ tlv.tag) := by
  induction tlvs generalizing i tag
  case nil => simp
  case cons tlv tlvs ih =>
    rw [ascending] at h
    split at h
    case isTrue => cases h
    case isFalse hnot =>
      split at h
      case isTrue => cases h
      case isFalse =>
        obtain ⟨hpairwise, hle⟩ := ih h
        have hle := hle (Nat.succ_pos i)
        refine ⟨?_, fun hi => ?_⟩
        · rw [List.map_cons, List.pairwise_cons]
          refine ⟨fun n hn => ?_, hpairwise⟩
          obtain ⟨t, ht, rfl⟩ := List.mem_map.mp hn
          exact hle t ht
        · have htag : tag ≤ tlv.tag := Nat.le_of_not_lt fun hlt => hnot ⟨hi, hlt⟩
          exact List.forall_mem_cons.mpr ⟨htag, fun t ht => Nat.le_trans htag (hle t ht)⟩

theorem setAscends (h : tagsAscend node tlv = some true) : SetAscends node tlv := by
  intro hset
  rw [tagsAscend, if_pos hset] at h
  exact (ascending_pairwise h).1

theorem decodeBitString_bits (h : anodeDecodeBitString node tlv = some (true, node')) : BitsTaken node'.data tlv.value := by
  unfold anodeDecodeBitString at h
  split at h
  case h_1 => cases h
  case h_2 value hvalue =>
    split at h
    case h_1 => cases h
    case h_2 empty buf hbuf =>
      split at h
      case isTrue => cases h
      case isFalse hfew =>
        split at h
        case isTrue => cases h
        case isFalse htrailing =>
          cases h
          have hlt : empty.toNat < 8 := UInt8.lt_iff_toNat_lt.mp (UInt8.not_le.mp hfew)
          refine ⟨?_, rfl, hlt, ?_⟩
          · simp [hvalue, hbuf, Anode.takeValue]
          · intro bits hbits last hlast
            obtain rfl : (⟨buf, value.behind⟩ : GBytes) = bits := Option.some.inj hbits
            have hlast : buf.getLast? = some last := hlast
            simpa [hlast] using htrailing

theorem filter_blank (h : ∀ child ∈ children, Blank child) : children.filter eggAsn1xHave = [] := by
  simpa using fun child hc => (h child hc).not_have

-- A node that is passed over may be absent.
theorem decodeOptionOrDefault_flags (h : (anodeDecodeOptionOrDefault node).1 = true) :
    (anodeDefFlags (anodeDecodeOptionOrDefault node).2).contains .option ∨
      (anodeDefFlags (anodeDecodeOptionOrDefault node).2).contains .default := by
  unfold anodeDecodeOptionOrDefault at h ⊢
  split at h
  case isTrue hflags  =>
    rw [if_pos hflags]
    exact hflags
  case isFalse => cases h

-- No other tag is expected.
theorem tagMatches_of_not (h : ¬(anodeCalcTag node ≠ maxUlong ∧ anodeCalcTag node ≠ tlv.tag)) : TagMatches node tlv := by
  rw [TagMatches]
  exact or_iff_not_imp_left.mpr fun hne => not_not.mp fun htag => h ⟨hne, htag⟩

mutual

theorem decodeOneWithoutTag_content {node node' : GNode} {tlv : Atlv} {flags : List Flag} (hb : Blank node)
    (h : anodeDecodeOneWithoutTag node tlv flags = some (true, node')) :
    Content (fun _ => True) node' (contentOf node flags tlv) ∧ ((anodeCalcExplicitForFlags node flags).1 = true →
      tlv.cls &&& classContextSpecific ≠ 0 ∧ tlv.child = [contentOf node flags tlv]) := by
  rw [anodeDecodeOneWithoutTag] at h
  split at h
  case isTrue hexplicit =>
    split at h
    case isTrue => cases h
    case isFalse hcls =>
      split at h
      case h_1 => cases h
      case h_2 ctlv hchild =>
        obtain ⟨⟨ok, inner⟩, hinner, h⟩ := Option.bind_eq_some_iff.mp h
        cases h
        have hsize := sizeOf_only hchild
        obtain ⟨hcontent, -⟩ := decodeOneWithoutTag_content hb hinner
        rw [contentOf_withoutTag] at hcontent
        have heq : contentOf node flags tlv = ctlv := by
          rw [contentOf, if_pos hexplicit, hchild]
          rfl
        rw [heq]
        exact ⟨hcontent.mark true tlv, fun _ => ⟨hcls, hchild⟩⟩
      case h_3 => cases h
  case isFalse hexplicit =>
    have heq : contentOf node flags tlv = tlv := if_neg hexplicit
    rw [heq]
    refine ⟨?_, fun h => absurd h hexplicit⟩
    dsimp only at h
    split at h
    case isTrue hstructured =>
      obtain ⟨⟨ok, inner⟩, hinner, h⟩ := Option.bind_eq_some_iff.mp h
      cases h
      exact (decodeStructured_content hb hstructured hinner).mark true tlv
    case isFalse hprimitive =>
      obtain ⟨⟨ok, inner⟩, hinner, h⟩ := Option.bind_eq_some_iff.mp h
      cases h
      exact (decodePrimitive_content hb (not_not.mp hprimitive) hinner).mark true tlv
termination_by (sizeOf tlv, sizeOf node, 3)

theorem decodeStructured_content {node node' : GNode} {tlv : Atlv} (hb : Blank node)
    (hstructured : tlv.cls &&& classStructured ≠ 0) (h : anodeDecodeStructured node tlv = some (true, node')) :
    Content (fun _ => True) node' tlv := by
  rw [anodeDecodeStructured] at h
  split at h
  case h_1 htype  =>
    cases h
    exact .whole (.inl htype) hb.value
  case h_12 htype => exact decodeChoice_content hb htype h
  case h_13 htype => exact decodeSequenceOrSet_content hb hstructured (.inl htype) h
  case h_14 htype => exact decodeSequenceOrSet_content hb hstructured (.inr htype) h
  case h_15 htype => exact decodeSequenceOrSetOf_content hb hstructured (by rw [htype]; rfl) h
  case h_16 htype => exact decodeSequenceOrSetOf_content hb hstructured (by rw [htype]; rfl) h
  case h_17 => cases h
  all_goals
    rename_i htype
    cases h
    exact .whole (.inr ⟨by rw [htype]; rfl, hstructured⟩) hb.value
termination_by (sizeOf tlv, sizeOf node, 2)

theorem decodePrimitive_content {node node' : GNode} {tlv : Atlv} (hb : Blank node)
    (hprimitive : tlv.cls &&& classStructured = 0) (h : anodeDecodePrimitive node tlv = some (true, node')) :
    Content (fun _ => True) node' tlv := by
  rw [anodeDecodePrimitive] at h
  split at h
  case isTrue => cases h
  case isFalse =>
    split at h
    case h_1 htype =>
      obtain ⟨hd, -⟩ := decodeBitString_spec hb htype h
      exact .bits hprimitive (hd.same.type_eq.trans htype) (decodeBitString_bits h)
    case h_20 htype =>
      cases h
      exact .whole (.inl htype) hb.value
    case h_21 htype => exact decodeChoice_content hb htype h
    case h_22 => cases h
    all_goals
      rename_i htype
      cases h
      have hsame : anodeDefType (anodeSetValue node tlv.value) = anodeDefType node := rfl
      exact .value hprimitive (by rw [hsame, htype]; rfl) rfl
termination_by (sizeOf tlv, sizeOf node, 2)

theorem decodeChoice_content {node node' : GNode} {tlv : Atlv} (hb : Blank node) (htype : anodeDefType node = .choice)
    (h : anodeDecodeChoice node tlv = some (true, node')) : Content (fun _ => True) node' tlv := by
  rw [anodeDecodeChoice] at h
  obtain ⟨children, hchildren, h⟩ := Option.bind_eq_some_iff.mp h
  have hall := decodeChoices_taken (fun child hc => hb.of_mem hc) hchildren
  dsimp only at h
  split at h
  case isTrue hany =>
    cases h
    exact .choice htype trivial (List.any_eq_true.mp hany) hall
  case isFalse => cases h
termination_by (sizeOf tlv, sizeOf node, 1)
decreasing_by
  exact Prod.Lex.right _ (Prod.Lex.left _ _ (sizeOf_children node))

theorem decodeChoices_taken {nodes nodes' : List GNode} {tlv : Atlv} (hb : ∀ node ∈ nodes, Blank node)
    (h : decodeChoices nodes tlv = some nodes') :
    ∀ node ∈ nodes', node.data.chosen → Taken (fun _ => True) node tlv := by
  match nodes with
  | [] =>
    rw [decodeChoices] at h
    cases h
    simp
  | node :: nodes =>
    rw [decodeChoices] at h
    obtain ⟨⟨ok, first⟩, hfirst, h⟩ := Option.bind_eq_some_iff.mp h
    obtain ⟨rest, hrest, h⟩ := Option.bind_eq_some_iff.mp h
    cases h
    obtain ⟨hnode, hnodes⟩ := List.forall_mem_cons.mp hb
    refine List.forall_mem_cons.mpr ⟨fun hchosen => ?_, decodeChoices_taken hnodes hrest⟩
    obtain rfl : ok = true := hchosen
    exact (decodeOne_taken hnode hfirst).choose true
termination_by (sizeOf tlv, sizeOf nodes, 0)

theorem decodeSequenceOrSet_content {node node' : GNode} {tlv : Atlv} (hb : Blank node)
    (hstructured : tlv.cls &&& classStructured ≠ 0) (htype : anodeDefType node = .sequence ∨ anodeDefType node = .set)
    (h : anodeDecodeSequenceOrSet node tlv = some (true, node')) : Content (fun _ => True) node' tlv := by
  rw [anodeDecodeSequenceOrSet] at h
  obtain ⟨ascend, hascend, h⟩ := Option.bind_eq_some_iff.mp h
  split at h
  case isTrue => cases h
  case isFalse hascends =>
    obtain rfl : ascend = true := by simpa using hascends
    split at h
    case isTrue => cases h
    case isFalse =>
      obtain ⟨⟨ok, children⟩, hchildren, h⟩ := Option.bind_eq_some_iff.mp h
      cases h
      exact .fields hstructured htype (setAscends hascend) (decodeAnything_fields (fun child hc => hb.of_mem hc) hchildren)
termination_by (sizeOf tlv, sizeOf node, 1)
decreasing_by
  exact Prod.Lex.left _ _ (sizeOf_child tlv)

theorem decodeSequenceOrSetOf_content {node node' : GNode} {tlv : Atlv} (hb : Blank node)
    (hstructured : tlv.cls &&& classStructured ≠ 0) (hlist : (anodeDefType node).isList)
    (h : anodeDecodeSequenceOrSetOf node tlv = some (true, node')) : Content (fun _ => True) node' tlv := by
  rw [anodeDecodeSequenceOrSetOf] at h
  split at h
  case h_1 => cases h
  case h_2 child others hchildren =>
    have hothers : others.filter eggAsn1xHave = [] :=
      filter_blank fun other hc => hb.of_mem (by simp [hchildren, hc])
    split at h
    case h_1 hempty =>
      cases h
      refine .items hstructured hlist ?_
      rw [filter_blank fun other hc => hb.of_mem hc, hempty]
      exact .nil
    case h_2 ctlv tlvs hcontent =>
      have hsize := sizeOf_element hcontent
      obtain ⟨first, hfirst, h⟩ := bind_ok h fun _ _ => rfl
      have htaken := decodeOne_taken (hb.of_mem (by simp [hchildren])) hfirst
      have hdone : List.Forall₂ (Taken fun _ => True)
          ((node.setChildren (first :: others)).children.filter eggAsn1xHave) [ctlv] := by
        rw [GNode.children_setChildren, List.filter_cons_of_pos htaken.have, hothers]
        exact .cons htaken .nil
      obtain ⟨hsame, hall⟩ := decodeElements_taken hdone h
      rw [List.singleton_append, ← hcontent] at hall
      have htype : anodeDefType node' = anodeDefType node := hsame.type_eq
      exact .items hstructured (htype ▸ hlist) hall
termination_by (sizeOf tlv, sizeOf node, 1)

theorem decodeElements_taken {node node' : GNode} {tag i : Nat} {tlvs done : List Atlv}
    (hdone : List.Forall₂ (Taken fun _ => True) (node.children.filter eggAsn1xHave) done)
    (h : decodeElements node tag i tlvs = some (true, node')) :
    Same node node' ∧ List.Forall₂ (Taken fun _ => True) (node'.children.filter eggAsn1xHave) (done ++ tlvs) := by
  match tlvs with
  | [] =>
    rw [decodeElements] at h
    cases h
    rw [List.append_nil]
    exact ⟨.refl node, hdone⟩
  | ctlv :: tlvs =>
    rw [decodeElements] at h
    split at h
    case isTrue => cases h
    case isFalse =>
      split at h
      case h_1 => cases h
      case h_2 child others hlist =>
        obtain ⟨other, hother, h⟩ := bind_ok h fun _ _ => rfl
        split at h
        case isTrue => cases h
        case isFalse =>
          have htaken := decodeOne_taken (blank_clone child) hother
          have hdone' : List.Forall₂ (Taken fun _ => True)
              ((node.setChildren (node.children ++ [other])).children.filter eggAsn1xHave) (done ++ [ctlv]) := by
            rw [GNode.children_setChildren, List.filter_append, List.filter_cons_of_pos htaken.have]
            exact List.rel_append hdone (.cons htaken .nil)
          obtain ⟨hsame, hall⟩ := decodeElements_taken hdone' h
          rw [List.append_assoc, List.singleton_append] at hall
          exact ⟨⟨hsame.adef, hsame.join, hsame.opts⟩, hall⟩
termination_by (sizeOf tlvs, sizeOf node, 0)

theorem decodeOne_taken {node node' : GNode} {tlv : Atlv} (hb : Blank node)
    (h : anodeDecodeOne node tlv = some (true, node')) : Taken (fun _ => True) node' tlv := by
  rw [anodeDecodeOne] at h
  split at h
  case isTrue => cases h
  case isFalse hmatches =>
    exact taken_of_decoded hb (tagMatches_of_not hmatches) h
termination_by (sizeOf tlv, sizeOf node, 5)

theorem taken_of_decoded {node node' : GNode} {tlv : Atlv} (hb : Blank node) (hmatches : TagMatches node tlv)
    (h : anodeDecodeOneWithoutTag node tlv (anodeDefFlags node) = some (true, node')) : Taken (fun _ => True) node' tlv := by
  obtain ⟨⟨hsame, -, -⟩, hparsed⟩ := decodeOneWithoutTag_spec hb h
  obtain ⟨hcontent, hexplicit⟩ := decodeOneWithoutTag_content hb h
  have heq : anodeCalcExplicitForFlags node' (anodeDefFlags node') = anodeCalcExplicitForFlags node (anodeDefFlags node) := by
    rw [hsame.flags_eq, hsame.explicit]
  cases he : (anodeCalcExplicitForFlags node (anodeDefFlags node)).1
  case false =>
    rw [contentOf, if_neg (by simp [he])] at hcontent
    exact .plain (hsame.tagMatches hmatches) hparsed (by rw [heq, he]) hcontent
  case true =>
    obtain ⟨hcls, hchild⟩ := hexplicit he
    exact .explicit (hsame.tagMatches hmatches) hparsed (by rw [heq, he]) hcls hchild hcontent
termination_by (sizeOf tlv, sizeOf node, 4)

theorem decodeAnything_fields {nodes nodes' : List GNode} {tlvs : List Atlv} (hb : ∀ node ∈ nodes, Blank node)
    (h : anodeDecodeAnything nodes tlvs = some (true, nodes')) : Fields (fun _ => True) nodes' tlvs := by
  match nodes, tlvs with
  | [], [] =>
    rw [anodeDecodeAnything] at h
    cases h
    exact .nil
  | [], _ :: _ =>
    rw [anodeDecodeAnything] at h
    cases h
  | node :: nodes, [] =>
    obtain ⟨hnode, hnodes⟩ := List.forall_mem_cons.mp hb
    rw [anodeDecodeAnything] at h
    dsimp only at h
    split at h
    case isTrue => cases h
    case isFalse hok =>
      obtain ⟨⟨ok, rest⟩, hnext, h⟩ := Option.bind_eq_some_iff.mp h
      cases h
      exact .absent (decodeOptionOrDefault_flags (not_not.mp hok)) (decodeOptionOrDefault_blank hnode).not_have
        (decodeAnything_fields hnodes hnext)
  | node :: nodes, tlv :: tlvs =>
    obtain ⟨hnode, hnodes⟩ := List.forall_mem_cons.mp hb
    rw [anodeDecodeAnything] at h
    dsimp only at h
    split at h
    case isTrue =>
      split at h
      case isTrue => cases h
      case isFalse hok =>
        obtain ⟨⟨ok, rest⟩, hnext, h⟩ := Option.bind_eq_some_iff.mp h
        cases h
        exact .absent (decodeOptionOrDefault_flags (not_not.mp fun hnot => hok (.inl hnot)))
          (decodeOptionOrDefault_blank hnode).not_have (decodeAnything_fields hnodes hnext)
    case isFalse hmatches =>
      obtain ⟨⟨ok, first⟩, hfirst, h⟩ := Option.bind_eq_some_iff.mp h
      dsimp only at h
      split at h
      case isTrue => cases h
      case isFalse hok =>
        obtain rfl : ok = true := by simpa using hok
        split at h
        case isTrue => cases h
        case isFalse =>
          obtain ⟨⟨ok', rest⟩, hnext, h⟩ := Option.bind_eq_some_iff.mp h
          cases h
          exact .present (taken_of_decoded hnode (tagMatches_of_not hmatches) hfirst) (decodeAnything_fields hnodes hnext)
termination_by (sizeOf tlvs, sizeOf nodes, 0)

end

theorem forall₂_of_mem {r r' : GNode → Atlv → Prop} (h : List.Forall₂ r nodes tlvs)
    (himp : ∀ node ∈ nodes, ∀ tlv, r node tlv → r' node tlv) : List.Forall₂ r' nodes tlvs := by
  have hmem := (List.forall₂_and_left nodes tlvs).mpr ⟨fun node hc => hc, h⟩
  exact hmem.imp fun node tlv ⟨hc, hr⟩ => himp node hc tlv hr

mutual

-- Where the tree was validated, exactly one alternative of each CHOICE is chosen.
theorem Taken.single {node : GNode} {tlv : Atlv} (h : Taken p node tlv) (hv : Validated now strict node) :
    Taken OneChosen node tlv := by
  have hhave := h.have
  cases h with
  | plain hmatches hparsed hexplicit hcontent =>
    exact .plain hmatches hparsed hexplicit (hcontent.single hhave hv)
  | explicit hmatches hparsed hexplicit hcls hchild hcontent =>
    exact .explicit hmatches hparsed hexplicit hcls hchild (hcontent.single hhave hv)
termination_by (sizeOf node, 1)

theorem Content.single {node : GNode} {tlv : Atlv} (h : Content p node tlv) (hhave : eggAsn1xHave node)
    (hv : Validated now strict node) : Content OneChosen node tlv := by
  have hchildren := sizeOf_children node
  cases h with
  | value hprimitive hisvalue htaken => exact .value hprimitive hisvalue htaken
  | bits hprimitive hbit htaken      => exact .bits hprimitive hbit htaken
  | whole hwhole hnone               => exact .whole hwhole hnone
  | choice htype _ hsome htaken      =>
    obtain ⟨hone, hvalidated⟩ := validated_choice htype hv
    refine .choice htype hone hsome fun child hc hchosen => ?_
    have hsize := List.sizeOf_lt_of_mem hc
    exact (htaken child hc hchosen).single (hvalidated child hc hchosen)
  | fields hstructured htype hascends hall =>
    exact .fields hstructured htype hascends (hall.single (validated_fields htype hhave hv))
  | items hstructured hlist hall =>
    have hvalidated := validated_items hlist hv
    refine .items hstructured hlist (forall₂_of_mem hall fun child hc ctlv htaken => ?_)
    have hsize := List.sizeOf_lt_of_mem (List.mem_of_mem_filter hc)
    exact htaken.single (hvalidated child hc)
termination_by (sizeOf node, 0)

theorem Fields.single {nodes : List GNode} {tlvs : List Atlv} (h : Fields p nodes tlvs)
    (hv : ∀ node ∈ nodes, Validated now strict node) : Fields OneChosen nodes tlvs := by
  cases h with
  | nil => exact .nil
  | absent hflags hnot hall  => exact .absent hflags hnot (hall.single (List.forall_mem_cons.mp hv).2)
  | present htaken hall      =>
    obtain ⟨hnode, hnodes⟩ := List.forall_mem_cons.mp hv
    exact .present (htaken.single hnode) (hall.single hnodes)
termination_by (sizeOf nodes, 0)

end

-- What a tree that is accepted has of the encoding: each element is in the one place that is for it, and no node
-- without an element is needed.
theorem decoded_taken (now : Nat) (asn asn' : GNode) (data : GBytes) (htemplates : Templates asn)
    (h : eggAsn1xDecode now asn data = some (true, asn')) :
    ∃ tlv, atlvParseDer data = some (.ok tlv) ∧ Taken OneChosen asn' tlv := by
  rw [eggAsn1xDecode, eggAsn1xDecodeFull] at h
  obtain ⟨r, hr, h⟩ := Option.bind_eq_some_iff.mp h
  cases r with
  | error msg => cases h
  | ok tlv =>
    obtain ⟨⟨ret, nodes⟩, hnodes, h⟩ := Option.bind_eq_some_iff.mp h
    dsimp only at h
    split at h
    case isTrue => cases h
    case isFalse hret =>
      obtain rfl : ret = true := by simpa using hret
      have hb := blank_clear htemplates
      have hfields := decodeAnything_fields (List.forall_mem_singleton.mpr hb) hnodes
      obtain ⟨root, rfl, -, -⟩ := decodeAnything_root hb hnodes
      obtain rfl := validate_unchanged h
      refine ⟨tlv, hr, ?_⟩
      cases hfields with
      | absent _ _ hall      => cases hall
      | present htaken hall  => exact htaken.single ⟨_, h⟩

theorem decoded_taken_exampleNumbers : ∃ tlv, atlvParseDer exampleNumbersData = some (.ok tlv) ∧
    Taken OneChosen exampleNumbersDecoded tlv :=
  decoded_taken 126 exampleNumbers exampleNumbersDecoded exampleNumbersData exampleNumbers_templates decode_exampleNumbers

end Asn1x
