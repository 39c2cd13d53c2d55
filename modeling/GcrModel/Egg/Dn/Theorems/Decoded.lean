import GcrModel.Egg.Dn.Dn
import GcrModel.Egg.Asn1x.Theorems.Lists

namespace Dn

open GLib Asn1x

variable {node child : GNode} {steps : List Step} {name : CString} {k i : Nat}

@[simp]
theorem nodeAt_nil (node : GNode) : nodeAt node [] = some (some node) :=
  rfl

-- The way to a node behind a child.
theorem map_follow (hget : node.children[k]? = some child) :
    ((eggAsn1xNode child steps).map (·.map (k :: ·))).map (·.bind (follow node)) = nodeAt child steps := by
  rw [nodeAt, Option.map_map]
  congr 1
  funext path
  cases path with
  | none      => rfl
  | some path => simp [follow, hget]

-- An index counts the children with data.
theorem nodeAt_index (hlist : (anodeDefType node).isList) (k : Nat) :
    nodeAt node (.index (k + 1 : Nat) :: steps) =
      match (node.children.filter eggAsn1xHave)[k]? with
      | none       => some none
      | some child => nodeAt child steps := by
  have hpos : (1 : Int) ≤ (k + 1 : Nat) := by omega
  have hzero : ¬((k + 1 : Nat) : Int) = 0 := by omega
  rw [nodeAt]
  unfold eggAsn1xNode
  simp only [hlist, hzero, if_false, Option.bind_eq_bind, Option.bind_some]
  cases hfound : nthHave (k + 1 : Nat) node.children with
  | none =>
    have hlt := (nthHave_none hpos).mp hfound
    rw [List.countP_eq_length_filter] at hlt
    rw [List.getElem?_eq_none (by omega)]
    rfl
  | some l =>
    obtain ⟨child, hget, -, -⟩ := nthHave_some hfound
    have hfilter := getElem?_filter_have hfound
    have hindex : (((k + 1 : Nat) : Int) - 1).toNat = k := by omega
    rw [hindex, hget] at hfilter
    rw [hfilter]
    simp only [hget]
    exact map_follow hget

theorem nodeAt_name (hlist : (anodeDefType node).isList = false)
    (hname : anodeChildWithName name node.children = some (some k)) (hget : node.children[k]? = some child) :
    nodeAt node (.name name :: steps) = nodeAt child steps := by
  rw [nodeAt]
  unfold eggAsn1xNode
  simp only [hlist, hname, Option.bind_eq_bind, Option.bind_some, hget]
  exact map_follow hget

end Dn

-- The nodes that the elements of a name are decoded into.
namespace Dn

open GLib Asn1x

variable {now : Nat} {strict : Bool} {data : Anode} {node child other : GNode} {nodes done : List GNode}
variable {tlv t v : Atlv} {tlvs : List Atlv} {flags : List Flag}

def typeAnode : Anode where
  adef := ⟨some (identifier "type"), .identifier, [.right], some (identifier "AttributeType")⟩
  join := some ⟨some (identifier "AttributeType"), .objectId, [.right], none⟩

def valueAnode : Anode where
  adef := ⟨some (identifier "value"), .identifier, [], some (identifier "AttributeValue")⟩
  join := some ⟨some (identifier "AttributeValue"), .any, [.definedBy, .down, .right], none⟩
  opts := [⟨some (identifier "type"), .constant, [], none⟩]

def attributeAnode : Anode where
  adef := ⟨none, .identifier, [], some (identifier "AttributeTypeAndValue")⟩
  join := some ⟨some (identifier "AttributeTypeAndValue"), .sequence, [.down, .right], none⟩

def rdnAnode : Anode where
  adef := ⟨none, .identifier, [], some (identifier "RelativeDistinguishedName")⟩
  join := some ⟨some (identifier "RelativeDistinguishedName"), .setOf, [.size, .down, .right], none⟩
  opts := [⟨some (identifier "MAX"), .size, [.minMax, .right], some (identifier "1")⟩]

def attributeTemplate : GNode :=
  .mk attributeAnode [.mk typeAnode [], .mk valueAnode []]

def rdnTemplate : GNode :=
  .mk rdnAnode [attributeTemplate]

def rdnSequenceDef : EggAsn1xDef :=
  ⟨some (identifier "RDNSequence"), .sequenceOf, [.down, .right], none⟩

-- The node with the RDNs, which is the root, or the choice of a `Name`.
def NameType.anode : NameType → Anode
  | name        => { adef := ⟨some (Dn.identifier "rdnSequence"), .identifier, [], some (Dn.identifier "RDNSequence")⟩,
                     join := some rdnSequenceDef }
  | rdnSequence => { adef := rdnSequenceDef }

def NameType.template : NameType → GNode
  | name        => .mk { adef := ⟨some (Dn.identifier "Name"), .choice, [.down, .right], none⟩ }
                     [.mk (anode .name) [rdnTemplate]]
  | rdnSequence => .mk (anode .rdnSequence) [rdnTemplate]

theorem create_name (type : NameType) : eggAsn1xCreate pkixAsn1Tab type.identifier = some type.template := by
  cases type with
  | name        => rfl
  | rdnSequence => rfl

theorem clear_template (type : NameType) : eggAsn1xClear type.template = type.template := by
  cases type with
  | name        => rfl
  | rdnSequence => rfl

def typeNode (t : Atlv) : GNode :=
  .mk { typeAnode with value := t.value, parsed := some t } []

def valueNode (v : Atlv) : GNode :=
  .mk { valueAnode with parsed := some v } []

def attributeNode (pair : Atlv) : GNode :=
  .mk { attributeAnode with parsed := some pair }
    (match pair.child with
    | [t, v] => [typeNode t, valueNode v]
    | _      => [])

theorem calcExplicit_untagged (h : flags.contains .tag = false) : (anodeCalcExplicitForFlags node flags).1 = false := by
  rw [anodeCalcExplicitForFlags, h]
  rfl

-- Where there is no tag, an element is decoded by what it is, and marked.
theorem decodeOneWithoutTag_untagged (hflags : flags.contains .tag = false)
    (h : anodeDecodeOneWithoutTag node tlv flags = some (true, child)) :
    ∃ inner, (if tlv.cls &&& classStructured ≠ 0 then anodeDecodeStructured node tlv else anodeDecodePrimitive node tlv) =
      some (true, inner) ∧ child = inner.modify ({ · with parsed := some tlv }) := by
  rw [anodeDecodeOneWithoutTag, if_neg (by simp [calcExplicit_untagged hflags])] at h
  dsimp only at h
  split at h
  all_goals
    rename_i hcls
    obtain ⟨⟨ok, inner⟩, hinner, h⟩ := Option.bind_eq_some_iff.mp h
    obtain ⟨rfl, hchild⟩ := Prod.mk.inj (Option.some.inj h)
  case isTrue  => exact ⟨inner, (if_pos hcls).trans hinner, hchild.symm⟩
  case isFalse => exact ⟨inner, (if_neg hcls).trans hinner, hchild.symm⟩

theorem decodeOne_untagged (h : anodeDecodeOne node tlv = some (true, child)) :
    anodeDecodeOneWithoutTag node tlv (anodeDefFlags node) = some (true, child) := by
  rw [anodeDecodeOne] at h
  split at h
  case isTrue  => cases h
  case isFalse => exact h

theorem decodeOne_type (h : anodeDecodeOneWithoutTag (.mk typeAnode []) t (anodeDefFlags (.mk typeAnode [])) = some (true, child)) :
    child = typeNode t := by
  obtain ⟨inner, hinner, rfl⟩ := decodeOneWithoutTag_untagged (by rfl) h
  have htype : anodeDefType (.mk typeAnode []) = .objectId := rfl
  split at hinner
  case isTrue =>
    rw [anodeDecodeStructured, htype] at hinner
    cases hinner
  case isFalse =>
    rw [anodeDecodePrimitive, htype] at hinner
    split at hinner
    case isTrue  => cases hinner
    case isFalse =>
      cases hinner
      rfl

theorem decodeOne_value (h : anodeDecodeOneWithoutTag (.mk valueAnode []) v (anodeDefFlags (.mk valueAnode [])) = some (true, child)) :
    child = valueNode v := by
  obtain ⟨inner, hinner, rfl⟩ := decodeOneWithoutTag_untagged (by rfl) h
  have htype : anodeDefType (.mk valueAnode []) = .any := rfl
  split at hinner
  case isTrue =>
    rw [anodeDecodeStructured, htype] at hinner
    cases hinner
    rfl
  case isFalse =>
    rw [anodeDecodePrimitive, htype] at hinner
    split at hinner
    case isTrue  => cases hinner
    case isFalse =>
      cases hinner
      rfl

-- An element must be there for a node that is neither optional nor has a default.
theorem decodeAnything_cons (hflags : ¬((anodeDefFlags node).contains .option ∨ (anodeDefFlags node).contains .default))
    (h : anodeDecodeAnything (node :: nodes) tlvs = some (true, done)) :
    ∃ tlv rest child children, tlvs = tlv :: rest ∧ done = child :: children ∧
      anodeDecodeOneWithoutTag node tlv (anodeDefFlags node) = some (true, child) ∧
      anodeDecodeAnything nodes rest = some (true, children) := by
  have hmust : (anodeDecodeOptionOrDefault node).1 = false := by rw [anodeDecodeOptionOrDefault, if_neg hflags]
  cases tlvs with
  | nil =>
    rw [anodeDecodeAnything] at h
    dsimp only at h
    rw [hmust, if_pos (by simp)] at h
    cases h
  | cons tlv rest =>
    rw [anodeDecodeAnything] at h
    dsimp only at h
    split at h
    case isTrue =>
      rw [hmust, if_pos (by simp)] at h
      cases h
    case isFalse =>
      obtain ⟨⟨ok, child⟩, hchild, h⟩ := Option.bind_eq_some_iff.mp h
      dsimp only at h
      split at h
      case isTrue => cases h
      case isFalse hok =>
        obtain rfl : ok = true := by simpa using hok
        split at h
        case isTrue  => cases h
        case isFalse =>
          obtain ⟨⟨ok, children⟩, hchildren, h⟩ := Option.bind_eq_some_iff.mp h
          cases h
          exact ⟨tlv, rest, child, children, rfl, rfl, hchild, hchildren⟩

-- An attribute has a type and a value.
def IsAttribute (pair : Atlv) : Prop :=
  ∃ t v, pair.child = [t, v]

theorem decodeAnything_attribute (h : anodeDecodeAnything attributeTemplate.children tlvs = some (true, done)) :
    ∃ t v, tlvs = [t, v] ∧ done = [typeNode t, valueNode v] := by
  obtain ⟨t, rest, child, children, rfl, rfl, htype, hrest⟩ := decodeAnything_cons (by decide) h
  obtain ⟨v, rest, other, children, rfl, rfl, hvalue, hlast⟩ := decodeAnything_cons (by decide) hrest
  obtain rfl := decodeOne_type htype
  obtain rfl := decodeOne_value hvalue
  have hnil : anodeDecodeAnything [] rest = some (true, children) := hlast
  cases rest with
  | nil =>
    rw [anodeDecodeAnything] at hnil
    cases hnil
    exact ⟨t, v, rfl, rfl⟩
  | cons tlv rest =>
    rw [anodeDecodeAnything] at hnil
    cases hnil

theorem decodeOne_attribute (h : anodeDecodeOne attributeTemplate tlv = some (true, child)) :
    IsAttribute tlv ∧ child = attributeNode tlv := by
  obtain ⟨inner, hinner, rfl⟩ := decodeOneWithoutTag_untagged (by rfl) (decodeOne_untagged h)
  have htype : anodeDefType attributeTemplate = .sequence := rfl
  split at hinner
  case isFalse =>
    rw [anodeDecodePrimitive, htype] at hinner
    split at hinner
    case isTrue  => cases hinner
    case isFalse => cases hinner
  case isTrue =>
    have hsequence : anodeDecodeSequenceOrSet attributeTemplate tlv = some (true, inner) := by
      rwa [anodeDecodeStructured, htype] at hinner
    rw [anodeDecodeSequenceOrSet, tagsAscend, if_neg (by simp [htype]), Option.bind_eq_bind, Option.bind_some,
      if_neg (by simp), if_neg (by decide)] at hsequence
    obtain ⟨⟨ok, children⟩, hchildren, hinner⟩ := Option.bind_eq_some_iff.mp hsequence
    cases hinner
    obtain ⟨t, v, hchild, rfl⟩ := decodeAnything_attribute hchildren
    refine ⟨⟨t, v, hchild⟩, ?_⟩
    rw [attributeNode, hchild]
    rfl

theorem clone_attribute (h : IsAttribute tlv) : anodeClone (attributeNode tlv) = attributeTemplate := by
  obtain ⟨t, v, hchild⟩ := h
  rw [attributeNode, hchild]
  rfl

-- Which nodes have no data, and which are for an element.
structure Template (blank : GNode → Prop) (decoded : Atlv → GNode → Prop) : Prop where
  decode : ∀ {node tlv child}, blank node → anodeDecodeOne node tlv = some (true, child) → decoded tlv child
  clone  : ∀ {node}, blank node → blank (anodeClone node)
  reset  : ∀ {tlv node}, decoded tlv node → blank (anodeClone node)
  empty  : ∀ {node}, blank node → Blank node
  parsed : ∀ {tlv node}, decoded tlv node → node.data.parsed = some tlv

-- The children of a list with the elements `tlvs`. There may be nodes without data between them.
structure Elements (blank : GNode → Prop) (decoded : Atlv → GNode → Prop) (tlvs : List Atlv) (nodes : List GNode) : Prop
    where
  each   : List.Forall₂ decoded tlvs (nodes.filter eggAsn1xHave)
  ne     : nodes ≠ []
  clones : ∀ node ∈ nodes, blank (anodeClone node)

variable {blank : GNode → Prop} {decoded : Atlv → GNode → Prop}

theorem filter_blank (template : Template blank decoded) (h : ∀ node ∈ nodes, blank node) :
    nodes.filter eggAsn1xHave = [] :=
  List.filter_eq_nil_iff.mpr fun node hc => by simp [(template.empty (h node hc)).not_have]

theorem filter_decoded (template : Template blank decoded) (h : decoded tlv node) :
    (node :: nodes).filter eggAsn1xHave = node :: nodes.filter eggAsn1xHave :=
  List.filter_cons_of_pos (have_of_parsed (by rw [template.parsed h]; rfl))

theorem Elements.of_blank (template : Template blank decoded) (hne : nodes ≠ []) (h : ∀ node ∈ nodes, blank node) :
    Elements blank decoded [] nodes where
  each   := by
    rw [filter_blank template h]
    exact .nil
  ne     := hne
  clones := fun node hc => template.clone (h node hc)

theorem Elements.first (template : Template blank decoded) (h : decoded tlv node) (hblank : ∀ node ∈ nodes, blank node) :
    Elements blank decoded [tlv] (node :: nodes) where
  each   := by
    rw [filter_decoded template h, filter_blank template hblank]
    exact .cons h .nil
  ne     := List.cons_ne_nil _ _
  clones := List.forall_mem_cons.mpr ⟨template.reset h, fun node hc => template.clone (hblank node hc)⟩

theorem Elements.append (template : Template blank decoded) (elements : Elements blank decoded tlvs nodes)
    (h : decoded tlv node) : Elements blank decoded (tlvs ++ [tlv]) (nodes ++ [node]) where
  each   := by
    rw [List.filter_append, filter_decoded template h, List.filter_nil]
    exact List.rel_append elements.each (.cons h .nil)
  ne     := by simp
  clones := by
    intro child hc
    obtain hc | hc := List.mem_append.mp hc
    · exact elements.clones child hc
    · obtain rfl := List.mem_singleton.mp hc
      exact template.reset h

theorem Elements.decode {tag i : Nat} (template : Template blank decoded) {before : List Atlv}
    (elements : Elements blank decoded before nodes)
    (h : decodeElements (.mk data nodes) tag i tlvs = some (true, node)) :
    ∃ children, node = .mk data children ∧ Elements blank decoded (before ++ tlvs) children := by
  induction tlvs generalizing nodes before i with
  | nil =>
    rw [decodeElements] at h
    cases h
    exact ⟨nodes, rfl, by rwa [List.append_nil]⟩
  | cons ctlv tlvs ih =>
    rw [decodeElements] at h
    split at h
    case isTrue  => cases h
    case isFalse =>
      cases nodes with
      | nil            => exact absurd rfl elements.ne
      | cons child nodes =>
        obtain ⟨other, hother, h⟩ := bind_ok h fun _ _ => rfl
        have hdecoded := template.decode (elements.clones child List.mem_cons_self) hother
        split at h
        case isTrue  => cases h
        case isFalse =>
          obtain ⟨children, rfl, hall⟩ := ih (elements.append template hdecoded) h
          rw [List.append_assoc] at hall
          exact ⟨children, rfl, hall⟩

theorem Template.decodeList (template : Template blank decoded) (hne : nodes ≠ []) (hblank : ∀ node ∈ nodes, blank node)
    (h : anodeDecodeSequenceOrSetOf (.mk data nodes) tlv = some (true, node)) :
    ∃ children, node = .mk data children ∧ Elements blank decoded tlv.child children := by
  rw [anodeDecodeSequenceOrSetOf] at h
  dsimp only [GNode.children_mk] at h
  split at h
  case h_1 => exact absurd rfl hne
  case h_2 child others =>
    split at h
    case h_1 hempty =>
      cases h
      rw [hempty]
      exact ⟨_, rfl, .of_blank template hne hblank⟩
    case h_2 ctlv tlvs hcontent =>
      obtain ⟨⟨ok, first⟩, hfirst, h⟩ := Option.bind_eq_some_iff.mp h
      obtain ⟨hchild, hothers⟩ := List.forall_mem_cons.mp hblank
      dsimp only at h
      split at h
      case isTrue => cases h
      case isFalse hok =>
        obtain rfl : ok = true := by simpa using hok
        rw [hcontent]
        exact (Elements.first template (template.decode hchild hfirst) hothers).decode template h

-- The node of a list without a tag.
theorem Template.decodeOneWithoutTag (template : Template blank decoded) (hne : nodes ≠ [])
    (hblank : ∀ node ∈ nodes, blank node) (hlist : data.type = .sequenceOf ∨ data.type = .setOf)
    (hflags : data.flags.contains .tag = false)
    (h : anodeDecodeOneWithoutTag (.mk data nodes) tlv data.flags = some (true, node)) :
    ∃ children, node = .mk { data with parsed := some tlv } children ∧ Elements blank decoded tlv.child children := by
  obtain ⟨inner, hinner, rfl⟩ := decodeOneWithoutTag_untagged hflags h
  split at hinner
  case isFalse =>
    rw [anodeDecodePrimitive, anodeDefType, GNode.data_mk] at hinner
    split at hinner
    case isTrue  => cases hinner
    case isFalse =>
      obtain htype | htype := hlist
      all_goals
        rw [htype] at hinner
        cases hinner
  case isTrue =>
    have hof : anodeDecodeSequenceOrSetOf (.mk data nodes) tlv = some (true, inner) := by
      rw [anodeDecodeStructured, anodeDefType, GNode.data_mk] at hinner
      obtain htype | htype := hlist
      all_goals rwa [htype] at hinner
    obtain ⟨children, rfl, hall⟩ := template.decodeList hne hblank hof
    exact ⟨children, rfl, hall⟩

theorem attributes : Template (· = attributeTemplate) fun tlv node => IsAttribute tlv ∧ node = attributeNode tlv where
  decode := by
    rintro node tlv child rfl h
    exact decodeOne_attribute h
  clone  := by
    rintro node rfl
    rfl
  reset  := by
    rintro tlv node ⟨h, rfl⟩
    exact clone_attribute h
  empty  := by
    rintro node rfl
    exact blank_clone attributeTemplate
  parsed := by
    rintro tlv node ⟨-, rfl⟩
    rfl

-- The node of an RDN with its attributes.
def IsRdn (tlv : Atlv) (node : GNode) : Prop :=
  ∃ children, node = .mk { rdnAnode with parsed := some tlv } children ∧
    Elements (· = attributeTemplate) (fun tlv node => IsAttribute tlv ∧ node = attributeNode tlv) tlv.child children

-- The nodes that RDNs are decoded into.
def IsBlankRdn (node : GNode) : Prop :=
  ∃ children, node = .mk rdnAnode children ∧ children ≠ [] ∧ ∀ child ∈ children, child = attributeTemplate

theorem rdns : Template IsBlankRdn IsRdn where
  decode := by
    rintro node tlv child ⟨children, rfl, hne, hblank⟩ h
    exact attributes.decodeOneWithoutTag hne hblank (.inr rfl) rfl (decodeOne_untagged h)
  clone  := by
    rintro node ⟨children, rfl, hne, hblank⟩
    refine ⟨children.map anodeClone, by rw [anodeClone, anodeCloneAll_eq]; rfl, by simpa using hne, fun child hc => ?_⟩
    obtain ⟨child, hmem, rfl⟩ := List.mem_map.mp hc
    rw [hblank child hmem]
    rfl
  reset  := by
    rintro tlv node ⟨children, rfl, h⟩
    refine ⟨children.map anodeClone, by rw [anodeClone, anodeCloneAll_eq]; rfl, by simpa using h.ne, fun child hc => ?_⟩
    obtain ⟨child, hmem, rfl⟩ := List.mem_map.mp hc
    exact h.clones child hmem
  empty  := by
    rintro node ⟨children, rfl, hne, hblank⟩
    refine blank_iff.mpr ⟨⟨rfl, rfl⟩, fun child hc => ?_⟩
    rw [hblank child hc]
    exact blank_clone attributeTemplate
  parsed := by
    rintro tlv node ⟨children, rfl, -⟩
    rfl

-- The node of a name with its RDNs.
structure IsName (tlv : Atlv) (node : GNode) : Prop where
  type     : anodeDefType node = .sequenceOf
  flags    : (anodeDefFlags node).contains .option = false
  elements : Elements IsBlankRdn IsRdn tlv.child node.children

theorem isBlankRdn_template : ∀ node ∈ [rdnTemplate], IsBlankRdn node := by
  intro node hc
  obtain rfl := List.mem_singleton.mp hc
  exact ⟨_, rfl, List.cons_ne_nil _ _, fun child hc => List.mem_singleton.mp hc⟩

theorem decode_rdnSequence (type : NameType)
    (h : anodeDecodeOneWithoutTag (.mk type.anode [rdnTemplate]) tlv type.anode.flags = some (true, node)) :
    IsName tlv node ∧ node.data.adef = type.anode.adef := by
  have htype : type.anode.type = .sequenceOf := by cases type <;> rfl
  have hflags : type.anode.flags.contains .tag = false := by cases type <;> rfl
  have hoption : type.anode.flags.contains .option = false := by cases type <;> rfl
  obtain ⟨children, rfl, hall⟩ :=
    rdns.decodeOneWithoutTag (List.cons_ne_nil _ _) isBlankRdn_template (.inl htype) hflags h
  exact ⟨⟨htype, hoption, hall⟩, rfl⟩

def nameDef : EggAsn1xDef :=
  ⟨some (identifier "Name"), .choice, [.down, .right], none⟩

-- The choice of a `Name` is chosen.
theorem decode_choice (h : anodeDecodeOneWithoutTag NameType.name.template tlv (anodeDefFlags NameType.name.template) =
    some (true, node)) :
    ∃ child, node = .mk { adef := nameDef, parsed := some tlv } [child] ∧ child.data.chosen ∧
      anodeDefName child = some (identifier "rdnSequence") ∧ IsName tlv child := by
  obtain ⟨inner, hinner, rfl⟩ := decodeOneWithoutTag_untagged rfl h
  have htype : anodeDefType NameType.name.template = .choice := rfl
  have hchoice : anodeDecodeChoice NameType.name.template tlv = some (true, inner) := by
    split at hinner
    case isTrue => rwa [anodeDecodeStructured, htype] at hinner
    case isFalse =>
      rw [anodeDecodePrimitive, htype] at hinner
      split at hinner
      case isTrue  => cases hinner
      case isFalse => exact hinner
  rw [anodeDecodeChoice] at hchoice
  obtain ⟨children, hchildren, hchoice⟩ := Option.bind_eq_some_iff.mp hchoice
  have hchoices : decodeChoices [.mk NameType.name.anode [rdnTemplate]] tlv = some children := hchildren
  rw [decodeChoices] at hchoices
  obtain ⟨⟨ok, child⟩, hchild, hchoices⟩ := Option.bind_eq_some_iff.mp hchoices
  rw [decodeChoices] at hchoices
  cases hchoices
  dsimp only at hchoice
  split at hchoice
  case isFalse => cases hchoice
  case isTrue hok =>
    obtain rfl : ok = true := by simpa using hok
    cases hchoice
    obtain ⟨hname, hadef⟩ := decode_rdnSequence .name (decodeOne_untagged hchild)
    exact ⟨_, rfl, rfl, congrArg EggAsn1xDef.name hadef, ⟨hname.type, hname.flags, hname.elements⟩⟩

theorem decodeAnything_template (type : NameType)
    (h : anodeDecodeAnything [type.template] [tlv] = some (true, done)) :
    ∃ asn, done = [asn] ∧
      anodeDecodeOneWithoutTag type.template tlv (anodeDefFlags type.template) = some (true, asn) := by
  have hflags : ¬((anodeDefFlags type.template).contains .option ∨ (anodeDefFlags type.template).contains .default) := by
    cases type with
    | name        => decide
    | rdnSequence => decide
  obtain ⟨tlv', rest, asn, others, htlvs, rfl, hasn, hrest⟩ := decodeAnything_cons hflags h
  cases htlvs
  rw [anodeDecodeAnything] at hrest
  cases hrest
  exact ⟨asn, rfl, hasn⟩

-- A name that was decoded has the elements that the bytes are parsed into, and is valid.
structure IsDecoded (now : Nat) (data : GBytes) (tlv : Atlv) (dn : GNode) : Prop extends IsName tlv dn where
  parsed : atlvParseDer data = some (.ok tlv)
  valid  : anodeValidateAnything now true dn = some (true, dn)

-- Where a list of children is valid, so is each of them.
theorem valid_of_mem {have' : Bool} (h : validateChildren now strict have' nodes = some (true, done))
    (hc : node ∈ nodes) (hhave : have' → eggAsn1xHave node) : anodeValidateAnything now strict node = some (true, node) := by
  induction nodes generalizing done with
  | nil => exact absurd hc List.not_mem_nil
  | cons child nodes ih =>
    rw [validateChildren] at h
    split at h
    case isTrue hskip =>
      obtain ⟨⟨ok, rest⟩, hrest, h⟩ := Option.bind_eq_some_iff.mp h
      cases h
      obtain rfl | hc := List.mem_cons.mp hc
      · exact absurd (hhave hskip.1) hskip.2
      · exact ih hrest hc
    case isFalse =>
      obtain ⟨first, hfirst, h⟩ := bind_ok h fun _ _ => rfl
      obtain ⟨⟨ok, rest⟩, hrest, h⟩ := Option.bind_eq_some_iff.mp h
      cases h
      obtain rfl | hc := List.mem_cons.mp hc
      · obtain rfl := validate_unchanged hfirst
        exact hfirst
      · exact ih hrest hc

theorem valid_choice (htype : data.type = .choice) (hchosen : child.data.chosen)
    (h : anodeValidateAnything now strict (.mk data [child]) = some (true, node)) :
    anodeValidateAnything now strict child = some (true, child) := by
  rw [anodeValidateAnything, htype] at h
  dsimp only at h
  split at h
  case isTrue => cases h
  case isFalse =>
    obtain ⟨⟨ok, children⟩, hchildren, h⟩ := Option.bind_eq_some_iff.mp h
    rw [validateChosen, if_pos hchosen] at hchildren
    obtain ⟨⟨ok', first⟩, hfirst, hchildren⟩ := Option.bind_eq_some_iff.mp hchildren
    cases hchildren
    dsimp only at h
    split at h
    case isTrue => cases h
    case isFalse hok =>
      obtain rfl : ok = true := by simpa using hok
      obtain rfl := validate_unchanged hfirst
      exact hfirst

theorem valid_sequence (htype : data.type = .sequence) (hflags : data.flags.contains .option = false)
    (h : anodeValidateAnything now strict (.mk data nodes) = some (true, node)) (hc : child ∈ nodes) :
    anodeValidateAnything now strict child = some (true, child) := by
  rw [anodeValidateAnything, htype] at h
  dsimp only at h
  rw [if_neg fun hskip => Bool.false_ne_true (hflags.symm.trans hskip.1)] at h
  obtain ⟨⟨ok, children⟩, hchildren, h⟩ := Option.bind_eq_some_iff.mp h
  cases h
  exact valid_of_mem hchildren hc (by simp)

-- The elements of a list are valid, and there are as many as its size allows.
theorem valid_list (htype : data.type = .sequenceOf ∨ data.type = .setOf) (hflags : data.flags.contains .option = false)
    (h : anodeValidateAnything now strict (.mk data nodes) = some (true, node)) :
    (∀ child ∈ nodes.filter eggAsn1xHave, anodeValidateAnything now strict child = some (true, child)) ∧
      ∃ node', anodeValidateSize node' (nodes.filter eggAsn1xHave).length = some (true, node) ∧ node'.data = data := by
  have hlist : (do
      let validated ← validateChildren now strict true nodes
      if ¬validated.1 then some (false, GNode.mk data validated.2)
      else if nodes.countP eggAsn1xHave = 0 ∧ data.flags.contains .option then some (true, GNode.mk data validated.2)
      else anodeValidateSize (.mk data validated.2) (nodes.countP eggAsn1xHave)) = some (true, node) := by
    rw [anodeValidateAnything] at h
    obtain htype | htype := htype
    all_goals
      rw [htype] at h
      exact h
  obtain ⟨⟨ok, children⟩, hchildren, hlist⟩ := Option.bind_eq_some_iff.mp hlist
  dsimp only at hlist
  split at hlist
  case isTrue => cases hlist
  case isFalse hok =>
    obtain rfl : ok = true := by simpa using hok
    rw [if_neg fun hskip => Bool.false_ne_true (hflags.symm.trans hskip.2), List.countP_eq_length_filter] at hlist
    refine ⟨fun child hc => ?_, _, hlist, rfl⟩
    obtain ⟨hmem, hhave⟩ := List.mem_filter.mp hc
    exact valid_of_mem hchildren hmem fun _ => hhave

-- An RDN has an attribute.
theorem validateSize_rdn {length : Nat} (hdata : node.data = { rdnAnode with parsed := some tlv })
    (h : anodeValidateSize node length = some (true, child)) : length ≠ 0 := by
  rintro rfl
  cases node with
  | mk data nodes =>
    obtain rfl := hdata
    cases h

theorem decodeName_spec {type : NameType} {bytes : GBytes} {dn : GNode} (h : decodeName now type bytes = some (some dn)) :
    ∃ tlv, IsDecoded now bytes tlv dn := by
  rw [decodeName, create_name, Option.bind_eq_bind, Option.bind_some] at h
  obtain ⟨⟨ok, asn⟩, hdecode, hnode⟩ := Option.bind_eq_some_iff.mp h
  cases ok with
  | false => cases hnode
  | true =>
    rw [eggAsn1xDecode, eggAsn1xDecodeFull, clear_template] at hdecode
    obtain ⟨parsed, hparsed, hdecode⟩ := Option.bind_eq_some_iff.mp hdecode
    cases parsed with
    | error msg => cases hdecode
    | ok tlv =>
      obtain ⟨⟨ret, nodes⟩, hnodes, hdecode⟩ := Option.bind_eq_some_iff.mp hdecode
      dsimp only at hdecode
      split at hdecode
      case isTrue => cases hdecode
      case isFalse hret =>
        obtain rfl : ret = true := by simpa using hret
        obtain ⟨root, rfl, hroot⟩ := decodeAnything_template type hnodes
        obtain rfl := validate_unchanged hdecode
        refine ⟨tlv, ?_⟩
        cases type with
        | rdnSequence =>
          cases hnode
          exact ⟨(decode_rdnSequence .rdnSequence hroot).1, hparsed, hdecode⟩
        | name =>
          obtain ⟨child, rfl, hchosen, hname, hchild⟩ := decode_choice hroot
          have hfirst : anodeChildWithName (identifier "rdnSequence") [child] = some (some 0) := by
            rw [anodeChildWithName, hname]
            exact if_pos rfl
          have hdn : nodeAt (.mk { adef := nameDef, parsed := some tlv } [child]) NameType.name.steps = some (some child) :=
            nodeAt_name rfl hfirst rfl
          cases hdn.symm.trans hnode
          exact ⟨hchild, hparsed, valid_choice rfl hchosen hdecode⟩

end Dn
