import GcrModel.Egg.Asn1x.Validate

namespace Asn1x

variable {node node' child sub : GNode} {nodes children : List GNode} {data : Anode} {i j : Int} {k l : Nat}

theorem GNode.induct {motive : GNode → Prop}
    (mk : ∀ data children, (∀ child ∈ children, motive child) → motive (.mk data children)) : ∀ node, motive node
  | .mk data children => mk data children fun child _ => GNode.induct mk child
termination_by node => node

-- A node of a tree.
inductive GNode.Sub (sub : GNode) : GNode → Prop
  | refl : Sub sub sub
  | child {node child : GNode} : child ∈ node.children → Sub sub child → Sub sub node

-- All nodes of a tree have a property if and only if the root has it, and all nodes of the children have it.
theorem forall_sub {p : GNode → Prop} :
    (∀ sub, sub.Sub node → p sub) ↔ p node ∧ ∀ child ∈ node.children, ∀ sub, sub.Sub child → p sub := by
  constructor
  case mp  => exact fun h => ⟨h _ .refl, fun child hc sub hs => h _ (.child hc hs)⟩
  case mpr =>
    rintro ⟨hroot, hchildren⟩ sub hs
    cases hs with
    | refl        => exact hroot
    | child hc hs => exact hchildren _ hc _ hs

theorem anyHave_eq (nodes : List GNode) : anyHave nodes = nodes.any eggAsn1xHave := by
  induction nodes with
  | nil                => rfl
  | cons node nodes ih => rw [anyHave, ih, List.any_cons]

theorem eggAsn1xHave_eq (node : GNode) :
    eggAsn1xHave node = (node.data.value.isSome || node.data.parsed.isSome || node.children.any eggAsn1xHave) := by
  cases node
  rw [eggAsn1xHave, anyHave_eq]
  rfl

theorem have_of_parsed (h : node.data.parsed.isSome) : eggAsn1xHave node := by
  rw [eggAsn1xHave_eq, h]
  simp

-- There is no data in any node of the tree.
def Blank (node : GNode) : Prop :=
  ∀ sub : GNode, sub.Sub node → sub.data.value = none ∧ sub.data.parsed = none

theorem blank_iff : Blank node ↔
    (node.data.value = none ∧ node.data.parsed = none) ∧ ∀ child ∈ node.children, Blank child :=
  forall_sub

theorem Blank.value (h : Blank node) : node.data.value = none :=
  (h _ .refl).1

theorem Blank.parsed (h : Blank node) : node.data.parsed = none :=
  (h _ .refl).2

theorem Blank.of_mem (h : Blank node) (hc : child ∈ node.children) : Blank child :=
  ((blank_iff).mp h).2 _ hc

theorem Blank.not_have (h : Blank node) : eggAsn1xHave node = false := by
  induction node using GNode.induct with
  | mk data children ih =>
    have hchildren : children.any eggAsn1xHave = false := by
      rw [List.any_eq_false]
      exact fun child hc => by simp [ih child hc (h.of_mem hc)]
    have hvalue : data.value = none := h.value
    have hparsed : data.parsed = none := h.parsed
    rw [eggAsn1xHave_eq]
    simp [hvalue, hparsed, hchildren]

theorem anodeCloneAll_eq (nodes : List GNode) : anodeCloneAll nodes = nodes.map anodeClone := by
  induction nodes with
  | nil                => rfl
  | cons node nodes ih => rw [anodeCloneAll, ih, List.map_cons]

-- A clone has no data.
theorem blank_clone (node : GNode) : Blank (anodeClone node) := by
  induction node using GNode.induct with
  | mk data children ih =>
    rw [anodeClone, anodeCloneAll_eq, blank_iff]
    refine ⟨⟨rfl, rfl⟩, fun child hc => ?_⟩
    obtain ⟨child, hmem, rfl⟩ := List.mem_map.mp hc
    exact ih child hmem

-- The lists have a child that is the template of their elements.
def Templates (node : GNode) : Prop :=
  ∀ sub : GNode, sub.Sub node → (anodeDefType sub).isList → sub.children ≠ []

theorem templates_iff : Templates node ↔
    ((anodeDefType node).isList → node.children ≠ []) ∧ ∀ child ∈ node.children, Templates child :=
  forall_sub

theorem clearNodes_eq (h : ∀ node ∈ nodes, (clearNode node).1 = false) :
    clearNodes nodes = (false, nodes.map fun node => (clearNode node).2) := by
  induction nodes with
  | nil => rfl
  | cons node nodes ih =>
    obtain ⟨hnode, hnodes⟩ := List.forall_mem_cons.mp h
    rw [clearNodes, ← Prod.mk.eta (p := clearNode node), hnode, ih hnodes]
    rfl

-- All nodes are cleared where lists have templates.
theorem clearNode_spec (h : Templates node) : (clearNode node).1 = false ∧ Blank (clearNode node).2 := by
  induction node using GNode.induct with
  | mk data children ih =>
    obtain ⟨hroot, hchildren⟩ := (templates_iff).mp h
    have hspec := fun child hc => ih child hc (hchildren child hc)
    have hblank : ∀ child ∈ children.map fun node => (clearNode node).2, Blank child := by
      intro child hc
      obtain ⟨child, hmem, rfl⟩ := List.mem_map.mp hc
      exact (hspec child hmem).2
    rw [clearNode, clearNodes_eq fun child hc => (hspec child hc).1]
    dsimp only
    rw [if_neg (by simp)]
    by_cases hlist : data.clear.type.isList
    case pos =>
      have hne : children ≠ [] := hroot hlist
      rw [if_pos hlist]
      refine ⟨by simpa using hne, (blank_iff).mpr ⟨⟨rfl, rfl⟩, fun child hc => ?_⟩⟩
      exact hblank child (List.mem_of_mem_take hc)
    case neg =>
      rw [if_neg hlist]
      exact ⟨rfl, (blank_iff).mpr ⟨⟨rfl, rfl⟩, hblank⟩⟩

theorem blank_clear (h : Templates node) : Blank (eggAsn1xClear node) :=
  (clearNode_spec h).2

-- A child that is found is the one with the number `i` of those with data.
theorem nthHave_some (h : nthHave i nodes = some k) :
    ∃ node, nodes[k]? = some node ∧ eggAsn1xHave node ∧ ((nodes.take k).countP eggAsn1xHave : Int) + 1 = i := by
  induction nodes generalizing i k with
  | nil => cases h
  | cons node nodes ih =>
    rw [nthHave] at h
    split at h
    case isTrue hhave =>
      split at h
      case isTrue hone =>
        cases h
        exact ⟨node, rfl, hhave, by simp; omega⟩
      case isFalse =>
        obtain ⟨k, hk, rfl⟩ := Option.map_eq_some_iff.mp h
        obtain ⟨node', hget, hhave', hcount⟩ := ih hk
        refine ⟨node', hget, hhave', ?_⟩
        rw [List.take_succ_cons, List.countP_cons_of_pos hhave]
        omega
    case isFalse hhave =>
      obtain ⟨k, hk, rfl⟩ := Option.map_eq_some_iff.mp h
      obtain ⟨node', hget, hhave', hcount⟩ := ih hk
      refine ⟨node', hget, hhave', ?_⟩
      rw [List.take_succ_cons, List.countP_cons_of_neg hhave]
      exact hcount

theorem nthHave_none (hi : 1 ≤ i) : nthHave i nodes = none ↔ (nodes.countP eggAsn1xHave : Int) < i := by
  induction nodes generalizing i with
  | nil =>
    simp only [nthHave, List.countP_nil, true_iff]
    omega
  | cons node nodes ih =>
    rw [nthHave]
    split
    case isTrue hhave =>
      rw [List.countP_cons_of_pos hhave]
      split
      case isTrue => simp only [reduceCtorEq, false_iff]; omega
      case isFalse => rw [Option.map_eq_none_iff, ih (by omega)]; omega
    case isFalse hhave => rw [List.countP_cons_of_neg hhave, Option.map_eq_none_iff, ih hi]

-- Two numbers find different children.
theorem nthHave_inj (h : nthHave i nodes = some k) (h' : nthHave j nodes = some k) : i = j := by
  obtain ⟨-, -, -, hi⟩ := nthHave_some h
  obtain ⟨-, -, -, hj⟩ := nthHave_some h'
  omega

-- The child is the one at the same place of those with data.
theorem getElem?_filter_have (h : nthHave i nodes = some k) :
    (nodes.filter eggAsn1xHave)[(i - 1).toNat]? = nodes[k]? := by
  obtain ⟨node, hget, hhave, hcount⟩ := nthHave_some h
  obtain ⟨hlt, hnode⟩ := List.getElem?_eq_some_iff.mp hget
  have hsplit : nodes = nodes.take k ++ node :: nodes.drop (k + 1) := by
    rw [← hnode, List.getElem_cons_drop, List.take_append_drop]
  have hindex : (i - 1).toNat = ((nodes.take k).filter eggAsn1xHave).length := by
    rw [← List.countP_eq_length_filter]
    omega
  have hfilter : nodes.filter eggAsn1xHave =
      (nodes.take k).filter eggAsn1xHave ++ node :: (nodes.drop (k + 1)).filter eggAsn1xHave := by
    rw [← List.filter_cons_of_pos hhave, ← List.filter_append, ← hsplit]
  rw [hget, hindex, hfilter, List.getElem?_append_right (Nat.le_refl _), Nat.sub_self]
  rfl

end Asn1x

-- A node that is accepted was not changed: a validation that sets a failure ends with it.
namespace Asn1x

open GLib

variable {now length : Nat} {strict have' : Bool} {node node' : GNode} {nodes nodes' : List GNode} {value : GBytes}

theorem validateSize_unchanged (h : anodeValidateSize node length = some (true, node')) : node' = node := by
  unfold anodeValidateSize at h
  split at h
  case isTrue => cases h; rfl
  case isFalse =>
    split at h
    case h_1 => cases h
    case h_2 size _ =>
      obtain ⟨value1, -, h⟩ := Option.bind_eq_some_iff.mp h
      split at h
      case h_1 => cases h
      case h_2 =>
        split at h
        case isTrue =>
          obtain ⟨value2, -, h⟩ := Option.bind_eq_some_iff.mp h
          split at h
          case h_1 => cases h
          case h_2 =>
            split at h
            case isTrue  => cases h
            case isFalse => cases h; rfl
        case isFalse =>
          split at h
          case isTrue  => cases h
          case isFalse => cases h; rfl

theorem validateInteger_unchanged (h : anodeValidateInteger node value = some (true, node')) : node' = node := by
  unfold anodeValidateInteger at h
  split at h
  case isTrue => cases h
  case isFalse =>
    split at h
    case isFalse => cases h; rfl
    case isTrue =>
      obtain ⟨val, -, h⟩ := Option.bind_eq_some_iff.mp h
      split at h
      case h_1 => cases h
      case h_2 =>
        split at h
        case h_1 => cases h
        case h_2 => cases h
        case h_3 => cases h; rfl

theorem validateEnumerated_unchanged (h : anodeValidateEnumerated node value = some (true, node')) : node' = node := by
  unfold anodeValidateEnumerated at h
  split at h
  case isTrue  => cases h
  case isFalse => exact validateInteger_unchanged h

theorem validateBoolean_unchanged (h : anodeValidateBoolean node value = some (true, node')) : node' = node := by
  unfold anodeValidateBoolean at h
  split at h
  case h_1 =>
    split at h
    case isTrue  => cases h
    case isFalse => cases h; rfl
  case h_2 => cases h

theorem validateObjectId_unchanged (h : anodeValidateObjectId node value = some (true, node')) : node' = node := by
  obtain ⟨⟨ok, n, oid⟩, hread, heq⟩ := Option.map_eq_some_iff.mp h
  cases heq
  unfold anodeReadObjectId at hread
  split at hread
  case h_1 => cases hread
  case h_2 =>
    dsimp only at hread
    split at hread
    case h_1 => cases hread
    case h_2 => cases hread; rfl

theorem validateTime_unchanged (h : anodeValidateTime now node value = some (true, node')) : node' = node := by
  obtain ⟨⟨ok, n, when, offset⟩, hread, heq⟩ := Option.map_eq_some_iff.mp h
  cases heq
  unfold anodeReadTime at hread
  dsimp only at hread
  split at hread
  case h_1 => cases hread
  case h_2 =>
    obtain ⟨⟨ret, tm, offset'⟩, -, hread⟩ := Option.bind_eq_some_iff.mp hread
    dsimp only at hread
    split at hread
    case isTrue  => cases hread
    case isFalse => cases hread; rfl

theorem validateValue_unchanged (h : anodeValidateValue now node value = some (true, node')) : node' = node := by
  unfold anodeValidateValue at h
  split at h
  case h_1 => exact validateInteger_unchanged h
  case h_2 => exact validateEnumerated_unchanged h
  case h_3 => exact validateBoolean_unchanged h
  all_goals first
    | exact validateSize_unchanged h
    | exact validateObjectId_unchanged h
    | exact validateTime_unchanged h
    | exact (Prod.mk.inj (Option.some.inj h)).2.symm
    | cases h

theorem validateSimple_unchanged (h : anodeValidateSimple now node = some (true, node')) : node' = node := by
  unfold anodeValidateSimple at h
  split at h
  case h_1 => exact validateValue_unchanged h
  case h_2 =>
    split at h
    case isTrue => cases h; rfl
    case isFalse =>
      split at h
      case isTrue  => cases h; rfl
      case isFalse => cases h

theorem validateChildren_unchanged
    (ih : ∀ node ∈ nodes, ∀ node', anodeValidateAnything now strict node = some (true, node') → node' = node)
    (h : validateChildren now strict have' nodes = some (true, nodes')) : nodes' = nodes := by
  induction nodes generalizing nodes' with
  | nil =>
    rw [validateChildren] at h
    cases h
    rfl
  | cons node nodes ihs =>
    obtain ⟨hnode, hnodes⟩ := List.forall_mem_cons.mp ih
    rw [validateChildren] at h
    split at h
    case isTrue =>
      obtain ⟨⟨ok, rest⟩, hrest, h⟩ := Option.bind_eq_some_iff.mp h
      cases h
      rw [ihs hnodes hrest]
    case isFalse =>
      obtain ⟨first, hfirst, h⟩ := bind_ok h fun _ _ => rfl
      obtain ⟨⟨ok', rest⟩, hrest, h⟩ := Option.bind_eq_some_iff.mp h
      cases h
      rw [hnode _ hfirst, ihs hnodes hrest]

theorem validateChosen_unchanged
    (ih : ∀ node ∈ nodes, ∀ node', anodeValidateAnything now strict node = some (true, node') → node' = node)
    (h : validateChosen now strict nodes = some (true, nodes')) : nodes' = nodes := by
  induction nodes generalizing nodes' with
  | nil =>
    rw [validateChosen] at h
    cases h
    rfl
  | cons node nodes ihs =>
    obtain ⟨hnode, hnodes⟩ := List.forall_mem_cons.mp ih
    rw [validateChosen] at h
    split at h
    case isTrue =>
      obtain ⟨⟨ok, first⟩, hfirst, h⟩ := Option.bind_eq_some_iff.mp h
      cases h
      rw [hnode _ hfirst]
    case isFalse =>
      obtain ⟨⟨ok, rest⟩, hrest, h⟩ := Option.bind_eq_some_iff.mp h
      cases h
      rw [ihs hnodes hrest]

theorem validate_unchanged (h : anodeValidateAnything now strict node = some (true, node')) : node' = node := by
  induction node using GNode.induct generalizing node' with
  | mk data children ih =>
    have ih : ∀ child ∈ children, ∀ child', anodeValidateAnything now strict child = some (true, child') → child' = child :=
      fun child hc child' => ih child hc
    unfold anodeValidateAnything at h
    split at h
    case h_1 =>
      split at h
      case isTrue => cases h
      case isFalse =>
        obtain ⟨children', hchildren, h⟩ := bind_ok h fun _ _ => rfl
        split at h
        case isTrue  => cases h
        case isFalse =>
          cases h
          rw [validateChosen_unchanged ih hchildren]
    case h_2 | h_3 =>
      split at h
      case isTrue => cases h; rfl
      case isFalse =>
        obtain ⟨⟨ok, children'⟩, hchildren, h⟩ := Option.bind_eq_some_iff.mp h
        cases h
        rw [validateChildren_unchanged ih hchildren]
    case h_4 | h_5 =>
      obtain ⟨children', hchildren, h⟩ := bind_ok h fun _ _ => rfl
      rw [validateChildren_unchanged ih hchildren] at h
      split at h
      case isTrue  => cases h; rfl
      case isFalse => exact validateSize_unchanged h
    case h_6 => exact validateSimple_unchanged h

section Validated

def Validated (now : Nat) (strict : Bool) (node : GNode) : Prop :=
  ∃ node', anodeValidateAnything now strict node = some (true, node')

-- Exactly one alternative of a CHOICE is chosen.
def OneChosen (children : List GNode) : Prop :=
  children.countP (·.data.chosen) = 1

theorem validateChildren_validated (h : validateChildren now strict have' nodes = some (true, nodes')) :
    ∀ node ∈ nodes, (have' → eggAsn1xHave node) → Validated now strict node := by
  induction nodes generalizing nodes' with
  | nil             => simp
  | cons node nodes ih =>
    rw [validateChildren] at h
    split at h
    case isTrue hskip =>
      obtain ⟨⟨ok, rest⟩, hrest, h⟩ := Option.bind_eq_some_iff.mp h
      cases h
      exact List.forall_mem_cons.mpr ⟨fun h => absurd (h hskip.1) hskip.2, ih hrest⟩
    case isFalse =>
      obtain ⟨first, hfirst, h⟩ := bind_ok h fun _ _ => rfl
      obtain ⟨⟨ok', rest⟩, hrest, h⟩ := Option.bind_eq_some_iff.mp h
      cases h
      exact List.forall_mem_cons.mpr ⟨fun _ => ⟨first, hfirst⟩, ih hrest⟩

-- The first alternative that is chosen is validated, and there is no other one.
theorem validateChosen_validated (hone : OneChosen nodes) (h : validateChosen now strict nodes = some (true, nodes')) :
    ∀ node ∈ nodes, node.data.chosen → Validated now strict node := by
  induction nodes generalizing nodes' with
  | nil             => cases hone
  | cons node nodes ih =>
    rw [validateChosen] at h
    split at h
    case isTrue hchosen =>
      have hcount := List.countP_cons_of_pos (p := (·.data.chosen)) (l := nodes) hchosen
      have hnone : nodes.countP (·.data.chosen) = 0 := Nat.succ.inj (hcount.symm.trans hone)
      obtain ⟨⟨ok, first⟩, hfirst, h⟩ := Option.bind_eq_some_iff.mp h
      cases h
      refine List.forall_mem_cons.mpr ⟨fun _ => ⟨first, hfirst⟩, fun other hc hother => ?_⟩
      exact absurd hother (List.countP_eq_zero.mp hnone other hc)
    case isFalse hnot =>
      have hcount := List.countP_cons_of_neg (p := (·.data.chosen)) (l := nodes) hnot
      obtain ⟨⟨ok, rest⟩, hrest, h⟩ := Option.bind_eq_some_iff.mp h
      cases h
      exact List.forall_mem_cons.mpr ⟨fun hchosen => absurd hchosen hnot, ih (hcount.symm.trans hone) hrest⟩

theorem validated_choice (htype : anodeDefType node = .choice) (h : Validated now strict node) :
    OneChosen node.children ∧ ∀ child ∈ node.children, child.data.chosen → Validated now strict child := by
  obtain ⟨data, children⟩ := node
  have htype : data.type = .choice := htype
  obtain ⟨node', h⟩ := h
  unfold anodeValidateAnything at h
  rw [htype] at h
  dsimp only at h
  split at h
  case isTrue => cases h
  case isFalse hany =>
    obtain ⟨⟨ok, children'⟩, hchildren, h⟩ := Option.bind_eq_some_iff.mp h
    dsimp only at h
    split at h
    case isTrue => cases h
    case isFalse hok =>
      obtain rfl : ok = true := by simpa using hok
      split at h
      case isTrue => cases h
      case isFalse hle =>
        have hpos : 0 < children.countP (·.data.chosen) := by
          rw [List.countP_pos_iff]
          exact List.any_eq_true.mp (not_not.mp hany)
        have hone : OneChosen children := Nat.le_antisymm (Nat.le_of_not_lt hle) hpos
        exact ⟨hone, validateChosen_validated hone hchildren⟩

theorem validated_fields (htype : anodeDefType node = .sequence ∨ anodeDefType node = .set) (hhave : eggAsn1xHave node)
    (h : Validated now strict node) : ∀ child ∈ node.children, Validated now strict child := by
  obtain ⟨data, children⟩ := node
  obtain ⟨node', h⟩ := h
  have heq : anodeValidateAnything now strict (.mk data children) =
      if data.flags.contains .option ∧ ¬eggAsn1xHave (.mk data children) then some (true, .mk data children)
      else (validateChildren now strict false children).bind fun r => some (r.1, .mk data r.2) := by
    unfold anodeValidateAnything
    obtain htype | htype := htype
    all_goals
      have htype : data.type = _ := htype
      rw [htype]
      rfl
  rw [heq, if_neg fun hskip => hskip.2 hhave] at h
  obtain ⟨⟨ok, children'⟩, hchildren, h⟩ := Option.bind_eq_some_iff.mp h
  cases h
  exact fun child hc => validateChildren_validated hchildren child hc fun h => by cases h

theorem validated_items (hlist : (anodeDefType node).isList) (h : Validated now strict node) :
    ∀ child ∈ node.children.filter eggAsn1xHave, Validated now strict child := by
  obtain ⟨data, children⟩ := node
  obtain ⟨node', h⟩ := h
  have heq : anodeValidateAnything now strict (.mk data children) =
      (validateChildren now strict true children).bind fun r =>
        if ¬r.1 then some (false, .mk data r.2)
        else if children.countP eggAsn1xHave = 0 ∧ data.flags.contains .option then some (true, .mk data r.2)
        else anodeValidateSize (.mk data r.2) (children.countP eggAsn1xHave) := by
    have hlist : data.type.isList := hlist
    unfold anodeValidateAnything
    cases htype : data.type
    all_goals
      rw [htype] at hlist
      first
      | rfl
      | cases hlist
  rw [heq] at h
  obtain ⟨⟨ok, children'⟩, hchildren, h⟩ := Option.bind_eq_some_iff.mp h
  dsimp only at h
  split at h
  case isTrue => cases h
  case isFalse hok =>
    obtain rfl : ok = true := by simpa using hok
    intro child hc
    obtain ⟨hc, hhave⟩ := List.mem_filter.mp hc
    exact validateChildren_validated hchildren child hc fun _ => hhave

end Validated

end Asn1x
