import GcrModel.Egg.Asn1x.Build
import GcrModel.Egg.Asn1x.Theorems.Simple

-- The sizes that a table of definitions allows for strings and lists, and those that are accepted.
namespace Asn1x

open GLib

-- The number that a bound stands for, and the names on the way to it.
inductive Resolves (defs : List EggAsn1xDef) : CString → List CString → Nat → Prop
  | literal {text : CString} : text.bytes ≠ [] → (∀ c ∈ text.bytes, isdigit c) → decimal text.bytes ≤ maxUlong →
    Resolves defs text [] (decimal text.bytes)
  | max {text : CString} : text.bytes = ascii "MAX".toList → Resolves defs text [] maxUlong
  | name {text next : CString} {names : List CString} {d : EggAsn1xDef} {n : Nat} : text.bytes ≠ ascii "MAX".toList →
    text.bytes.head?.any asciiIsalpha → lookupDefOfType defs text .integer = some d → d.value = some next →
    Resolves defs next names n → Resolves defs text (text :: names) n

-- `SIZE (n)` and `SIZE (min..max)`
inductive Bounds
  | exactly (n : Nat)
  | between (min max : Nat)
  deriving DecidableEq

namespace Bounds

def Holds (k : Nat) : Bounds → Prop
  | exactly n       => k = n
  | between min max => min ≤ k ∧ k ≤ max

-- The greatest size, where it is one of a range.
def upper : Bounds → Option Nat
  | exactly _     => none
  | between _ max => some max

end Bounds

inductive HasBounds (defs : List EggAsn1xDef) (size : EggAsn1xDef) : List CString → Bounds → Prop
  | exactly {text : CString} {names : List CString} {n : Nat} : size.has .minMax = false → size.value = some text →
    Resolves defs text names n → HasBounds defs size names (.exactly n)
  | between {text text' : CString} {names names' : List CString} {min max : Nat} : size.has .minMax → size.value = some text →
    size.name = some text' → Resolves defs text names min → Resolves defs text' names' max →
    HasBounds defs size (names ++ names') (.between min max)

-- A node that was made by the table, whatever has been put into it.
def Made (defs : List EggAsn1xDef) (node : GNode) : Prop :=
  ∃ type root template, eggAsn1xCreate defs type = some root ∧ template.Sub root ∧ Same template node

structure Sized (defs : List EggAsn1xDef) (node : GNode) (names : List CString) (bounds : Bounds) : Prop where
  made   : Made defs node
  flag   : (anodeDefFlags node).contains .size
  bounds : ∃ size, anodeOptLookup node .size none = some size ∧ HasBounds defs size names bounds

-- The length of a string, or the number of elements of a list whose elements are accepted.
inductive Measures (now : Nat) (strict : Bool) (node : GNode) : Nat → Prop
  | string {content : Bytes} : eggAsn1xGetStringAsBytes node = some (some content) → Measures now strict node content.length
  | list : (anodeDefType node).isList →
    (∀ child ∈ node.children, eggAsn1xHave child → ∃ child', eggAsn1xValidate now child strict = some (true, child')) →
    Measures now strict node (node.children.countP eggAsn1xHave)

def Accepts (now : Nat) (strict : Bool) (node : GNode) : Prop :=
  ∃ node', eggAsn1xValidate now node strict = some (true, node')

-- Where no size is looked at: in strings that are not made of bytes or that are in several parts, and in optional lists
-- without elements.
def Unchecked (node : GNode) (k : Nat) : Prop :=
  anodeDefType node = .bmpString ∨ anodeDefType node = .universalString ∨
    (anodeDefType node).isString ∧ node.data.value = none ∨
    (anodeDefType node).isList ∧ k = 0 ∧ (anodeDefFlags node).contains .option

-- A name whose number was put into the options when the node was made.
def Known (node : GNode) (name : CString) : Prop :=
  (anodeOptLookup node .integer (some name)).isSome

instance (node : GNode) (name : CString) : Decidable (Known node name) :=
  inferInstanceAs (Decidable (_ = true))

-- The sizes for which the bounds are the ones of the table.
structure Bounded (node : GNode) (names : List CString) (bounds : Bounds) (k : Nat) : Prop where
  unchecked : Unchecked node k → bounds.Holds k
  names     : ¬Unchecked node k → bounds.Holds k → ∀ name ∈ names, Known node name
  upper     : ¬Unchecked node k → bounds.Holds k → bounds.upper ≠ some k

end Asn1x

namespace Asn1x

open GLib

variable {defs : List EggAsn1xDef} {text : CString} {names names' : List CString} {n n' k now : Nat} {node node' : GNode}
variable {strict : Bool} {nodes : List GNode} {bounds : Bounds} {size d : EggAsn1xDef}

theorem not_max_of_digits (hne : text.bytes ≠ []) (hdigits : ∀ c ∈ text.bytes, isdigit c) :
    text.bytes ≠ ascii "MAX".toList ∧ text.bytes.head?.any asciiIsalpha = false := by
  obtain ⟨c, rest, htext⟩ := List.exists_cons_of_ne_nil hne
  have hc : isdigit c := hdigits c (htext ▸ List.mem_cons_self)
  rw [htext]
  constructor
  · intro hmax
    obtain rfl : c = 77 := (List.cons.inj hmax).1
    exact absurd hc (by decide)
  · simp only [isdigit, asciiIsalpha, List.head?_cons, Option.any_some, decide_eq_true_eq, decide_eq_false_iff_not,
      UInt8.le_iff_toNat_le] at hc ⊢
    simp at hc ⊢
    omega

-- A bound stands for one number.
theorem Resolves.unique (h : Resolves defs text names n) (h' : Resolves defs text names' n') : names = names' ∧ n = n' := by
  induction h generalizing names' n' with
  | literal hne hdigits _ =>
    obtain ⟨hmax, halpha⟩ := not_max_of_digits hne hdigits
    cases h' with
    | literal           => exact ⟨rfl, rfl⟩
    | max hmax'         => exact absurd hmax' hmax
    | name _ halpha'    => rw [halpha] at halpha'; cases halpha'
  | max hmax =>
    cases h' with
    | literal hne hdigits => exact absurd hmax (not_max_of_digits hne hdigits).1
    | max                 => exact ⟨rfl, rfl⟩
    | name hmax'          => exact absurd hmax hmax'
  | name hmax halpha hlookup hvalue _ ih =>
    cases h' with
    | literal hne hdigits => rw [(not_max_of_digits hne hdigits).2] at halpha; cases halpha
    | max hmax'           => exact absurd hmax' hmax
    | name _ _ hlookup' hvalue' h' =>
      cases hlookup.symm.trans hlookup'
      cases hvalue.symm.trans hvalue'
      obtain ⟨rfl, rfl⟩ := ih h'
      exact ⟨rfl, rfl⟩

-- What a name on the way stands for has fewer names.
theorem Resolves.of_mem {name : CString} (h : Resolves defs text names n) (hname : name ∈ names) :
    ∃ rest, Resolves defs name rest n ∧ rest.length ≤ names.length := by
  induction h with
  | literal => cases hname
  | max     => cases hname
  | name hmax halpha hlookup hvalue hnext ih =>
    obtain rfl | hname := List.mem_cons.mp hname
    · exact ⟨_, .name hmax halpha hlookup hvalue hnext, Nat.le_refl _⟩
    · obtain ⟨rest, hrest, hle⟩ := ih hname
      exact ⟨rest, hrest, Nat.le_succ_of_le hle⟩

-- No name is used for itself.
theorem Resolves.nodup (h : Resolves defs text names n) : names.Nodup := by
  induction h with
  | literal => exact List.nodup_nil
  | max     => exact List.nodup_nil
  | name hmax halpha hlookup hvalue hnext ih =>
    refine List.nodup_cons.mpr ⟨fun hmem => ?_, ih⟩
    obtain ⟨rest, hrest, hle⟩ := hnext.of_mem hmem
    obtain ⟨rfl, -⟩ := hrest.unique (.name hmax halpha hlookup hvalue hnext)
    exact absurd hle (Nat.not_succ_le_self _)

-- The numbers among the options of a node are those of the table.
structure FromTable (defs : List EggAsn1xDef) (an : Anode) : Prop where
  joined   : an.join = none ∨ an.adef.type = .identifier
  integers : ∀ d ∈ an.opts, d.type = .integer → ∃ name, d.name = some name ∧ lookupDefOfType defs name .integer = some d

def AllFromTable (defs : List EggAsn1xDef) (node : GNode) : Prop :=
  ∀ sub : GNode, sub.Sub node → FromTable defs sub.data

theorem allFromTable_iff : AllFromTable defs node ↔
    FromTable defs node.data ∧ ∀ child ∈ node.children, AllFromTable defs child :=
  forall_sub

theorem AllFromTable.of_children (h : FromTable defs node.data) (hchildren : ∀ child ∈ nodes, AllFromTable defs child) :
    AllFromTable defs (node.setChildren nodes) :=
  allFromTable_iff.mpr ⟨h, hchildren⟩

variable {create : CString → Option GNode} {join join' : Option GNode} {fuel : Nat} {type : CString}

theorem buildNodes_cons (fuel : Nat) (d : EggAsn1xDef) (ds : List EggAsn1xDef) : buildNodes (fuel + 1) (d :: ds) =
    (if d.has .down then buildNodes fuel ds else some ([], ds)).bind fun x =>
      (if d.has .right then buildNodes fuel x.2 else some ([], x.2)).bind fun y =>
        some (.mk { adef := d } x.1 :: y.1, y.2) := by
  cases hdown : d.has .down
  all_goals
    cases hright : d.has .right
    all_goals simp [buildNodes, hdown, hright]

-- What is made of the definitions has no options yet.
theorem buildNodes_fromTable {ds rest : List EggAsn1xDef} (hbuild : buildNodes fuel ds = some (nodes, rest)) :
    ∀ node ∈ nodes, AllFromTable defs node := by
  induction fuel generalizing ds nodes rest with
  | zero => cases ds <;> cases hbuild
  | succ fuel ih =>
    cases ds with
    | nil => cases hbuild
    | cons d ds =>
      rw [buildNodes_cons] at hbuild
      obtain ⟨⟨children, ds₁⟩, hchildren, hbuild⟩ := Option.bind_eq_some_iff.mp hbuild
      obtain ⟨⟨siblings, ds₂⟩, hsiblings, heq⟩ := Option.bind_eq_some_iff.mp hbuild
      cases heq
      have hpart : ∀ {flag ds nodes rest}, (if d.has flag then buildNodes fuel ds else some ([], ds)) = some (nodes, rest) →
          ∀ node ∈ nodes, AllFromTable defs node := by
        intro flag ds nodes rest hpart
        split at hpart
        case isTrue  => exact ih hpart
        case isFalse =>
          cases hpart
          exact nofun
      refine List.forall_mem_cons.mpr ⟨allFromTable_iff.mpr ⟨⟨.inl rfl, nofun⟩, hpart hchildren⟩, hpart hsiblings⟩

theorem joinIdentifiers_fromTable (hcreate : ∀ type root, create type = some root → AllFromTable defs root)
    (hnode : FromTable defs node.data) (hjoin : ∀ root ∈ join, AllFromTable defs root)
    (h : joinIdentifiers create fuel node join = some (node', join')) :
    FromTable defs node'.data ∧ node'.children = node.children ∧ ∀ root ∈ join', AllFromTable defs root := by
  induction fuel generalizing node join with
  | zero => cases h
  | succ fuel ih =>
    rw [joinIdentifiers] at h
    split at h
    case isTrue =>
      cases h
      exact ⟨hnode, rfl, hjoin⟩
    case isFalse hidentifier =>
      obtain ⟨identifier, -, h⟩ := Option.bind_eq_some_iff.mp h
      obtain ⟨root, hroot, h⟩ := Option.bind_eq_some_iff.mp h
      have hadef : node.data.adef.type = .identifier := by
        obtain hnone | hadef := hnode.joined
        · have htype := Decidable.not_not.mp hidentifier
          rwa [anodeDefType, Anode.type, hnone] at htype
        · exact hadef
      have hmodified : FromTable defs (node.modify ({ · with join := some root.data.adef })).data :=
        ⟨.inr hadef, hnode.integers⟩
      have hcreated : ∀ root' ∈ some root, AllFromTable defs root' := by
        rintro _ ⟨⟩
        exact hcreate identifier root hroot
      have hrest := ih hmodified hcreated h
      exact hrest

theorem lookupDefOfType_spec (h : lookupDefOfType defs type .integer = some d) : d.type = .integer ∧ d.name = some type := by
  obtain ⟨adef, -, hfilter⟩ := List.exists_of_findSome?_eq_some h
  obtain ⟨-, hd⟩ := Option.filter_eq_some_iff.mp hfilter
  exact of_decide_eq_true hd

theorem lookupSize_fromTable (hnode : FromTable defs node.data) (h : lookupSize defs node = some node') :
    FromTable defs node'.data ∧ node'.children = node.children := by
  rw [lookupSize] at h
  split at h
  case h_1 identifier _ _ =>
    split at h
    case isTrue =>
      obtain ⟨d, hd, rfl⟩ := Option.map_eq_some_iff.mp h
      refine ⟨⟨hnode.joined, ?_⟩, rfl⟩
      intro d' hd' hinteger
      obtain hd' | hd' := List.mem_append.mp hd'
      · exact hnode.integers d' hd' hinteger
      · obtain rfl := List.mem_singleton.mp hd'
        exact ⟨identifier, (lookupDefOfType_spec hd).2, hd⟩
    case isFalse =>
      cases h
      exact ⟨hnode, rfl⟩
  case h_2 =>
    cases h
    exact ⟨hnode, rfl⟩

-- A child that is an option is no number.
theorem FromTable.not_integer (h : FromTable defs node.data) (hreal : ¬anodeDefTypeIsReal node) :
    node.data.adef.type ≠ .integer := by
  intro hinteger
  obtain hnone | hidentifier := h.joined
  · rw [anodeDefTypeIsReal, anodeDefType, Anode.type, hnone] at hreal
    exact hreal (hinteger ▸ rfl)
  · rw [hinteger] at hidentifier
    cases hidentifier

theorem takeOptions_fromTable (h : AllFromTable defs node) : AllFromTable defs (takeOptions node) := by
  rw [takeOptions]
  split
  case isFalse => exact h
  case isTrue =>
    obtain ⟨hdata, hchildren⟩ := allFromTable_iff.mp h
    refine allFromTable_iff.mpr ⟨⟨hdata.joined, fun d hd hinteger => ?_⟩, fun child hc => hchildren child (List.mem_filter.mp hc).1⟩
    obtain hd | hd := List.mem_append.mp hd
    · exact hdata.integers d hd hinteger
    · obtain ⟨child, hchild, hd⟩ := List.mem_flatMap.mp hd
      obtain ⟨hchild, hreal⟩ := List.mem_filter.mp hchild
      have hfrom := hchildren child hchild child .refl
      obtain rfl | hd := List.mem_cons.mp hd
      · exact absurd hinteger (hfrom.not_integer (of_decide_eq_true hreal))
      · exact hfrom.integers d hd hinteger

theorem prepareNode_fromTable (hcreate : ∀ type root, create type = some root → AllFromTable defs root)
    (hnode : AllFromTable defs node) (h : prepareNode defs create node = some node') : AllFromTable defs node' := by
  obtain ⟨hdata, hchildren⟩ := allFromTable_iff.mp hnode
  obtain ⟨⟨joined, join⟩, hjoined, h⟩ := Option.bind_eq_some_iff.mp h
  obtain ⟨hdata₁, heq₁, hjoin⟩ := joinIdentifiers_fromTable hcreate hdata (by rintro _ ⟨⟩) hjoined
  obtain ⟨sized, hsized, h⟩ := Option.bind_eq_some_iff.mp h
  have hset : FromTable defs (joined.setChildren (joined.children ++ (join.map (·.children)).getD [])).data := hdata₁
  obtain ⟨hdata₂, heq₂⟩ := lookupSize_fromTable hset hsized
  have hall₂ : AllFromTable defs sized := by
    refine allFromTable_iff.mpr ⟨hdata₂, fun child hc => ?_⟩
    rw [heq₂] at hc
    obtain hc | hc := List.mem_append.mp hc
    · exact hchildren child (heq₁ ▸ hc)
    · cases join with
      | none      => cases hc
      | some root => exact ((allFromTable_iff).mp (hjoin root rfl)).2 child hc
  obtain ⟨hdata₃, hchildren₃⟩ := allFromTable_iff.mp (takeOptions_fromTable hall₂)
  have hall₄ : AllFromTable defs ((takeOptions sized).modify fun an =>
      { an with opts := an.opts ++ (join.map (·.data.opts)).getD [] }) := by
    refine allFromTable_iff.mpr ⟨⟨hdata₃.joined, fun d hd hinteger => ?_⟩, hchildren₃⟩
    obtain hd | hd := List.mem_append.mp hd
    · exact hdata₃.integers d hd hinteger
    · cases join with
      | none      => cases hd
      | some root => exact (hjoin root rfl root .refl).integers d hd hinteger
  dsimp only at h
  split at h
  case isFalse =>
    cases h
    exact hall₄
  case isTrue =>
    obtain ⟨sorted, hsorted, rfl⟩ := Option.map_eq_some_iff.mp h
    obtain ⟨hdata₄, hchildren₄⟩ := allFromTable_iff.mp hall₄
    refine .of_children hdata₄ fun child hc => hchildren₄ child ?_
    rw [sortByTag] at hsorted
    split at hsorted
    case isTrue => cases hsorted
    case isFalse =>
      cases hsorted
      exact List.mem_reverse.mp ((List.mergeSort_perm _ _).mem_iff.mp hc)

mutual

theorem traverseAndPrepare_fromTable {prepare : GNode → Option GNode}
    (hprepare : ∀ node node', AllFromTable defs node → prepare node = some node' → AllFromTable defs node') :
    ∀ node node', AllFromTable defs node → traverseAndPrepare prepare node = some node' → AllFromTable defs node'
  | .mk data children, node', hnode, h => by
    rw [traverseAndPrepare] at h
    obtain ⟨children', hchildren, h⟩ := Option.bind_eq_some_iff.mp h
    obtain ⟨hdata, hall⟩ := allFromTable_iff.mp hnode
    have hnode' : AllFromTable defs (.mk data children') :=
      allFromTable_iff.mpr ⟨hdata, traverseChildren_fromTable hprepare children children' hall hchildren⟩
    exact hprepare _ _ hnode' h

theorem traverseChildren_fromTable {prepare : GNode → Option GNode}
    (hprepare : ∀ node node', AllFromTable defs node → prepare node = some node' → AllFromTable defs node') :
    ∀ nodes nodes', (∀ node ∈ nodes, AllFromTable defs node) → traverseChildren prepare nodes = some nodes' →
      ∀ node ∈ nodes', AllFromTable defs node
  | [], nodes', _, h => by
    rw [traverseChildren] at h
    cases h
    exact nofun
  | node :: nodes, nodes', hall, h => by
    rw [traverseChildren] at h
    obtain ⟨node', hnode, h⟩ := Option.bind_eq_some_iff.mp h
    obtain ⟨rest, hrest, heq⟩ := Option.bind_eq_some_iff.mp h
    cases heq
    obtain ⟨hfirst, hall⟩ := List.forall_mem_cons.mp hall
    exact List.forall_mem_cons.mpr ⟨traverseAndPrepare_fromTable hprepare node node' hfirst hnode,
      traverseChildren_fromTable hprepare nodes rest hall hrest⟩

end

theorem createNodes_fromTable {root : GNode} (h : createNodes defs fuel type = some root) : AllFromTable defs root := by
  induction fuel generalizing type root with
  | zero => cases h
  | succ fuel ih =>
    rw [createNodes] at h
    have hroot : ∀ {d children}, (∀ child ∈ children, AllFromTable defs child) →
        traverseAndPrepare (prepareNode defs (createNodes defs fuel)) (.mk { adef := d } children) = some root →
        AllFromTable defs root := by
      intro d children hchildren
      have hnode : FromTable defs (GNode.mk { adef := d } children).data := ⟨.inl rfl, by rintro _ ⟨⟩⟩
      exact traverseAndPrepare_fromTable (fun _ _ => prepareNode_fromTable fun _ _ => ih) _ _
        (allFromTable_iff.mpr ⟨hnode, hchildren⟩)
    split at h
    all_goals
      obtain ⟨adef, -, h⟩ := Option.bind_eq_some_iff.mp h
      cases adef with
      | nil       => cases h
      | cons d ds =>
        dsimp only at h
        split at h
        case isTrue  => cases h
        case isFalse =>
          split at h
          case isTrue =>
            obtain ⟨⟨children, rest⟩, hchildren, h⟩ := Option.bind_eq_some_iff.mp h
            exact hroot (buildNodes_fromTable hchildren) h
          case isFalse =>
            obtain ⟨⟨children, rest⟩, heq, h⟩ := Option.bind_eq_some_iff.mp h
            cases heq
            exact hroot (by simp) h

theorem Made.integer (h : Made defs node) (hlookup : anodeOptLookup node .integer (some type) = some d) :
    lookupDefOfType defs type .integer = some d := by
  obtain ⟨_, root, template, hcreate, hsub, hsame⟩ := h
  have hfrom := createNodes_fromTable hcreate template hsub
  have hd := List.find?_some hlookup
  obtain ⟨hname, htype⟩ := of_decide_eq_true hd
  obtain ⟨name, hname', htable⟩ := hfrom.integers d (hsame.opts ▸ List.mem_of_find?_eq_some hlookup) htype
  dsimp only at hname
  rw [hname'] at hname
  obtain rfl : type = name := by simpa using hname
  exact htable

theorem parseSize_some (node : GNode) (fuel : Nat) (text : CString) : parseSize node fuel (some text) =
    if text.bytes = ascii "MAX".toList then some (some maxUlong)
    else if text.bytes.head?.any asciiIsalpha then
      match fuel, anodeOptLookup node .integer (some text) with
      | 0,        _      => none
      | _,        none   => some none
      | fuel + 1, some d => parseSize node fuel d.value
    else
      match strtoul text.bytes with
      | (value, []) => some (some value)
      | _           => some none := by
  exact (parseSize.eq_def _ _ _).trans rfl

-- A bound is read if the names on the way are among the options. The first one that is not ends it.
theorem parseSize_resolves (hmade : Made defs node) (h : Resolves defs text names n)
    (hfuel : (names.takeWhile (Known node ·)).length < fuel) :
    parseSize node fuel (some text) = some (if ∀ name ∈ names, Known node name then some n else none) := by
  induction h generalizing fuel with
  | literal hne hdigits hle =>
    obtain ⟨hmax, halpha⟩ := not_max_of_digits hne hdigits
    rw [if_pos (by simp), parseSize_some, if_neg hmax, if_neg (by simp [halpha]), strtoul_decimal hne hdigits]
    change some (some (min (decimal _) maxUlong)) = _
    rw [Nat.min_eq_left hle]
  | max hmax => rw [if_pos (by simp), parseSize_some, if_pos hmax]
  | @name text next names d n hmax halpha hlookup hvalue _ ih =>
    obtain ⟨fuel, rfl⟩ : ∃ m, fuel = m + 1 := Nat.exists_eq_succ_of_ne_zero (Nat.ne_zero_of_lt hfuel)
    rw [parseSize_some, if_neg hmax, if_pos halpha]
    by_cases hknown : Known node text
    case pos =>
      obtain ⟨d', hd'⟩ := Option.isSome_iff_exists.mp hknown
      cases hlookup.symm.trans (hmade.integer hd')
      rw [hd']
      dsimp only
      rw [List.takeWhile_cons_of_pos (by simpa using hknown), List.length_cons] at hfuel
      rw [hvalue, ih (Nat.lt_of_succ_lt_succ hfuel)]
      simp [hknown]
    case neg =>
      rw [Option.not_isSome_iff_eq_none.mp hknown, if_neg (by simp [hknown])]

-- There are not more names on the way than options.
theorem anodeParseSize_resolves (hmade : Made defs node) (h : Resolves defs text names n) :
    anodeParseSize node (some text) = some (if ∀ name ∈ names, Known node name then some n else none) := by
  refine parseSize_resolves hmade h (Nat.lt_succ_of_le ?_)
  have hnodup : ((names.takeWhile (Known node ·)).map some).Nodup :=
    (h.nodup.sublist (List.takeWhile_sublist _)).map (Option.some_injective _)
  have hsubset : (names.takeWhile (Known node ·)).map some ⊆ node.data.opts.map (·.name) := by
    intro name hname
    obtain ⟨name, hmem, rfl⟩ := List.mem_map.mp hname
    have hknown : Known node name := by simpa using List.mem_takeWhile_imp hmem
    obtain ⟨d, hd⟩ := Option.isSome_iff_exists.mp hknown
    have htable := lookupDefOfType_spec (hmade.integer hd)
    exact List.mem_map.mpr ⟨d, List.mem_of_find?_eq_some hd, htable.2⟩
  simpa using (List.subperm_of_subset hnodup hsubset).length_le

-- The size that is accepted is one in the bounds, but not the greatest of a range.
theorem validateSize_iff (h : Sized defs node names bounds) : (∃ node', anodeValidateSize node k = some (true, node')) ↔
    (∀ name ∈ names, Known node name) ∧ bounds.Holds k ∧ bounds.upper ≠ some k := by
  obtain ⟨size, hsize, hbounds⟩ := h.bounds
  rw [anodeValidateSize, if_neg (by simpa using h.flag), hsize]
  dsimp only
  cases hbounds with
  | exactly hrange hvalue hn =>
    rw [hvalue, anodeParseSize_resolves h.made hn, Option.bind_eq_bind, Option.bind_some]
    split
    case h_1 hnone =>
      have hnames := by simpa using hnone
      refine iff_of_false (by rintro ⟨_, ⟨⟩⟩) fun hall => ?_
      obtain ⟨name, hname, hunknown⟩ := hnames
      exact hunknown (hall.1 name hname)
    case h_2 value1 hsome =>
      obtain ⟨hnames, rfl⟩ := by simpa using hsome
      rw [if_neg (by simp [hrange])]
      split
      case isTrue hne  => exact iff_of_false (by rintro ⟨_, ⟨⟩⟩) fun hall => hne hall.2.1
      case isFalse heq => exact iff_of_true ⟨node, rfl⟩ ⟨hnames, not_not.mp heq, by rintro ⟨⟩⟩
  | between hrange hvalue hname hmin hmax =>
    rw [hvalue, anodeParseSize_resolves h.made hmin, Option.bind_eq_bind, Option.bind_some]
    split
    case h_1 hnone =>
      have hnames := by simpa using hnone
      refine iff_of_false (by rintro ⟨_, ⟨⟩⟩) fun hall => ?_
      obtain ⟨name, hname, hunknown⟩ := hnames
      exact hunknown (hall.1 name (List.mem_append_left _ hname))
    case h_2 value1 hsome =>
      obtain ⟨hnames, rfl⟩ := by simpa using hsome
      rw [if_pos hrange, hname, anodeParseSize_resolves h.made hmax, Option.bind_some]
      split
      case h_1 hnone =>
        have hnames := by simpa using hnone
        refine iff_of_false (by rintro ⟨_, ⟨⟩⟩) fun hall => ?_
        obtain ⟨name, hname, hunknown⟩ := hnames
        exact hunknown (hall.1 name (List.mem_append_right _ hname))
      case h_2 value2 hsome =>
        obtain ⟨hnames', rfl⟩ := by simpa using hsome
        split
        case isTrue hout =>
          refine iff_of_false (by rintro ⟨_, ⟨⟩⟩) ?_
          rintro ⟨-, ⟨hle, hle'⟩, hne⟩
          simp only [Bounds.upper, ne_eq, Option.some.injEq] at hne
          omega
        case isFalse hin =>
          refine iff_of_true ⟨node, rfl⟩ ⟨?_, ⟨by omega, by omega⟩, ?_⟩
          · intro name hname
            exact (List.mem_append.mp hname).elim (hnames name) (hnames' name)
          · simp only [Bounds.upper, ne_eq, Option.some.injEq]
            omega

theorem validateChildren_have (hvalid : ∀ child ∈ nodes, eggAsn1xHave child →
      ∃ child', eggAsn1xValidate now child strict = some (true, child')) :
    validateChildren now strict true nodes = some (true, nodes) := by
  induction nodes with
  | nil => rw [validateChildren]
  | cons node nodes ih =>
    obtain ⟨hnode, hnodes⟩ := List.forall_mem_cons.mp hvalid
    rw [validateChildren, ih hnodes]
    by_cases hhave : eggAsn1xHave node
    case neg => simp [hhave]
    case pos =>
      obtain ⟨node', hvalidate⟩ := hnode hhave
      obtain rfl := validate_unchanged hvalidate
      rw [eggAsn1xValidate] at hvalidate
      simp [hhave, hvalidate]

-- A string or a list is accepted if its size is not looked at, or if it is one that is accepted.
theorem accepts_iff (h : Sized defs node names bounds) (hk : Measures now strict node k) : Accepts now strict node ↔
    Unchecked node k ∨ (∀ name ∈ names, Known node name) ∧ bounds.Holds k ∧ bounds.upper ≠ some k := by
  rw [← validateSize_iff h]
  cases hk with
  | @string content hcontent =>
    rw [eggAsn1xGetStringAsBytes] at hcontent
    split at hcontent
    case isTrue => cases hcontent
    case isFalse hnot =>
      have hstring : (anodeDefType node).isString := by simpa using hnot
      have htype : anodeDefType node ≠ .choice ∧ anodeDefType node ≠ .sequence ∧ anodeDefType node ≠ .set ∧
          anodeDefType node ≠ .sequenceOf ∧ anodeDefType node ≠ .setOf := by
        refine ⟨?_, ?_, ?_, ?_, ?_⟩
        all_goals
          intro htype
          rw [htype] at hstring
          cases hstring
      have hlist : (anodeDefType node).isList = false := by
        rw [EggAsn1xType.isList.eq_def]
        split
        case h_1 heq => exact absurd heq htype.2.2.2.1
        case h_2 heq => exact absurd heq htype.2.2.2.2
        case h_3     => rfl
      split at hcontent
      case h_1 value hvalue =>
        cases hcontent
        rw [Accepts, validate_value hvalue htype]
        by_cases hwide : anodeDefType node = .bmpString ∨ anodeDefType node = .universalString
        case pos =>
          have hvalidate : anodeValidateValue now node value = some (true, node) := by
            rw [anodeValidateValue]
            obtain heq | heq := hwide
            all_goals rw [heq]
          exact iff_of_true ⟨node, hvalidate⟩ (.inl (hwide.elim .inl fun heq => .inr (.inl heq)))
        case neg =>
          have hvalidate : anodeValidateValue now node value = anodeValidateSize node value.data.length := by
            rw [anodeValidateValue]
            cases heq : anodeDefType node
            all_goals simp_all [EggAsn1xType.isString, anodeValidateString, anodeReadStringSimple]
          rw [hvalidate, or_iff_right]
          rintro (heq | heq | ⟨-, hnone⟩ | ⟨heq, -⟩)
          · exact hwide (.inl heq)
          · exact hwide (.inr heq)
          · rw [hvalue] at hnone
            cases hnone
          · rw [hlist] at heq
            cases heq
      case h_2 => cases hcontent
      case h_3 tlv hvalue hparsed =>
        refine iff_of_true ⟨node, ?_⟩ (.inl (.inr (.inr (.inl ⟨hstring, hvalue⟩))))
        obtain ⟨hchoice, hsequence, hset, hsequenceOf, hsetOf⟩ := htype
        have hsimple : anodeValidateSimple now node = some (true, node) := by
          rw [anodeValidateSimple, hvalue]
          exact if_pos ⟨by rw [hparsed]; rfl, .inr hstring⟩
        cases node with
        | mk data children =>
          rw [eggAsn1xValidate, anodeValidateAnything]
          split
          case h_1 h => exact absurd h hchoice
          case h_2 h => exact absurd h hsequence
          case h_3 h => exact absurd h hset
          case h_4 h => exact absurd h hsequenceOf
          case h_5 h => exact absurd h hsetOf
          case h_6   => exact hsimple
  | list hlist hvalid =>
    cases node with
    | mk data children =>
      rw [GNode.children_mk] at hvalid ⊢
      have htype : data.type = .sequenceOf ∨ data.type = .setOf := by
        change data.type.isList at hlist
        rw [EggAsn1xType.isList.eq_def] at hlist
        split at hlist
        case h_1 heq => exact .inl heq
        case h_2 heq => exact .inr heq
        case h_3     => cases hlist
      have hvalidate : eggAsn1xValidate now (.mk data children) strict =
          if children.countP eggAsn1xHave = 0 ∧ data.flags.contains .option then some (true, .mk data children)
          else anodeValidateSize (.mk data children) (children.countP eggAsn1xHave) := by
        rw [eggAsn1xValidate, anodeValidateAnything]
        obtain heq | heq := htype
        all_goals
          rw [heq]
          dsimp only
          rw [validateChildren_have hvalid, Option.bind_eq_bind, Option.bind_some]
          exact if_neg (by simp)
      rw [Accepts, hvalidate]
      by_cases hempty : children.countP eggAsn1xHave = 0 ∧ data.flags.contains .option
      case pos =>
        rw [if_pos hempty]
        exact iff_of_true ⟨_, rfl⟩ (.inl (.inr (.inr (.inr ⟨hlist, hempty⟩))))
      case neg =>
        rw [if_neg hempty, or_iff_right]
        change ¬(data.type = .bmpString ∨ data.type = .universalString ∨ data.type.isString ∧ _ ∨ _)
        rintro (hbmp | huniversal | ⟨hstring, -⟩ | ⟨-, hzero⟩)
        · obtain heq | heq := htype
          all_goals
            rw [heq] at hbmp
            cases hbmp
        · obtain heq | heq := htype
          all_goals
            rw [heq] at huniversal
            cases huniversal
        · obtain heq | heq := htype
          all_goals
            rw [heq] at hstring
            cases hstring
        · exact hempty hzero

-- The sizes that are accepted are those of the table if and only if the bounds are read and the size is not the greatest.
theorem sizes_iff_bounded (h : Sized defs node names bounds) (hk : Measures now strict node k) :
    (Accepts now strict node ↔ bounds.Holds k) ↔ Bounded node names bounds k := by
  rw [accepts_iff h hk]
  constructor
  · intro hiff
    constructor
    case unchecked => exact fun hunchecked => hiff.mp (.inl hunchecked)
    case names     => exact fun hchecked hin => ((hiff.mpr hin).resolve_left hchecked).1
    case upper     => exact fun hchecked hin => ((hiff.mpr hin).resolve_left hchecked).2.2
  · intro hbounded
    constructor
    · rintro (hunchecked | ⟨-, hin, -⟩)
      · exact hbounded.unchecked hunchecked
      · exact hin
    · intro hin
      by_cases hunchecked : Unchecked node k
      case pos => exact .inl hunchecked
      case neg => exact .inr ⟨hbounded.names hunchecked hin, hin, hbounded.upper hunchecked hin⟩

-- `S ::= OCTET STRING (SIZE (1..3))`
def exampleSize : EggAsn1xDef :=
  ⟨some (.of (ascii ['3'])), .size, [.minMax], some (.of (ascii ['1']))⟩

def exampleSizedDef : EggAsn1xDef :=
  ⟨some (.of (ascii ['S'])), .octetString, [.size, .down], none⟩

def exampleSizes : List EggAsn1xDef :=
  [⟨some (.of (ascii ['T'])), .definitions, [.down], none⟩, exampleSizedDef, exampleSize]

def exampleSized (value : Option GBytes) : GNode :=
  .mk { adef := exampleSizedDef, opts := [exampleSize], value } []

theorem exampleSizes_create : eggAsn1xCreate exampleSizes (.of (ascii ['S'])) = some (exampleSized none) := by
  rfl

theorem exampleSized_sized (value : Option GBytes) : Sized exampleSizes (exampleSized value) ([] ++ []) (.between 1 3) where
  made   := ⟨_, _, _, exampleSizes_create, .refl, rfl, rfl, rfl⟩
  flag   := rfl
  bounds := ⟨exampleSize, rfl, .between rfl rfl rfl (.literal (by decide) (by decide +kernel) (by decide +kernel))
    (.literal (by decide) (by decide +kernel) (by decide +kernel))⟩

theorem exampleSized_measures : Measures 126 true (exampleSized (some ⟨[1, 2, 3], []⟩)) 3 :=
  @Measures.string 126 true _ [1, 2, 3] rfl

theorem sizes_iff_bounded_example : (Accepts 126 true (exampleSized (some ⟨[1, 2, 3], []⟩)) ↔ (Bounds.between 1 3).Holds 3) ↔
    Bounded (exampleSized (some ⟨[1, 2, 3], []⟩)) [] (.between 1 3) 3 :=
  sizes_iff_bounded (exampleSized_sized _) exampleSized_measures

-- Three bytes are not accepted.
theorem not_sizes_accepted : ¬∀ defs node names bounds now strict k, Sized defs node names bounds → Measures now strict node k →
    (Accepts now strict node ↔ bounds.Holds k) := by
  intro h
  have hiff := h _ _ _ _ 126 true 3 (exampleSized_sized _) exampleSized_measures
  have hin : (Bounds.between 1 3).Holds 3 := ⟨by decide, by decide⟩
  obtain hunchecked | ⟨-, -, hupper⟩ := (accepts_iff (exampleSized_sized _) exampleSized_measures).mp (hiff.mpr hin)
  · obtain heq | heq | ⟨-, heq⟩ | ⟨heq, -⟩ := hunchecked
    all_goals cases heq
  · exact hupper rfl

end Asn1x
