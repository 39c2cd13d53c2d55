import GcrModel.Egg.Asn1x.Create

-- A table of definitions is the pre-order of a forest.
namespace Asn1x

-- A definition with its children and the siblings behind it.
inductive Forest
  | nil
  | cons (adef : EggAsn1xDef) (children rest : Forest)

namespace Forest

def flatten : Forest → List EggAsn1xDef
  | nil                     => []
  | cons adef children rest => adef :: (children.flatten ++ rest.flatten)

-- The flags tell where there are children and where there is a following sibling.
def Flagged : Forest → Prop
  | nil                     => True
  | cons adef children rest =>
    (adef.has .down = true ↔ children ≠ nil) ∧ (adef.has .right = true ↔ rest ≠ nil) ∧ children.Flagged ∧ rest.Flagged

def nodes : Forest → List GNode
  | nil                     => []
  | cons adef children rest => .mk { adef := adef } children.nodes :: rest.nodes

-- The definitions on top, as pointers into a table that goes on with `after`.
def pointers : Forest → List EggAsn1xDef → List (List EggAsn1xDef)
  | nil,                     _     => []
  | cons adef children rest, after =>
    (adef :: (children.flatten ++ (rest.flatten ++ after))) :: rest.pointers after

-- A definition somewhere in the forest, and what is in the table behind its following siblings.
inductive Entry : Forest → List EggAsn1xDef → EggAsn1xDef → Forest → Forest → List EggAsn1xDef → Prop
  | here {adef children rest after} : Entry (cons adef children rest) after adef children rest after
  | down {adef children rest after adef' children' rest' after'} :
    Entry children (rest.flatten ++ after) adef' children' rest' after' →
    Entry (cons adef children rest) after adef' children' rest' after'
  | right {adef children rest after adef' children' rest' after'} : Entry rest after adef' children' rest' after' →
    Entry (cons adef children rest) after adef' children' rest' after'

variable {f children rest : Forest} {adef : EggAsn1xDef} {after tail : List EggAsn1xDef}

theorem Entry.flagged (he : Entry f after adef children rest tail) (hf : f.Flagged) : (cons adef children rest).Flagged := by
  induction he
  case here        => exact hf
  case down _ ih   => exact ih hf.2.2.1
  case right _ ih  => exact ih hf.2.2.2

theorem Entry.suffix (he : Entry f after adef children rest tail) :
    adef :: (children.flatten ++ (rest.flatten ++ tail)) <:+ f.flatten ++ after := by
  induction he
  case here adef children rest after                         =>
    exact ⟨[], by simp [flatten]⟩
  case down adef children rest after _ _ _ _ _ ih  =>
    exact ih.trans ⟨[adef], by simp [flatten]⟩
  case right adef children rest after _ _ _ _ _ ih =>
    exact ih.trans ⟨adef :: children.flatten, by simp [flatten]⟩

-- One level less is open behind siblings, if there are any.
theorem skipChildren_flatten (hf : f.Flagged) {flag : Bool} (hflag : flag = true ↔ f ≠ nil) (depth : Nat)
    (tail : List EggAsn1xDef) :
    skipChildren (depth + if flag then 1 else 0) (f.flatten ++ tail) = skipChildren depth tail := by
  induction f generalizing flag depth tail
  case nil =>
    have hfalse : flag = false := by simpa using hflag
    simp [hfalse, flatten]
  case cons adef children rest ihc ihr =>
    obtain ⟨hdown, hright, hchildren, hrest⟩ := hf
    have htrue : flag = true := hflag.mpr nofun
    have hdepth : depth + 1 + (if adef.has .down then 1 else 0) - (if adef.has .right then 0 else 1) =
        depth + (if adef.has .right then 1 else 0) + (if adef.has .down then 1 else 0) := by
      split <;> split <;> omega
    rw [htrue, if_pos rfl, flatten, List.cons_append, List.append_assoc, skipChildren, hdepth, ihc hchildren hdown,
      ihr hrest hright]

theorem adefFirstChild_flatten (hf : (cons adef children rest).Flagged) (tail : List EggAsn1xDef) :
    adefFirstChild (adef :: (children.flatten ++ tail)) = (children.pointers tail).head? := by
  cases children
  case nil =>
    have hdown : adef.has .down = false := by simpa using hf.1
    cases tail
    case nil       => rfl
    case cons d ds => simp [adefFirstChild, hdown, flatten, pointers]
  case cons child _ _ =>
    have hdown : adef.has .down = true := hf.1.mpr nofun
    simp [adefFirstChild, hdown, flatten, pointers]

theorem adefNextSibling_flatten (hf : (cons adef children rest).Flagged) (tail : List EggAsn1xDef) :
    adefNextSibling (adef :: (children.flatten ++ (rest.flatten ++ tail))) = (rest.pointers tail).head? := by
  have hskip := skipChildren_flatten hf.2.2.1 hf.1 0 (rest.flatten ++ tail)
  rw [Nat.zero_add, skipChildren] at hskip
  cases rest
  case nil =>
    have hright : adef.has .right = false := by simpa using hf.2.1
    simp [adefNextSibling, hright, pointers]
  case cons sibling _ _ =>
    have hright : adef.has .right = true := hf.2.1.mpr nofun
    simp only [adefNextSibling, hright, not_true, if_false, hskip]
    simp [flatten, pointers]

def length : Forest → Nat
  | nil              => 0
  | cons _ _ rest => rest.length + 1

theorem adefSiblings_pointers (hf : f.Flagged) {fuel : Nat} (hfuel : f.length < fuel) (tail : List EggAsn1xDef) :
    adefSiblings fuel (f.pointers tail).head? = f.pointers tail := by
  induction f generalizing fuel
  case nil =>
    rw [pointers, List.head?_nil, adefSiblings]
    exact nofun
  case cons adef children rest _ ihr =>
    obtain ⟨fuel, rfl⟩ := Nat.exists_eq_succ_of_ne_zero (Nat.ne_of_gt (Nat.zero_lt_of_lt hfuel))
    rw [pointers, List.head?_cons, adefSiblings, adefNextSibling_flatten hf, ihr hf.2.2.2 (Nat.lt_of_succ_lt_succ hfuel)]

theorem length_le (f : Forest) : f.length ≤ f.flatten.length := by
  induction f
  case nil                         => exact le_rfl
  case cons _ children rest _ ihr =>
    rw [length, flatten, List.length_cons, List.length_append]
    omega

theorem adefChildren_flatten (hf : (cons adef children rest).Flagged) (tail : List EggAsn1xDef) :
    adefChildren (adef :: (children.flatten ++ tail)) = children.pointers tail := by
  have hle := children.length_le
  rw [adefChildren, adefFirstChild_flatten hf, adefSiblings_pointers hf.2.2.1]
  rw [List.length_cons, List.length_append]
  omega

-- The parent of the next node behind a node that is complete.
def closed (node : Open) (above : List Open) : Parent :=
  if node.adef.has .right then parentOf node above else climb node above

-- How the loop goes on.
def resume (ds : List EggAsn1xDef) : Parent → Option (GNode × List EggAsn1xDef)
  | .null root         => some (root, ds)
  | .node parent above =>
    match ds with
    | []      => none
    | d :: ds => buildLoop ds { adef := d } (parent :: above)

theorem buildLoop_eq (ds : List EggAsn1xDef) (node : Open) (above : List Open) :
    buildLoop ds node above = (nextParent node above).bind (resume ds) := by
  rw [buildLoop]
  cases nextParent node above
  case none        => rfl
  case some parent =>
    cases parent
    case null root => rfl
    case node      => rfl

theorem nextParent_leaf {node parent : Open} (hdown : node.adef.has .down = false) (above : List Open) :
    nextParent node (parent :: above) = some (closed node (parent :: above)) := by
  unfold nextParent closed
  rw [hdown, if_neg Bool.false_ne_true]
  split
  case isTrue  => rfl
  case isFalse => rfl

theorem climb_cons (node parent : Open) (above : List Open) :
    climb node (parent :: above) = closed (parent.append node) above :=
  rfl

-- The siblings are appended to their parent, and nothing behind them is read.
theorem resume_siblings (hf : f.Flagged) (hne : f ≠ nil) (parent : Open) (above : List Open) (tail : List EggAsn1xDef) :
    resume (f.flatten ++ tail) (.node parent above) =
      resume tail (closed { parent with children := parent.children ++ f.nodes } above) := by
  induction f generalizing parent above tail
  case nil => exact absurd rfl hne
  case cons adef children rest ihc ihr =>
    obtain ⟨hdown, hright, hchildren, hrest⟩ := hf
    -- First the children, as siblings below the definition.
    have hnode : buildLoop (children.flatten ++ (rest.flatten ++ tail)) { adef := adef } (parent :: above) =
        resume (rest.flatten ++ tail) (closed { adef := adef, children := children.nodes } (parent :: above)) := by
      rw [buildLoop_eq]
      cases hc : children
      case nil =>
        have hfalse : adef.has .down = false := by simpa [hc] using hdown
        rw [nextParent_leaf hfalse]
        rfl
      case cons =>
        have htrue : adef.has .down = true := hdown.mpr (by simp [hc])
        rw [nextParent, if_pos htrue, ← hc]
        exact ihc hchildren (by simp [hc]) { adef := adef } (parent :: above) (rest.flatten ++ tail)
    -- Then the siblings behind it, as siblings below the parent.
    rw [flatten, List.cons_append, List.append_assoc]
    refine hnode.trans ?_
    cases hr : rest
    case nil =>
      have hfalse : adef.has .right = false := by simpa [hr] using hright
      rw [closed, if_neg (by simp [hfalse]), climb_cons]
      rfl
    case cons =>
      have htrue : adef.has .right = true := hright.mpr (by simp [hr])
      rw [closed, if_pos htrue, ← hr, parentOf, ihr hrest (by simp [hr])]
      simp only [Open.append, Open.node, nodes, List.append_assoc, List.singleton_append]

theorem buildTree_flatten (hf : (cons adef children rest).Flagged) (tail : List EggAsn1xDef) :
    buildTree (adef :: (children.flatten ++ tail)) = some (.mk { adef := adef } children.nodes, tail) := by
  cases hc : children
  case nil =>
    have hfalse : adef.has .down = false := by simpa [hc] using hf.1
    rw [buildTree, if_neg (by simp [hfalse])]
    rfl
  case cons =>
    have htrue : adef.has .down = true := hf.1.mpr (by simp [hc])
    rw [buildTree, if_pos htrue, buildLoop_eq, nextParent, if_pos htrue, ← hc]
    refine (resume_siblings hf.2.2.1 (by simp [hc]) { adef := adef } [] tail).trans ?_
    unfold closed
    split
    case isTrue  => rfl
    case isFalse => rfl

end Forest

-- The functions for children and siblings and the loop of `egg_asn1x_create` agree with the forest at each of its
-- definitions, whatever is in the memory behind the table.
theorem adef_forest {f children rest : Forest} {adef : EggAsn1xDef} {after tail : List EggAsn1xDef} (hf : f.Flagged)
    (he : f.Entry after adef children rest tail) :
    adef :: (children.flatten ++ (rest.flatten ++ tail)) <:+ f.flatten ++ after ∧
      adefFirstChild (adef :: (children.flatten ++ (rest.flatten ++ tail))) =
        (children.pointers (rest.flatten ++ tail)).head? ∧
      adefChildren (adef :: (children.flatten ++ (rest.flatten ++ tail))) = children.pointers (rest.flatten ++ tail) ∧
      adefNextSibling (adef :: (children.flatten ++ (rest.flatten ++ tail))) = (rest.pointers tail).head? ∧
      buildTree (adef :: (children.flatten ++ (rest.flatten ++ tail))) =
        some (.mk { adef := adef } children.nodes, rest.flatten ++ tail) := by
  have hflagged := he.flagged hf
  refine ⟨he.suffix, ?_, ?_, ?_, ?_⟩
  · exact Forest.adefFirstChild_flatten hflagged _
  · exact Forest.adefChildren_flatten hflagged _
  · exact Forest.adefNextSibling_flatten hflagged _
  · exact Forest.buildTree_flatten hflagged _

-- The first definition of three, with a child, in a table with a definition of another forest behind it.
theorem adef_forest_example :
    let leaf : EggAsn1xDef := ⟨none, .integer, [], none⟩
    let item : EggAsn1xDef := ⟨none, .sequence, [.down, .right], none⟩
    let root : EggAsn1xDef := ⟨none, .definitions, [.down], none⟩
    [item, leaf, leaf, root] <:+ [root, item, leaf, leaf, root] ∧
      adefFirstChild [item, leaf, leaf, root] = some [leaf, leaf, root] ∧
      adefChildren [item, leaf, leaf, root] = [[leaf, leaf, root]] ∧
      adefNextSibling [item, leaf, leaf, root] = some [leaf, root] ∧
      buildTree [item, leaf, leaf, root] =
        some (.mk { adef := item } [.mk { adef := leaf } []], [leaf, root]) :=
  adef_forest (f := .cons ⟨none, .definitions, [.down], none⟩ (.cons ⟨none, .sequence, [.down, .right], none⟩
      (.cons ⟨none, .integer, [], none⟩ .nil .nil) (.cons ⟨none, .integer, [], none⟩ .nil .nil)) .nil)
    (by simp [Forest.Flagged, EggAsn1xDef.has]) (.down .here)

end Asn1x
