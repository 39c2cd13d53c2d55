import GcrModel.Egg.Asn1x.Validate
import GcrModel.Library.Loop

-- The trees of nodes that egg-asn1x.c makes of a table of definitions. A pointer to a definition is the part of the table
-- from there on. `none` is `NULL`, an assertion that fails, or what does not end.
namespace Asn1x

open GLib

def adefFirstChild (adef : List EggAsn1xDef) : Option (List EggAsn1xDef) :=
  match adef with
  | d :: e :: es => if d.has .down then some (e :: es) else none
  | _            => none

-- What is behind the children of a definition, where the table is `depth` levels below it.
def skipChildren : Nat → List EggAsn1xDef → List EggAsn1xDef
  | 0,         ds      => ds
  | _ + 1,     []      => []
  | depth + 1, d :: ds =>
    skipChildren (depth + 1 + (if d.has .down then 1 else 0) - (if d.has .right then 0 else 1)) ds

def adefNextSibling (adef : List EggAsn1xDef) : Option (List EggAsn1xDef) :=
  match adef with
  | []      => none
  | d :: ds =>
    if ¬d.has .right then none
    else
      match skipChildren (if d.has .down then 1 else 0) ds with
      | []      => none
      | e :: es => some (e :: es)

-- `for (def = first; def; def = adef_next_sibling (def))`
def adefSiblings : Nat → Option (List EggAsn1xDef) → List (List EggAsn1xDef)
  | fuel + 1, some adef => adef :: adefSiblings fuel (adefNextSibling adef)
  | _,        _         => []

def adefChildren (adef : List EggAsn1xDef) : List (List EggAsn1xDef) :=
  adefSiblings adef.length (adefFirstChild adef)

def lookupDefOfType (defs : List EggAsn1xDef) (name : CString) (type : EggAsn1xType) : Option EggAsn1xDef :=
  (adefChildren defs).findSome? fun adef => adef.head?.filter fun d => d.type = type ∧ d.name = some name

-- What is known while an object identifier is looked for.
structure Pass where
  names    : List (CString × Bytes)
  progress : Bool := false
  problem  : Option CString := none
  result   : Option (List EggAsn1xDef) := none

-- The object identifier that constants are, or the name among them that is not known.
def oidOfConstants (names : List (CString × Bytes)) (oid : Option Bytes) :
    List (List EggAsn1xDef) → Option (Except CString (Option Bytes))
  | []            => some (.ok oid)
  | odef :: odefs =>
    match odef.head? with
    | none   => none
    | some d =>
      if d.type ≠ .constant then oidOfConstants names oid odefs
      else
        match d.value with
        | none       => none
        | some value =>
          match if value.bytes.all isdigit then some value.bytes else names.lookup value with
          | none   => some (.error value)
          | some s => oidOfConstants names (some ((oid.map (· ++ 46 :: s)).getD s)) odefs

-- Nothing comes of a constant without a value.
def matchOidInDefinition (adef : List EggAsn1xDef) (name : CString) (oid : Bytes) (pass : Pass) : Pass :=
  match oidOfConstants pass.names none (adefChildren adef) with
  | none                  => pass
  | some (.error problem) => { pass with problem := some problem }
  | some (.ok none)       => pass
  | some (.ok (some s))   =>
    { pass with names := (name, s) :: pass.names, result := if s = oid then adefNextSibling adef else none }

-- The definitions that are object identifiers with names, up to the one that matches.
def matchDefinitions (oid : Bytes) : List (List EggAsn1xDef) → Pass → Pass
  | [],            pass => pass
  | adef :: adefs, pass =>
    match adef.head?.filter (·.type = .objectId), adef.head?.bind (·.name) with
    | some _, some name =>
      if (pass.names.lookup name).isSome then matchDefinitions oid adefs pass
      else
        let pass := matchOidInDefinition adef name oid { pass with progress := true }
        if pass.result.isSome then pass else matchDefinitions oid adefs pass
    | _, _ => matchDefinitions oid adefs pass

-- One round of the loop. Names may be used before they are defined.
def matchRound (defs : List EggAsn1xDef) (oid : Bytes) (names : List (CString × Bytes)) :
    Option (List EggAsn1xDef) ⊕ List (CString × Bytes) :=
  let pass := matchDefinitions oid (adefChildren defs) { names := names }
  if pass.problem = none ∨ pass.result.isSome then .inl pass.result
  else if ¬pass.progress then .inl none
  else .inr pass.names

def matchOidInDefinitions (defs : List EggAsn1xDef) (oid : Bytes) (fuel : Nat) (names : List (CString × Bytes)) :
    Option (List EggAsn1xDef) :=
  (Loop.run (matchRound defs oid) fuel names).join

def isOidNumberFrom (must : Bool) : Bytes → Bool
  | []     => ¬must
  | c :: p => if isdigit c then isOidNumberFrom false p else ¬must ∧ c = 46 ∧ isOidNumberFrom true p

def isOidNumber (p : Bytes) : Bool :=
  isOidNumberFrom true p

-- The nodes for a definition and its siblings, and what is behind them.
def buildNodes : Nat → List EggAsn1xDef → Option (List GNode × List EggAsn1xDef)
  | fuel + 1, d :: ds => do
    let (children, ds) ← if d.has .down then buildNodes fuel ds else some ([], ds)
    let (nodes, ds)    ← if d.has .right then buildNodes fuel ds else some ([], ds)
    some (.mk { adef := d } children :: nodes, ds)
  | _, _ => none

-- A node of the tree that is being built, with the children that it has so far.
structure Open where
  adef     : EggAsn1xDef
  children : List GNode := []

def Open.node (o : Open) : GNode :=
  .mk { adef := o.adef } o.children

def Open.append (parent node : Open) : Open :=
  { parent with children := parent.children ++ [node.node] }

-- The parent of the next node with those above it, or the root when there is none.
inductive Parent
  | null (root : GNode)
  | node (parent : Open) (above : List Open)

-- `node->parent`
def parentOf : Open → List Open → Parent
  | node, []              => .null node.node
  | node, parent :: above => .node (parent.append node) above

-- `while (parent)`
def climb : Open → List Open → Parent
  | node, []              => .null node.node
  | node, parent :: above =>
    if parent.adef.has .right then parentOf (parent.append node) above else climb (parent.append node) above

def nextParent (node : Open) (above : List Open) : Option Parent :=
  if node.adef.has .down then some (.node node above)
  else if node.adef.has .right then
    match parentOf node above with
    | .null _ => none
    | parent  => some parent
  else some (climb node above)

-- The loop of `egg_asn1x_create` behind the definition of a node, and where it ends in the table.
def buildLoop : List EggAsn1xDef → Open → List Open → Option (GNode × List EggAsn1xDef)
  | ds, node, above =>
    match nextParent node above with
    | none                      => none
    | some (.null root)         => some (root, ds)
    | some (.node parent above) =>
      match ds with
      | []      => none
      | d :: ds => buildLoop ds { adef := d } (parent :: above)

def buildTree : List EggAsn1xDef → Option (GNode × List EggAsn1xDef)
  | []      => none
  | d :: ds => if d.has .down then buildLoop ds { adef := d } [] else some (.mk { adef := d } [], ds)

-- What joins could be an identifier as well.
def joinIdentifiers (create : CString → Option GNode) : Nat → GNode → Option GNode → Option (GNode × Option GNode)
  | 0,        _,    _    => none
  | fuel + 1, node, join =>
    if anodeDefType node ≠ .identifier then some (node, join)
    else do
      let join ← create (← (node.data.join.getD node.data.adef).value)
      joinIdentifiers create fuel (node.modify ({ · with join := some join.data.adef })) (some join)

-- The greatest size may be the name of a number.
def lookupSize (defs : List EggAsn1xDef) (node : GNode) : Option GNode :=
  match anodeDefType node, anodeDefName node with
  | .size, some identifier =>
    if identifier.bytes ≠ ascii "MAX".toList ∧ identifier.bytes.head?.any asciiIsalpha then
      (lookupDefOfType defs identifier .integer).map (anodeOptAdd node)
    else some node
  | _, _ => some node

-- Children that are no real nodes are options.
def takeOptions (node : GNode) : GNode :=
  if anodeDefTypeIsReal node then
    let opts := (node.children.filter (¬anodeDefTypeIsReal ·)).flatMap fun child => child.data.adef :: child.data.opts
    (node.setChildren (node.children.filter anodeDefTypeIsReal)).modify fun an => { an with opts := an.opts ++ opts }
  else node

-- The children of a `SET` must have tags.
def sortByTag (children : List GNode) : Option (List GNode) :=
  if 2 ≤ children.length ∧ ¬children.all fun child => (anodeDefFlags child).contains .tag ∧ anodeCalcTag child ≠ maxUlong then
    none
  else some (children.reverse.mergeSort fun a b => anodeCalcTag a ≤ anodeCalcTag b)

def prepareNode (defs : List EggAsn1xDef) (create : CString → Option GNode) (node : GNode) : Option GNode := do
  let (node, join) ← joinIdentifiers create (defs.length + 1) node none
  let node := node.setChildren (node.children ++ (join.map (·.children)).getD [])
  let node ← lookupSize defs node
  let node := takeOptions node
  let node := node.modify fun an => { an with opts := an.opts ++ (join.map (·.data.opts)).getD [] }
  if anodeDefType node = .set then (sortByTag node.children).map node.setChildren else some node

mutual

def traverseAndPrepare (prepare : GNode → Option GNode) : GNode → Option GNode
  | .mk data children => do prepare (.mk data (← traverseChildren prepare children))

def traverseChildren (prepare : GNode → Option GNode) : List GNode → Option (List GNode)
  | []            => some []
  | node :: nodes => do some ((← traverseAndPrepare prepare node) :: (← traverseChildren prepare nodes))

end

def createNodes (defs : List EggAsn1xDef) : Nat → CString → Option GNode
  | 0,        _    => none
  | fuel + 1, type => do
    let adef ←
      if isOidNumber type.bytes then matchOidInDefinitions defs type.bytes (defs.length + 1) []
      else (adefChildren defs).find? fun adef => (adef.head?.bind (·.name)) = some type
    match adef with
    | []      => none
    | d :: ds =>
      if d.name = none then none
      else do
        let (children, _) ← if d.has .down then buildNodes ds.length ds else some ([], ds)
        traverseAndPrepare (prepareNode defs (createNodes defs fuel)) (.mk { adef := d } children)

def eggAsn1xCreate (defs : List EggAsn1xDef) (type : CString) : Option GNode :=
  createNodes defs (defs.length + 1) type

end Asn1x
