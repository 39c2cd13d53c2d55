import GcrModel.GLib.Convert

-- The definitions of types in egg-asn1x.h, the trees of nodes that are made of them, and the parts of nodes.
namespace Asn1x

open GLib

inductive EggAsn1xType
  | constant
  | identifier
  | integer
  | boolean
  | sequence
  | bitString
  | octetString
  | tag
  | default
  | size
  | sequenceOf
  | objectId
  | any
  | set
  | setOf
  | definitions
  | time
  | choice
  | imports
  | null
  | enumerated
  | generalString
  | numericString
  | ia5String
  | teletexString
  | printableString
  | universalString
  | bmpString
  | utf8String
  | visibleString
  | utcTime
  | generalizedTime
  deriving DecidableEq, Repr

inductive Flag
  | universal
  | private'
  | application
  | explicit
  | implicit
  | tag
  | option
  | default
  | true
  | false
  | list
  | minMax
  | oneParam
  | size
  | definedBy
  | generalized
  | utc
  | imports
  | notUsed
  | set
  | assign
  | down
  | right
  deriving DecidableEq, Repr

-- `type & 0xFF` and the other bits of `type` are apart.
structure EggAsn1xDef where
  name  : Option CString
  type  : EggAsn1xType
  flags : List Flag
  value : Option CString
  deriving DecidableEq, Repr

-- Bytes, and the memory behind them.
structure GBytes where
  data   : Bytes
  behind : Bytes := []
  deriving DecidableEq, Repr

-- The children are the chain that starts with `child`.
structure Atlv where
  cls                : UInt8
  tag                : Nat
  off                : Int
  len                : Int
  value              : Option GBytes := none
  child              : List Atlv := []
  bitsEmpty          : Nat := 0
  prefixForBitString : Bool := false
  prefixWithZeroByte : Bool := false
  sorted             : Bool := false

structure Anode where
  adef              : EggAsn1xDef
  join              : Option EggAsn1xDef := none
  opts              : List EggAsn1xDef := []
  value             : Option GBytes := none
  parsed            : Option Atlv := none
  failure           : Option Bytes := none
  chosen            : Bool := false
  bitsEmpty         : Nat := 0
  guaranteeUnsigned : Bool := false

inductive GNode
  | mk (data : Anode) (children : List GNode)

namespace GNode

def data : GNode → Anode
  | mk data _ => data

def children : GNode → List GNode
  | mk _ children => children

def modify (node : GNode) (f : Anode → Anode) : GNode :=
  mk (f node.data) node.children

def setChildren (node : GNode) (children : List GNode) : GNode :=
  mk node.data children

@[simp]
theorem data_mk (data : Anode) (children : List GNode) : (mk data children).data = data :=
  rfl

@[simp]
theorem children_mk (data : Anode) (children : List GNode) : (mk data children).children = children :=
  rfl

@[simp]
theorem mk_data_children (node : GNode) : mk node.data node.children = node := by
  cases node
  rfl

@[simp]
theorem data_modify (node : GNode) (f : Anode → Anode) : (node.modify f).data = f node.data :=
  rfl

@[simp]
theorem children_modify (node : GNode) (f : Anode → Anode) : (node.modify f).children = node.children :=
  rfl

@[simp]
theorem data_setChildren (node : GNode) (children : List GNode) : (node.setChildren children).data = node.data :=
  rfl

@[simp]
theorem children_setChildren (node : GNode) (children : List GNode) : (node.setChildren children).children = children :=
  rfl

end GNode

def EggAsn1xDef.has (d : EggAsn1xDef) (flag : Flag) : Bool :=
  d.flags.contains flag

def Anode.type (an : Anode) : EggAsn1xType :=
  (an.join.getD an.adef).type

def Anode.flags (an : Anode) : List Flag :=
  an.adef.flags ++ (an.join.map (·.flags)).getD []

def anodeDefType (node : GNode) : EggAsn1xType :=
  node.data.type

def anodeDefFlags (node : GNode) : List Flag :=
  node.data.flags

def anodeDefName (node : GNode) : Option CString :=
  node.data.adef.name

def EggAsn1xType.isReal : EggAsn1xType → Bool
  | .constant | .identifier | .tag | .default | .size | .definitions | .imports => false
  | _ => true

def anodeDefTypeIsReal (node : GNode) : Bool :=
  (anodeDefType node).isReal

def maxUlong : Nat := maxUint64

def anodeDefValueAsUlong (d : EggAsn1xDef) : Nat :=
  match d.value with
  | none       => maxUlong
  | some value =>
    match strtoul value.bytes with
    | (lval, []) => lval
    | _          => maxUlong

-- An option of a type whose string, its name or its value, is not another one.
def lookupOpt (key : EggAsn1xDef → Option CString) (opts : List EggAsn1xDef) (type : EggAsn1xType)
    (string : Option CString) : Option EggAsn1xDef :=
  opts.find? fun d => (string = none ∨ key d = none ∨ string = key d) ∧ d.type = type

def anodeOptLookup (node : GNode) (type : EggAsn1xType) (name : Option CString) : Option EggAsn1xDef :=
  lookupOpt (·.name) node.data.opts type name

def anodeOptsLookup (node : GNode) (type : EggAsn1xType) (name : Option CString) : List EggAsn1xDef :=
  node.data.opts.filter fun d => (name = none ∨ d.name = none ∨ name = d.name) ∧ d.type = type

def anodeOptAdd (node : GNode) (d : EggAsn1xDef) : GNode :=
  node.modify fun an => { an with opts := an.opts ++ [d] }

def Anode.clrValue (an : Anode) : Anode :=
  { an with value := none, parsed := none }

def Anode.takeValue (an : Anode) (value : GBytes) : Anode :=
  { an.clrValue with value := some value }

def Anode.clear (an : Anode) : Anode :=
  { an.clrValue with failure := none }

-- What the text of a failure starts with.
def Anode.failurePrefix (an : Anode) : Bytes :=
  ((an.adef.name <|> an.join.bind (·.name) <|> an.adef.value <|> an.join.bind (·.value)).map (·.bytes)).getD
    (ascii "unknown".toList)

def Anode.fail (an : Anode) (failure : String) : Anode :=
  { an with failure := some (an.failurePrefix ++ ascii ": ".toList ++ ascii failure.toList) }

-- `anode_failure`, which is `FALSE`.
def anodeFailure (node : GNode) (failure : String) : Bool × GNode :=
  (false, node.modify (·.fail failure))

-- `anode_copy_func`
def Anode.copy (an : Anode) : Anode where
  adef := an.adef
  join := an.join
  opts := an.opts

mutual

def anodeClone : GNode → GNode
  | .mk data children => .mk data.copy (anodeCloneAll children)

def anodeCloneAll : List GNode → List GNode
  | []             => []
  | node :: nodes => anodeClone node :: anodeCloneAll nodes

end

-- The tag of the universal class.
def EggAsn1xType.universalTag (flags : List Flag) : EggAsn1xType → Nat
  | .integer               => 0x02
  | .enumerated            => 0x0A
  | .boolean               => 0x01
  | .bitString             => 0x03
  | .octetString           => 0x04
  | .objectId              => 0x06
  | .null                  => 0x05
  | .generalString         => 0x1B
  | .numericString         => 0x12
  | .ia5String             => 0x16
  | .teletexString         => 0x14
  | .printableString       => 0x13
  | .universalString       => 0x1C
  | .bmpString             => 0x1E
  | .utf8String            => 0x0C
  | .visibleString         => 0x1A
  | .time                  =>
    if flags.contains .generalized then 0x18 else if flags.contains .utc then 0x17 else maxUlong
  | .utcTime               => 0x17
  | .generalizedTime       => 0x18
  | .sequence | .sequenceOf => 0x10
  | .set | .setOf           => 0x11
  | _                      => maxUlong

def anodeCalcTagForFlags (node : GNode) (flags : List Flag) : Nat :=
  if flags.contains .tag then ((anodeOptLookup node .tag none).map anodeDefValueAsUlong).getD maxUlong
  else (anodeDefType node).universalTag flags

def anodeCalcTag (node : GNode) : Nat :=
  anodeCalcTagForFlags node (anodeDefFlags node)

-- Whether the tag is explicit, and its class where there is a tag.
def anodeCalcExplicitForFlags (node : GNode) (flags : List Flag) : Bool × Option UInt8 :=
  if ¬flags.contains .tag then (false, none)
  else
    match anodeOptLookup node .tag none with
    | none     => (false, none)
    | some opt =>
      let clsType : UInt8 :=
        if opt.has .universal then 0x00
        else if opt.has .application then 0x40
        else if opt.has .private' then 0xC0
        else 0x80
      (¬opt.has .implicit, some clsType)

end Asn1x

-- How nodes are found in egg-asn1x.c. A node is named by the indexes of the children on the way to it.
namespace Asn1x

open GLib

mutual

def eggAsn1xHave : GNode → Bool
  | .mk data children => data.value.isSome || data.parsed.isSome || anyHave children

def anyHave : List GNode → Bool
  | []            => false
  | node :: nodes => eggAsn1xHave node || anyHave nodes

end

def EggAsn1xType.isList : EggAsn1xType → Bool
  | .sequenceOf | .setOf => true
  | _                    => false

def eggAsn1xCount (node : GNode) : Nat :=
  if (anodeDefType node).isList then node.children.countP eggAsn1xHave % 2 ^ 32 else 0

-- An argument behind the node.
inductive Step
  | index (index : Int)
  | name (name : CString)

-- The child that an index means. Only nodes with data are counted.
@[grind =]
def nthHave : Int → List GNode → Option Nat
  | _,     []            => none
  | index, node :: nodes =>
    if eggAsn1xHave node then
      if index - 1 = 0 then some 0 else (nthHave (index - 1) nodes).map (· + 1)
    else
      (nthHave index nodes).map (· + 1)

-- A name that is compared must not be `NULL`.
def anodeChildWithName (name : CString) : List GNode → Option (Option Nat)
  | []            => some none
  | node :: nodes =>
    match anodeDefName node with
    | none       => none
    | some name' =>
      if name = name' then some (some 0) else (anodeChildWithName name nodes).map (·.map (· + 1))

-- The result is `NULL`, or a node. Behind the last argument there is a zero, which ends them.
def eggAsn1xNode (node : GNode) : List Step → Option (Option (List Nat))
  | []            => some (some [])
  | step :: steps => do
    let child ←
      match (anodeDefType node).isList, step with
      | true,  .index index => if index = 0 then return some [] else some (nthHave index node.children)
      | true,  .name _      => none
      | false, .name name   => anodeChildWithName name node.children
      | false, .index index => if index = 0 then return some [] else if 0 < index ∧ index ≤ 4096 then some none else none
    match child with
    | none       => some none
    | some child =>
      match node.children[child]? with
      | none      => none
      | some node => (eggAsn1xNode node steps).map (·.map (child :: ·))

def eggAsn1xGetChoice (node : GNode) : Option GNode :=
  node.children.find? (·.data.chosen)

mutual

-- `traverse_and_clear`: whether the traversal is stopped.
def clearNode : GNode → Bool × GNode
  | .mk data children =>
    let (stop, children) := clearNodes children
    if stop then (true, .mk data children)
    else
      let data := data.clear
      if data.type.isList then (children.isEmpty, .mk data (children.take 1))
      else (false, .mk data children)

def clearNodes : List GNode → Bool × List GNode
  | []            => (false, [])
  | node :: nodes =>
    let (stop, node) := clearNode node
    if stop then (true, node :: nodes)
    else
      let (stop, nodes) := clearNodes nodes
      (stop, node :: nodes)

end

def eggAsn1xClear (asn : GNode) : GNode :=
  (clearNode asn).2

end Asn1x
