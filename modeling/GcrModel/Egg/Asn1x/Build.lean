import GcrModel.Egg.Asn1x.Decode
import GcrModel.Egg.Asn1x.Unparse
import GcrModel.Egg.Asn1x.Create

-- The building of elements from nodes, and the encoding, in egg-asn1x.c. `none` is an assertion that fails, or what the C
-- language leaves undefined.
namespace Asn1x

open GLib

-- The basis of the class, apart from types that are transparent.
def EggAsn1xType.classBasis : EggAsn1xType → Option UInt8
  | .integer | .boolean | .bitString | .octetString | .objectId | .time | .utcTime | .generalizedTime | .enumerated
  | .generalString | .numericString | .ia5String | .teletexString | .printableString | .universalString | .bmpString
  | .utf8String | .visibleString | .null => some 0x00
  | .sequence | .set | .sequenceOf | .setOf => some classStructured
  | _ => none

-- The class and the flags that are left for the tag. A class without a tag is not set to anything.
def classAndFlags (node : GNode) (basis : UInt8) : Option (UInt8 × List Flag) :=
  let flags := anodeDefFlags node
  if flags.contains .tag then
    match anodeCalcExplicitForFlags node flags with
    | (true, _)               => some (basis, withoutTag flags)
    | (false, some clsType) => some (basis ||| clsType, flags)
    | (false, none)           => none
  else some (basis, flags)

def anodeBuildClsTagLen (node : GNode) (tlv : Atlv) (len : Int) : Option Atlv := do
  let len ← addGint len (if tlv.prefixForBitString ∨ tlv.prefixWithZeroByte then 1 else 0)
  let basis ← (anodeDefType node).classBasis
  let (cls, flags) ← classAndFlags node basis
  let tag := anodeCalcTagForFlags node flags
  let header ← atlvUnparseClsTagLen cls tag len
  some { tlv with cls := cls, tag := tag, len := len, off := header.length }

-- A size that is used as a `gint`.
def GBytes.size (value : GBytes) : Int :=
  toGint (value.data.length % 2 ^ 32)

def newAtlv : Atlv where
  cls := 0
  tag := 0
  off := 0
  len := 0

-- The result of the functions is `NULL` where there is nothing to build.
def anodeBuildValue (node : GNode) : Option (Option Atlv) :=
  match node.data.value with
  | none       => some none
  | some value => (anodeBuildClsTagLen node { newAtlv with value := some value } value.size).map some

def anodeBuildBitString (node : GNode) : Option (Option Atlv) :=
  match node.data.value with
  | none       => some none
  | some value =>
    let tlv := { newAtlv with value := some value, bitsEmpty := node.data.bitsEmpty, prefixForBitString := true }
    (anodeBuildClsTagLen node tlv value.size).map some

def anodeBuildInteger (node : GNode) : Option (Option Atlv) :=
  match node.data.value with
  | none       => some none
  | some value =>
    let tlv := { newAtlv with value := some value }
    if node.data.guaranteeUnsigned then
      match value.memory with
      | []     => none
      | c :: _ => (anodeBuildClsTagLen node { tlv with prefixWithZeroByte := c &&& 0x80 ≠ 0 } value.size).map some
    else (anodeBuildClsTagLen node tlv value.size).map some

-- The whole size of the children.
def addSizes (len : Int) : List Atlv → Option Int
  | []           => some len
  | ctlv :: tlvs => do addSizes (← addGint len (← addGint ctlv.off ctlv.len)) tlvs

def buildStructured (node : GNode) (want : Bool) (child : List Atlv) : Option (Option Atlv) :=
  if child.isEmpty ∧ ¬want then some none
  else do
    let tlv ← anodeBuildClsTagLen node { newAtlv with child := child } (← addSizes 0 child)
    some (some { tlv with sorted := anodeDefType node = .setOf })

def anodeBuildMaybeExplicit (node : GNode) (tlv : Atlv) (flags : List Flag) : Option Atlv :=
  match anodeCalcExplicitForFlags node flags with
  | (false, _)            => some tlv
  | (true, none)          => none
  | (true, some clsType) => do
    let cls := classStructured ||| clsType
    let tag := anodeCalcTag node
    let len ← addGint tlv.off tlv.len
    let header ← atlvUnparseClsTagLen cls tag len
    some { newAtlv with cls := cls, tag := tag, len := len, off := header.length, child := [tlv] }

def maybeExplicit (node : GNode) (tlv : Option (Option Atlv)) : Option (Option Atlv) :=
  tlv.bind fun tlv =>
    match tlv with
    | none     => some none
    | some tlv => (anodeBuildMaybeExplicit node tlv (anodeDefFlags node)).map some

mutual

def anodeBuildAnything (want : Bool) : GNode → Option (Option Atlv)
  | .mk data children =>
    let node := GNode.mk data children
    match data.type with
    | .bitString => maybeExplicit node (anodeBuildBitString node)
    | .integer   => maybeExplicit node (anodeBuildInteger node)
    | .boolean | .octetString | .objectId | .time | .utcTime | .generalizedTime | .enumerated | .generalString
    | .numericString | .ia5String | .teletexString | .printableString | .universalString | .bmpString | .utf8String
    | .visibleString | .null => maybeExplicit node (anodeBuildValue node)
    | .any => some data.parsed
    | .sequence | .set =>
      maybeExplicit node ((buildChildren want children).bind (buildStructured node (want ∧ ¬data.flags.contains .option)))
    | .sequenceOf | .setOf =>
      maybeExplicit node ((buildChildren false children).bind (buildStructured node (want ∧ ¬data.flags.contains .option)))
    | .choice => maybeExplicit node (buildChoice want children)
    | _       => none

-- The children that there is something to build for.
def buildChildren (want : Bool) : List GNode → Option (List Atlv)
  | []             => some []
  | child :: nodes => do
    let ctlv ← anodeBuildAnything want child
    let tlvs ← buildChildren want nodes
    some (ctlv.toList ++ tlvs)

-- The first child that is chosen.
def buildChoice (want : Bool) : List GNode → Option (Option Atlv)
  | []             => some none
  | child :: nodes => if child.data.chosen then anodeBuildAnything want child else buildChoice want nodes

end

-- The node as it was validated, and the bytes, unless they are `NULL`.
def eggAsn1xEncode (now : Nat) (asn : GNode) : Option (GNode × Option GBytes) := do
  if ¬anodeDefTypeIsReal asn then some (asn, none)
  else
    let (ok, asn) ← eggAsn1xValidate now asn true
    if ¬ok then some (asn, none)
    else
      match ← anodeBuildAnything true asn with
      | none     => some (asn, none)
      | some tlv =>
        let l ← atlvSortPerform tlv
        let bytes ← atlvUnparseToBytes (← l.toTree)
        some (asn, bytes)

-- Values that are set and got as they are, and the elements of open types.

-- What a function does to the node at the end of a path.
def modifyPath (f : GNode → Option GNode) : List Nat → GNode → Option GNode
  | [],        node => f node
  | k :: path, node => do
    let child ← modifyPath f path (← node.children[k]?)
    some (node.setChildren (node.children.set k child))

-- A function that is called with a node of the tree. It does nothing with `NULL`.
def modifyAt (asn : GNode) (steps : List Step) (f : GNode → Option GNode) : Option GNode := do
  match ← eggAsn1xNode asn steps with
  | none      => some asn
  | some path => modifyPath f path asn

def eggAsn1xSetNull (node : GNode) : GNode :=
  if anodeDefType node ≠ .null then node else node.modify (·.takeValue ⟨[], []⟩)

-- `egg_asn1x_set_integer_as_usg` as well
def eggAsn1xTakeIntegerAsUsg (node : GNode) (value : GBytes) : GNode :=
  if anodeDefType node ≠ .integer then node
  else node.modify fun an => { an.takeValue value with guaranteeUnsigned := true }

def eggAsn1xTakeIntegerAsRaw (node : GNode) (value : GBytes) : Option GNode :=
  if anodeDefType node ≠ .integer then some node
  else
    match value.memory with
    | []     => none
    | p :: _ =>
      if p &&& 0x80 ≠ 0 then some node
      else some (node.modify fun an => { an.takeValue value with guaranteeUnsigned := false })

def eggAsn1xGetValueRaw (node : GNode) : Option GBytes :=
  node.data.value

-- The parts of a string, which are not structured.
def anodeReadStringStruct : List Atlv → Option Bytes
  | []           => some []
  | ctlv :: tlvs =>
    if ctlv.cls &&& classStructured ≠ 0 then none
    else ctlv.value.bind fun value => (anodeReadStringStruct tlvs).map (value.data ++ ·)

-- The result is `NULL` where there is no string.
def eggAsn1xGetStringAsBytes (node : GNode) : Option (Option Bytes) :=
  if ¬(anodeDefType node).isString then some none
  else
    match node.data.value, node.data.parsed with
    | some value, _        => some (some value.data)
    | none,       none     => some none
    | none,       some tlv => if tlv.cls &&& classStructured = 0 then none else some (anodeReadStringStruct tlv.child)

-- `egg_asn1x_set_any_from`
def eggAsn1xSetAnyFrom (node from' : GNode) : Option GNode :=
  if anodeDefType node ≠ .any then some node
  else do
    match ← anodeBuildAnything true from' with
    | none     => some node
    | some tlv =>
      let tlv ← anodeBuildMaybeExplicit node tlv (anodeDefFlags node)
      some (node.modify ({ · with parsed := some tlv }))

def eggAsn1xGetAnyInto (now : Nat) (node into : GNode) : Option (Bool × GNode) :=
  if anodeDefType node ≠ .any then some (false, into)
  else
    match node.data.parsed with
    | none     => some (false, into)
    | some tlv =>
      let tlvs := if (anodeCalcExplicitForFlags node (anodeDefFlags node)).1 then tlv.child else [tlv]
      if tlvs.isEmpty then some (false, into)
      else do
        let (ok, nodes) ← anodeDecodeAnything [into] tlvs
        let into := nodes.headD into
        if ¬ok then some (false, into) else eggAsn1xValidate now into true

-- The result is `NULL` where the element is not of the type.
def eggAsn1xGetAnyAs (now : Nat) (node : GNode) (defs : List EggAsn1xDef) (type : CString) : Option (Option GNode) := do
  let asn ← eggAsn1xCreate defs type
  let (ok, asn) ← eggAsn1xGetAnyInto now node asn
  some (if ok then some asn else none)

def eggAsn1xCreateAndDecode (now : Nat) (defs : List EggAsn1xDef) (type : CString) (data : GBytes) :
    Option (Option GNode) := do
  let asn ← eggAsn1xCreate defs type
  let (ok, asn) ← eggAsn1xDecode now asn data
  some (if ok then some asn else none)

end Asn1x
