import GcrModel.Egg.Asn1x.Validate

-- The parsing of encoded elements in egg-asn1x.c. `none` is what the C language leaves undefined, or an assertion that
-- fails; an error is the message that is returned.
namespace Asn1x

open GLib

-- The data, and the memory that starts with it.
def GBytes.memory (data : GBytes) : Bytes :=
  data.data ++ data.behind

-- The bytes from `beg` on, as far as they are behind the start of the memory.
def GBytes.slice (data : GBytes) (beg : Nat) (len : Int) : GBytes where
  data   := (data.memory.drop beg).take len.toNat
  behind := (data.memory.drop beg).drop len.toNat

-- The header at an offset, where `stop` is the offset of the end.
def parseHeader (data : GBytes) (at' stop : Nat) : Option (Option Header) :=
  atlvParseClsTagLen (data.memory.drop at') (stop - at')

def Header.indefiniteEnd (h h' : Header) : Prop :=
  h.len < 0 ∧ h'.cls = 0 ∧ h'.tag = 0 ∧ h'.len = 0

instance (h h' : Header) : Decidable (h.indefiniteEnd h') :=
  inferInstanceAs (Decidable (_ ∧ _))

mutual

-- The element at an offset whose header is `h`, and the offset behind it.
def atlvParseDerTag (data : GBytes) : Nat → Header → Nat → Option (Except String (Atlv × Nat))
  | 0,        _, _   => none
  | fuel + 1, h, at' =>
    let size := data.data.length
    if size < at' then none
    else if (size : Int) < at' + h.off + h.len then some (.error "invalid length of tlv")
    else if h.len < 0 ∧ h.cls &&& classStructured = 0 then
      some (.error "indefinite length on non-structured type")
    else
      let tlv : Atlv := { cls := h.cls, tag := h.tag, off := h.off, len := h.len }
      let content := (at' + h.off).toNat
      if h.cls &&& classStructured ≠ 0 then
        let stop := if 0 ≤ h.len then content + h.len.toNat else size
        (parseDerChildren data fuel h stop content).map
          (·.map fun (children, at') => ({ tlv with child := children }, at'))
      else
        some (.ok ({ tlv with value := some (data.slice content h.len) }, content + h.len.toNat))

-- The elements from an offset on, up to `stop`.
def parseDerChildren (data : GBytes) : Nat → Header → Nat → Nat → Option (Except String (List Atlv × Nat))
  | 0,        _, _,    _   => none
  | fuel + 1, h, stop, at' =>
    if stop ≤ at' then some (.ok ([], at'))
    else
      match parseHeader data at' stop with
      | none           => none
      | some none      => some (.error "content is not encoded properly")
      | some (some h') =>
        if h.indefiniteEnd h' then some (.ok ([], at' + h'.off.toNat))
        else
          match atlvParseDerTag data fuel h' at' with
          | none                     => none
          | some (.error msg)        => some (.error msg)
          | some (.ok (child, at')) =>
            (parseDerChildren data fuel h stop at').map (·.map fun (children, at') => (child :: children, at'))

end

-- The data is not `NULL`.
def atlvParseDer (data : GBytes) : Option (Except String Atlv) :=
  match parseHeader data 0 data.data.length with
  | none          => none
  | some none     => some (.error "content is not encoded properly")
  | some (some h) =>
    match atlvParseDerTag data (2 * data.data.length + 2) h 0 with
    | none                   => none
    | some (.error msg)      => some (.error msg)
    | some (.ok (tlv, at')) =>
      some (if at' ≠ data.data.length then .error "extra unexpected trailing data" else .ok tlv)

-- The decoding of nodes in egg-asn1x.c. `none` is what the C language leaves undefined, or an assertion that fails.

def withoutTag (flags : List Flag) : List Flag :=
  flags.filter (· ≠ .tag)

-- `FLAG_OPTION` or `FLAG_DEFAULT`
def anodeDecodeOptionOrDefault (node : GNode) : Bool × GNode :=
  if (anodeDefFlags node).contains .option ∨ (anodeDefFlags node).contains .default then
    (true, node.modify (·.clrValue))
  else (false, node)

def anodeDecodeBitString (node : GNode) (tlv : Atlv) : Option (Bool × GNode) :=
  match tlv.value with
  | none       => none
  | some value =>
    match value.data with
    | []           => some (anodeFailure node "invalid length bit string")
    | empty :: buf =>
      if 8 ≤ empty then some (anodeFailure node "invalid number of empty bits")
      else if buf.getLast?.any (· &&& UInt8.ofNat (0xFF >>> (8 - empty.toNat)) ≠ 0) then
        some (anodeFailure node "bit string has invalid trailing bits")
      else
        some (true, node.modify fun an => { an.takeValue ⟨buf, value.behind⟩ with bitsEmpty := empty.toNat })

-- A value that is `NULL` is none.
def anodeSetValue (node : GNode) (value : Option GBytes) : GNode :=
  node.modify fun an => { an.clrValue with value := value }

-- The tags in a `SET` are in ascending order. The counter is a `gint`.
def ascending (i tag : Nat) : List Atlv → Option Bool
  | []          => some true
  | tlv :: tlvs =>
    if 0 < i ∧ tlv.tag < tag then some false
    else if 2 ^ 31 ≤ i + 1 then none
    else ascending (i + 1) tlv.tag tlvs

def tagsAscend (node : GNode) (tlv : Atlv) : Option Bool :=
  if anodeDefType node = .set then ascending 0 0 tlv.child else some true

-- Which TLV was used for a node.
def markParsed (ok : Bool) (tlv : Atlv) (node : GNode) : GNode :=
  if ok then node.modify ({ · with parsed := some tlv }) else node

theorem sizeOf_child (tlv : Atlv) : sizeOf tlv.child < sizeOf tlv := by
  cases tlv
  simp only [Atlv.mk.sizeOf_spec]
  omega

theorem sizeOf_only {tlv ctlv : Atlv} (h : tlv.child = [ctlv]) : sizeOf ctlv < sizeOf tlv := by
  have hlt := sizeOf_child tlv
  rw [h, List.cons.sizeOf_spec] at hlt
  omega

theorem sizeOf_children (node : GNode) : sizeOf node.children < sizeOf node := by
  cases node
  simp only [GNode.mk.sizeOf_spec, GNode.children_mk]
  omega

theorem sizeOf_element {tlv ctlv : Atlv} {tlvs : List Atlv} (h : tlv.child = ctlv :: tlvs) :
    sizeOf ctlv < sizeOf tlv ∧ sizeOf tlvs < sizeOf tlv := by
  have hlt := sizeOf_child tlv
  rw [h, List.cons.sizeOf_spec] at hlt
  omega

mutual

def anodeDecodeOneWithoutTag (node : GNode) (tlv : Atlv) (flags : List Flag) : Option (Bool × GNode) :=
  if (anodeCalcExplicitForFlags node flags).1 then
    if tlv.cls &&& classContextSpecific = 0 then some (anodeFailure node "missing context specific tag")
    else
      match _h : tlv.child with
      | []     => some (anodeFailure node "missing context specific child")
      | [ctlv] => do
        let (ok, node) ← anodeDecodeOneWithoutTag node ctlv (withoutTag flags)
        some (ok, markParsed ok tlv node)
      | _      => some (anodeFailure node "multiple context specific children")
  else do
    let (ok, node) ←
      if tlv.cls &&& classStructured ≠ 0 then anodeDecodeStructured node tlv else anodeDecodePrimitive node tlv
    some (ok, markParsed ok tlv node)
termination_by (sizeOf tlv, sizeOf node, 3)
decreasing_by
  · exact Prod.Lex.left _ _ (sizeOf_only _h)
  · exact Prod.Lex.right _ (Prod.Lex.right _ (by decide))
  · exact Prod.Lex.right _ (Prod.Lex.right _ (by decide))

def anodeDecodeStructured (node : GNode) (tlv : Atlv) : Option (Bool × GNode) :=
  match anodeDefType node with
  | .any | .generalString | .octetString | .numericString | .ia5String | .teletexString | .printableString
  | .universalString | .bmpString | .utf8String | .visibleString => some (true, node)
  | .choice               => anodeDecodeChoice node tlv
  | .sequence | .set      => anodeDecodeSequenceOrSet node tlv
  | .sequenceOf | .setOf => anodeDecodeSequenceOrSetOf node tlv
  | _                     => some (anodeFailure node "structured value of an unexpected type")
termination_by (sizeOf tlv, sizeOf node, 2)

def anodeDecodePrimitive (node : GNode) (tlv : Atlv) : Option (Bool × GNode) :=
  if ¬tlv.child.isEmpty then none
  else
    match anodeDefType node with
    | .bitString => anodeDecodeBitString node tlv
    | .integer | .enumerated | .boolean | .octetString | .objectId | .null | .time | .utcTime | .generalizedTime
    | .generalString | .numericString | .ia5String | .teletexString | .printableString | .universalString
    | .bmpString | .utf8String | .visibleString => some (true, anodeSetValue node tlv.value)
    | .any    => some (true, node)
    | .choice => anodeDecodeChoice node tlv
    | _       => some (anodeFailure node "primitive value of an unexpected type")
termination_by (sizeOf tlv, sizeOf node, 2)

def anodeDecodeChoice (node : GNode) (tlv : Atlv) : Option (Bool × GNode) := do
  let children ← decodeChoices node.children tlv
  let node := node.setChildren children
  some (if children.any (·.data.chosen) then (true, node) else anodeFailure node "no choice is present")
termination_by (sizeOf tlv, sizeOf node, 1)
decreasing_by
  exact Prod.Lex.right _ (Prod.Lex.left _ _ (sizeOf_children node))

-- All of the choices are tried.
def decodeChoices (nodes : List GNode) (tlv : Atlv) : Option (List GNode) :=
  match nodes with
  | []            => some []
  | node :: nodes => do
    let (ok, node) ← anodeDecodeOne node tlv
    let nodes ← decodeChoices nodes tlv
    some (node.modify ({ · with chosen := ok }) :: nodes)
termination_by (sizeOf tlv, sizeOf nodes, 0)

-- The children are not none.
def anodeDecodeSequenceOrSet (node : GNode) (tlv : Atlv) : Option (Bool × GNode) := do
  let ascend ← tagsAscend node tlv
  if ¬ascend then some (anodeFailure node "content must be in ascending order")
  else if node.children.isEmpty then none
  else
    let (ok, children) ← anodeDecodeAnything node.children tlv.child
    some (ok, node.setChildren children)
termination_by (sizeOf tlv, sizeOf node, 1)
decreasing_by
  exact Prod.Lex.left _ _ (sizeOf_child tlv)

-- The first element is decoded into the first child, the others into clones of it at the end.
def anodeDecodeSequenceOrSetOf (node : GNode) (tlv : Atlv) : Option (Bool × GNode) :=
  match node.children with
  | []               => some (false, node)
  | child :: others =>
    match _h : tlv.child with
    | []           => some (true, node)
    | ctlv :: tlvs => do
      let tag := anodeCalcTag child
      let (ok, child) ← anodeDecodeOne child ctlv
      let node := node.setChildren (child :: others)
      if ¬ok then some (false, node) else decodeElements node tag 1 tlvs
termination_by (sizeOf tlv, sizeOf node, 1)
decreasing_by
  all_goals have hlt := sizeOf_element _h
  · exact Prod.Lex.left _ _ hlt.1
  · exact Prod.Lex.left _ _ hlt.2

-- The elements from the second one on. The counter is a `gint`.
def decodeElements (node : GNode) (tag i : Nat) (tlvs : List Atlv) : Option (Bool × GNode) :=
  match tlvs with
  | []           => some (true, node)
  | ctlv :: tlvs =>
    if tag ≠ maxUlong ∧ ctlv.tag ≠ tag then some (anodeFailure node "invalid mismatched content")
    else
      match node.children with
      | []         => none
      | child :: _ => do
        let (ok, other) ← anodeDecodeOne (anodeClone child) ctlv
        let node := node.setChildren (node.children ++ [other])
        if ¬ok then some (false, node)
        else if 2 ^ 31 ≤ i + 1 then none
        else decodeElements node tag (i + 1) tlvs
termination_by (sizeOf tlvs, sizeOf node, 0)

def anodeDecodeOne (node : GNode) (tlv : Atlv) : Option (Bool × GNode) :=
  let tag := anodeCalcTag node
  if tag ≠ maxUlong ∧ tag ≠ tlv.tag then some (anodeFailure node "decoded tag did not match expected")
  else anodeDecodeOneWithoutTag node tlv (anodeDefFlags node)
termination_by (sizeOf tlv, sizeOf node, 4)

-- The node and its next siblings. A node that is passed over, and the last one, may fail for what follows.
def anodeDecodeAnything (nodes : List GNode) (tlvs : List Atlv) : Option (Bool × List GNode) :=
  match nodes, tlvs with
  | [],            []           => some (true, [])
  | [],            _ :: _       => none
  | node :: nodes, []           => do
    let (ok, node) := anodeDecodeOptionOrDefault node
    if ¬ok then some (false, (anodeFailure node "no decoded value").2 :: nodes)
    else
      let (ok, nodes) ← anodeDecodeAnything nodes []
      some (ok, node :: nodes)
  | node :: nodes, tlv :: tlvs => do
    let tag := anodeCalcTag node
    if tag ≠ maxUlong ∧ tag ≠ tlv.tag then
      let (ok, node) := anodeDecodeOptionOrDefault node
      if ¬ok ∨ nodes.isEmpty then some (false, (anodeFailure node "decoded tag did not match expected").2 :: nodes)
      else
        let (ok, nodes) ← anodeDecodeAnything nodes (tlv :: tlvs)
        some (ok, node :: nodes)
    else
      let (ok, node) ← anodeDecodeOneWithoutTag node tlv (anodeDefFlags node)
      if ¬ok then some (false, node :: nodes)
      else if nodes.isEmpty ∧ ¬tlvs.isEmpty then some (false, (anodeFailure node "encountered extra tag").2 :: nodes)
      else
        let (ok, nodes) ← anodeDecodeAnything nodes tlvs
        some (ok, node :: nodes)
termination_by (sizeOf tlvs, sizeOf nodes, 0)

end

-- `asn` is the root of a tree. `now` is the `tm_year` of the current time.
def eggAsn1xDecodeFull (now : Nat) (asn : GNode) (data : GBytes) (strict : Bool) : Option (Bool × GNode) := do
  let asn := eggAsn1xClear asn
  match ← atlvParseDer data with
  | .error msg => some (false, asn.modify ({ · with failure := some (ascii msg.toList) }))
  | .ok tlv    =>
    let (ret, nodes) ← anodeDecodeAnything [asn] [tlv]
    let asn := nodes.headD asn
    if ¬ret then some (false, asn) else eggAsn1xValidate now asn strict

def eggAsn1xDecode (now : Nat) (asn : GNode) (data : GBytes) : Option (Bool × GNode) :=
  eggAsn1xDecodeFull now asn data true

end Asn1x
