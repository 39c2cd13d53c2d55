import GcrModel.Egg.Asn1x.Values

-- The validation of nodes in egg-asn1x.c. `none` is an assertion that fails, or what the C language leaves undefined.
namespace Asn1x

open GLib

-- A step that fails ends the ones behind it.
theorem bind_ok {α β : Type} {x : Option (Bool × α)} {k : Bool × α → Option (Bool × β)} {failed : α → β}
    {next : α → Option (Bool × β)} {b : β} (h : x.bind k = some (true, b))
    (hk : ∀ ok a, k (ok, a) = if ¬ok then some (false, failed a) else next a) :
    ∃ a, x = some (true, a) ∧ next a = some (true, b) := by
  obtain ⟨⟨ok, a⟩, hx, h⟩ := Option.bind_eq_some_iff.mp h
  rw [hk] at h
  cases ok with
  | false => cases h
  | true  => exact ⟨a, hx, h⟩

def asciiIsalpha (c : UInt8) : Bool :=
  65 ≤ c ∧ c ≤ 90 ∨ 97 ≤ c ∧ c ≤ 122

-- A name that is resolved more often than there are options is one of itself.
def parseSize (node : GNode) : Nat → Option CString → Option (Option Nat)
  | _,    none      => some none
  | fuel, some text =>
    if text.bytes = ascii "MAX".toList then some (some maxUlong)
    else if text.bytes.head?.any asciiIsalpha then
      match fuel, anodeOptLookup node .integer (some text) with
      | 0,        _      => none
      | _,        none   => some none
      | fuel + 1, some d => parseSize node fuel d.value
    else
      match strtoul text.bytes with
      | (value, []) => some (some value)
      | _           => some none

def anodeParseSize (node : GNode) (text : Option CString) : Option (Option Nat) :=
  parseSize node (node.data.opts.length + 1) text

def anodeValidateSize (node : GNode) (length : Nat) : Option (Bool × GNode) :=
  if ¬(anodeDefFlags node).contains .size then some (true, node)
  else
    match anodeOptLookup node .size none with
    | none      => some (false, node)
    | some size => do
      match ← anodeParseSize node size.value with
      | none        => some (false, node)
      | some value1 =>
        if size.has .minMax then
          match ← anodeParseSize node size.name with
          | none        => some (false, node)
          | some value2 =>
            if length < value1 ∨ value2 ≤ length then some (anodeFailure node "content size is out of bounds")
            else some (true, node)
        else if length ≠ value1 then some (anodeFailure node "content size is not correct")
        else some (true, node)

-- Whether a number is one of the constants, which must be numbers.
def listed (val : Nat) : List EggAsn1xDef → Option Bool
  | []      => some false
  | d :: ds =>
    if anodeDefValueAsUlong d = maxUlong then none
    else if anodeDefValueAsUlong d = val then some true
    else listed val ds

def anodeValidateInteger (node : GNode) (value : GBytes) : Option (Bool × GNode) :=
  if value.data = [] then some (anodeFailure node "zero length integer")
  else if (anodeDefFlags node).contains .list then do
    match ← anodeReadIntegerUlong value.data with
    | none     => some (anodeFailure node "integer not part of list")
    | some val =>
      match listed val (anodeOptsLookup node .constant none) with
      | none       => some (false, node)
      | some false => some (anodeFailure node "integer not part of listed set")
      | some true  => some (true, node)
  else some (true, node)

def anodeValidateEnumerated (node : GNode) (value : GBytes) : Option (Bool × GNode) :=
  if value.data.head?.any (· &&& 0x80 ≠ 0) then some (anodeFailure node "enumerated must be positive")
  else anodeValidateInteger node value

def anodeValidateBoolean (node : GNode) (value : GBytes) : Option (Bool × GNode) :=
  match value.data with
  | [c] => some (if c ≠ 0x00 ∧ c ≠ 0xFF then anodeFailure node "boolean must be true or false" else (true, node))
  | _   => some (anodeFailure node "invalid length boolean")

-- All the validation was done when it was decoded.
def anodeValidateBitString (node : GNode) (_ : GBytes) : Option (Bool × GNode) :=
  some (true, node)

def anodeReadStringSimple (data : GBytes) : Nat :=
  data.data.length

def anodeValidateString (node : GNode) (value : GBytes) : Option (Bool × GNode) :=
  anodeValidateSize node (anodeReadStringSimple value)

def anodeValidateObjectId (node : GNode) (value : GBytes) : Option (Bool × GNode) :=
  (anodeReadObjectId node value).map fun (ok, node, _) => (ok, node)

def anodeValidateNull (node : GNode) (value : GBytes) : Option (Bool × GNode) :=
  some (value.data.length = 0, node)

def anodeReadTime (now : Nat) (node : GNode) (data : GBytes) (when : Tm) (offset : Int) :
    Option (Bool × GNode × Tm × Int) := do
  let flags := anodeDefFlags node
  let parse : Option (Bytes → Nat → Tm → Int → Option TimeResult) :=
    match anodeDefType node with
    | .generalizedTime => some parseGeneralTime
    | .utcTime         => some (parseUtcTime now)
    | _                =>
      if flags.contains .generalized then some parseGeneralTime
      else if flags.contains .utc then some (parseUtcTime now)
      else none
  match parse with
  | none       => some (false, node, when, offset)
  | some parse =>
    let (ret, when, offset) ← parse (data.data ++ data.behind) data.data.length when offset
    if ret = 0 then some (false, (anodeFailure node "invalid time content").2, when, offset)
    else some (true, node, when, offset)

def anodeValidateTime (now : Nat) (node : GNode) (value : GBytes) : Option (Bool × GNode) :=
  (anodeReadTime now node value {} 0).map fun (ok, node, _) => (ok, node)

-- A value that was set or decoded.
def anodeValidateValue (now : Nat) (node : GNode) (value : GBytes) : Option (Bool × GNode) :=
  match anodeDefType node with
  | .integer    => anodeValidateInteger node value
  | .enumerated => anodeValidateEnumerated node value
  | .boolean    => anodeValidateBoolean node value
  | .bitString  => anodeValidateBitString node value
  | .octetString | .generalString | .numericString | .ia5String | .teletexString | .printableString | .utf8String
  | .visibleString => anodeValidateString node value
  | .bmpString | .universalString => some (true, node)
  | .objectId => anodeValidateObjectId node value
  | .null     => anodeValidateNull node value
  | .time | .utcTime | .generalizedTime => anodeValidateTime now node value
  | _ => none

def EggAsn1xType.isString : EggAsn1xType → Bool
  | .generalString | .octetString | .numericString | .ia5String | .teletexString | .printableString | .utf8String
  | .visibleString | .bmpString | .universalString => true
  | _ => false

-- Nodes that have no children of their own.
def anodeValidateSimple (now : Nat) (node : GNode) : Option (Bool × GNode) :=
  match node.data.value with
  | some value => anodeValidateValue now node value
  | none       =>
    if node.data.parsed.isSome ∧ (anodeDefType node = .any ∨ (anodeDefType node).isString) then some (true, node)
    else if (anodeDefFlags node).contains .option ∨ (anodeDefFlags node).contains .default then some (true, node)
    else some (anodeFailure node "missing value")

mutual

def anodeValidateAnything (now : Nat) (strict : Bool) : GNode → Option (Bool × GNode)
  | .mk data children =>
    match data.type with
    | .choice =>
      if ¬children.any (·.data.chosen) then some (anodeFailure (.mk data children) "one choice must be set")
      else do
        let (ok, children') ← validateChosen now strict children
        if ¬ok then some (false, .mk data children')
        else if 1 < children.countP (·.data.chosen) then
          some (anodeFailure (.mk data children') "only one choice may be set")
        else some (true, .mk data children')
    | .sequence | .set =>
      if data.flags.contains .option ∧ ¬eggAsn1xHave (.mk data children) then some (true, .mk data children)
      else do
        let (ok, children) ← validateChildren now strict false children
        some (ok, .mk data children)
    | .sequenceOf | .setOf => do
      let count := children.countP eggAsn1xHave
      let (ok, children) ← validateChildren now strict true children
      if ¬ok then some (false, .mk data children)
      else if count = 0 ∧ data.flags.contains .option then some (true, .mk data children)
      else anodeValidateSize (.mk data children) count
    | _ => anodeValidateSimple now (.mk data children)

-- All of the children, or those with data.
def validateChildren (now : Nat) (strict have' : Bool) : List GNode → Option (Bool × List GNode)
  | []            => some (true, [])
  | node :: nodes =>
    if have' ∧ ¬eggAsn1xHave node then do
      let (ok, nodes) ← validateChildren now strict have' nodes
      some (ok, node :: nodes)
    else do
      let (ok, node) ← anodeValidateAnything now strict node
      if ¬ok then some (false, node :: nodes)
      else
        let (ok, nodes) ← validateChildren now strict have' nodes
        some (ok, node :: nodes)

-- The first of the children that is chosen.
def validateChosen (now : Nat) (strict : Bool) : List GNode → Option (Bool × List GNode)
  | []            => some (true, [])
  | node :: nodes =>
    if node.data.chosen then do
      let (ok, node) ← anodeValidateAnything now strict node
      some (ok, node :: nodes)
    else do
      let (ok, nodes) ← validateChosen now strict nodes
      some (ok, node :: nodes)

end

def eggAsn1xValidate (now : Nat) (asn : GNode) (strict : Bool) : Option (Bool × GNode) :=
  anodeValidateAnything now strict asn

end Asn1x
