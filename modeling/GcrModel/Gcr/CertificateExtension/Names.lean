import GcrModel.Egg.Asn1x.Build
import GcrModel.Egg.Dn.Theorems.Pairs

-- gcr-certificate-extensions-common.c: the names in extensions. `none` is what the C language leaves undefined.
namespace CertificateExtension

open GLib Asn1x Dn

inductive GeneralNameType
  | other
  | rfc822
  | dns
  | x400
  | dn
  | edi
  | uri
  | ip
  | registeredId
  deriving DecidableEq, Repr

-- What a name is shown as.
structure Shown where
  description : String
  display     : Option Bytes
  deriving DecidableEq, Repr

structure GeneralName where
  type  : GeneralNameType
  shown : Option Shown
  raw   : Option GBytes := none
  deriving DecidableEq, Repr

-- `GError **error`: `NULL`, or a location that may have the message of an error.
abbrev ErrorLocation := Option (Option Bytes)

namespace ErrorLocation

def new (given : Bool) : ErrorLocation :=
  if given then some none else none

-- The first error is kept.
def set (error : ErrorLocation) (message : Bytes) : ErrorLocation :=
  error.map fun e => some (e.getD message)

-- `error && *error`
def isSet (error : ErrorLocation) : Bool :=
  error.join.isSome

end ErrorLocation

-- A string that is no text is not returned, and no string where an assertion fails.
def eggAsn1xGetStringAsUtf8 (node : GNode) : Option Bytes :=
  (eggAsn1xGetStringAsBytes node).join.filter fun string => 0 ∉ string ∧ utf8Validate string

def eggAsn1xGetAnyAsString (now : Nat) (node : GNode) (type : EggAsn1xType) : Option (Option GNode) := do
  let (ok, asn) ← eggAsn1xGetAnyInto now node (.mk { adef := ⟨none, type, [.universal, .implicit], none⟩ } [])
  some (if ok then some asn else none)

abbrev ParseFunc := GNode → ErrorLocation → Option (Option GeneralName × ErrorLocation)

def parseAs (type : GeneralNameType) (description : String) (display : GNode → Option (Option Bytes)) : ParseFunc :=
  fun node error => some (some ⟨type, (display node).map (⟨description, ·⟩), none⟩, error)

def altNameXmppAddr : Bytes :=
  ascii "1.3.6.1.5.5.7.8.5".toList

def altNameDnsSrv : Bytes :=
  ascii "1.3.6.1.5.5.7.8.7".toList

def otherShown (now : Nat) (typeId : Option GNode) (any : GNode) : Option Shown := do
  let oid ←
    match typeId with
    | none        => some none
    | some typeId => eggAsn1xGetOidAsString typeId
  if oid = some altNameXmppAddr then
    some ⟨"XMPP Addr", (← eggAsn1xGetAnyAsString now any .utf8String).bind eggAsn1xGetStringAsUtf8⟩
  else if oid = some altNameDnsSrv then
    some ⟨"DNS SRV", (← eggAsn1xGetAnyAsString now any .ia5String).bind eggAsn1xGetStringAsUtf8⟩
  else some ⟨"Other Name", none⟩

def generalNameParseOther (now : Nat) : ParseFunc := fun node error => do
  let typeId ← nodeAt node [.name (identifier "type-id")]
  match ← nodeAt node [.name (identifier "value")] with
  | none     => some (none, error.set (ascii "Missing \"value\" in Other Name".toList))
  | some any => some (some ⟨.other, otherShown now typeId any, none⟩, error)

def generalNameParseRfc822 : ParseFunc :=
  parseAs .rfc822 "Email" fun node => some (eggAsn1xGetStringAsUtf8 node)

def generalNameParseDns : ParseFunc :=
  parseAs .dns "DNS" fun node => some (eggAsn1xGetStringAsUtf8 node)

def generalNameParseX400 : ParseFunc :=
  parseAs .x400 "X400 Address" fun _ => some none

def generalNameParseDn (r : ValueReader) : ParseFunc :=
  parseAs .dns "Directory Name" (eggDnRead r)

def generalNameParseEdi : ParseFunc :=
  parseAs .edi "EDI Party Name" fun _ => some none

def generalNameParseUri : ParseFunc :=
  parseAs .uri "URI" fun node => some (eggAsn1xGetStringAsUtf8 node)

def generalNameParseIp : ParseFunc :=
  parseAs .ip "IP Address" fun node => some (eggAsn1xGetStringAsUtf8 node)

def generalNameParseRegistered : ParseFunc :=
  parseAs .registeredId "Registered ID" eggAsn1xGetOidAsString

def nameParseFuncs (r : ValueReader) (now : Nat) : List (CString × ParseFunc) := [
  (identifier "otherName", generalNameParseOther now),
  (identifier "rfc822Name", generalNameParseRfc822),
  (identifier "dNSName", generalNameParseDns),
  (identifier "x400Address", generalNameParseX400),
  (identifier "directoryName", generalNameParseDn r),
  (identifier "ediPartyName", generalNameParseEdi),
  (identifier "uniformResourceIdentifier", generalNameParseUri),
  (identifier "iPAddress", generalNameParseIp),
  (identifier "registeredID", generalNameParseRegistered)]

def unknownType (nodeName : CString) : Bytes :=
  ascii "Unknown type of GeneralName '".toList ++ nodeName.bytes ++ ascii "'".toList

def generalNameParse (r : ValueReader) (now : Nat) : ParseFunc := fun node error =>
  match eggAsn1xGetChoice node with
  | none        => some (none, error)
  | some choice =>
    match anodeDefName choice with
    | none          => some (none, error)
    | some nodeName => do
      let parsed ←
        match (nameParseFuncs r now).find? (·.1 = nodeName) with
        | none                => some (none, error)
        | some (_, parseFunc) => parseFunc choice error
      match parsed with
      | (none, error)      => some (none, error.set (unknownType nodeName))
      | (some name, error) => some (some { name with raw := eggAsn1xGetElementRaw r choice }, error)

-- The loop from the name at `i` on: the names, or the `NULL` that is returned from it.
def namesLoop (r : ValueReader) (now : Nat) (node : GNode) :
    Nat → Nat → List GeneralName → ErrorLocation → Option (Option (List GeneralName) × ErrorLocation)
  | 0,        _, names, error => some (some names, error)
  | left + 1, i, names, error => do
    match ← nodeAt node [.index (toGint (i + 1))] with
    | none          => some (none, error)
    | some nameNode =>
      match ← generalNameParse r now nameNode error with
      | (none, error)      => some (some names, error)
      | (some name, error) => namesLoop r now node left (i + 1) (names ++ [name]) error

def generalNamesParse (r : ValueReader) (now : Nat) (node : GNode) (error : ErrorLocation) :
    Option (Option (List GeneralName) × ErrorLocation) := do
  let (names, error) ← namesLoop r now node (eggAsn1xCount node) 0 [] error
  some (if error.isSet then none else names, error)

end CertificateExtension

-- gcr-certificate-extension-crl-distribution-points.c: where a list of revoked certificates is.
namespace CertificateExtension

open GLib Asn1x Dn

-- The table has one value for each type.
structure DistributionPoint where
  fullName     : Option (List GeneralName) := none
  relativeName : List (Bytes × Bytes) := []

def onParsedDnPart (r : ValueReader) (distr : DistributionPoint) (call : Call) : DistributionPoint :=
  let label := dnPrintOidValue r call.oid (eggOidGetFlags call.oid) call.value
  { distr with relativeName := distr.relativeName.filter (·.1 ≠ call.oid) ++ [(call.oid, label)] }

def notChoice : Bytes :=
  ascii "Invalid distributionPoint field, not a choice".toList

def invalidRelative : Bytes :=
  ascii "Invalid relative names for CRL distribution point".toList

def invalidChoice (nodeName : CString) : Bytes :=
  ascii "Invalid distributionPoint choice '".toList ++ nodeName.bytes ++ ascii "'".toList

def distributionPointParse (r : ValueReader) (now : Nat) (node : GNode) (error : ErrorLocation) :
    Option (Option DistributionPoint × ErrorLocation) :=
  match eggAsn1xGetChoice node with
  | none        => some (none, error.set notChoice)
  | some choice =>
    match anodeDefName choice with
    | none          => some (none, error)
    | some nodeName => do
      let (distr, error) ←
        if nodeName = identifier "fullName" then do
          let (names, error) ← generalNamesParse r now choice error
          some ({ fullName := names }, error)
        else if nodeName = identifier "nameRelativeToCRLIssuer" then do
          let (ok, calls) ← eggDnParse choice
          some (calls.foldl (onParsedDnPart r) {}, if ok then error else error.set invalidRelative)
        else some (({} : DistributionPoint), error.set (invalidChoice nodeName))
      some (if error.isSet then none else some distr, error)

-- The `oid` that is compared is read from itself and not from the key, before it has any value. So only a table without
-- entries can be looked up in.
def getRelativeNamePart (distr : DistributionPoint) (part : CString) : Option (Option Bytes) :=
  if part.bytes = [] then some none
  else
    match distr.relativeName with
    | []     => some none
    | _ :: _ => none

end CertificateExtension

-- What the names are that extensions have in them.
namespace CertificateExtension

open GLib Asn1x Dn

-- The choices that the definition of `GeneralName` has.
def generalNameTypes : List (CString × GeneralNameType) := [
  (identifier "otherName", .other),
  (identifier "rfc822Name", .rfc822),
  (identifier "dNSName", .dns),
  (identifier "x400Address", .x400),
  (identifier "directoryName", .dn),
  (identifier "ediPartyName", .edi),
  (identifier "uniformResourceIdentifier", .uri),
  (identifier "iPAddress", .ip),
  (identifier "registeredID", .registeredId)]

def typeOfChoice (choice : GNode) : Option GeneralNameType := do
  let nodeName ← anodeDefName choice
  let entry ← generalNameTypes.find? (·.1 = nodeName)
  some entry.2

def typeOf (name : GNode) : Option GeneralNameType :=
  (eggAsn1xGetChoice name).bind typeOfChoice

def hasValue (choice : GNode) : Bool :=
  choice.children.any fun child => anodeDefName child = some (identifier "value")

-- A name can be parsed if it is one of the choices, and has a value if it is of another type.
def parsable (name : GNode) : Bool :=
  (eggAsn1xGetChoice name).any fun choice =>
    match typeOfChoice choice with
    | none        => false
    | some .other => hasValue choice
    | some _      => true

-- The children of another name have the names that the definition gives them.
structure WellNamed (choice : GNode) : Prop where
  isList : (anodeDefType choice).isList = false
  named  : ∀ child ∈ choice.children, (anodeDefName child).isSome

-- The lengths of elements are `gint`s, and no name is without a length.
structure IsGeneralNames (node : GNode) : Prop where
  type  : anodeDefType node = .sequenceOf
  few   : node.children.length < 2 ^ 31
  named : ∀ name ∈ node.children, ∀ choice, eggAsn1xGetChoice name = some choice →
    typeOfChoice choice = some .other → WellNamed choice

structure IsRelativeName (node : GNode) : Prop where
  type  : anodeDefType node = .setOf
  pairs : ∀ pair ∈ node.children, anodeDefType pair = .sequence

inductive IsPointChoice (choice : GNode) : Prop
  | fullName (name : anodeDefName choice = some (identifier "fullName")) (names : IsGeneralNames choice)
  | relativeName (name : anodeDefName choice = some (identifier "nameRelativeToCRLIssuer"))
      (relative : IsRelativeName choice)

structure GeneralNames where
  node    : GNode
  isNames : IsGeneralNames node

structure DistributionPointName where
  node     : GNode
  choice   : GNode
  chosen   : eggAsn1xGetChoice node = some choice
  isChoice : IsPointChoice choice

def encoded (node : GNode) : List GNode :=
  node.children.filter eggAsn1xHave

-- A name is reported as what it is.
structure Reports (r : ValueReader) (name : GNode) (item : GeneralName) : Prop where
  type : typeOf name = some item.type
  raw  : ∀ choice, eggAsn1xGetChoice name = some choice → item.raw = eggAsn1xGetElementRaw r choice

structure NamesFaithful (r : ValueReader) (node : GNode) (names : Option (List GeneralName)) : Prop where
  items : ∀ items, names = some items → List.Forall₂ (Reports r) (encoded node) items
  fails : (∃ name ∈ encoded node, parsable name = false) → names = none

def NamesReported (r : ValueReader) (now : Nat) (node : GNode) (given : Bool) : Prop :=
  ∃ names error, generalNamesParse r now node (.new given) = some (names, error) ∧ NamesFaithful r node names

-- What is behind the first name that cannot be parsed does not matter.
def NamesHold (node : GNode) (given : Bool) : Prop :=
  match (encoded node).find? (parsable · = false) with
  | none      => ∀ name ∈ encoded node, typeOf name ≠ some .dn
  | some name => given ∧ ((eggAsn1xGetChoice name).bind anodeDefName).isSome

-- A part of a relative name, by its OID or by the short name for that.
structure IsPart (r : ValueReader) (relative : GNode) (part : CString) (value : Bytes) (pair type node : GNode) (oid : Bytes) :
    Prop where
  encoded : pair ∈ encoded relative
  typed   : nodeAt pair [.name (identifier "type")] = some (some type)
  read    : eggAsn1xGetOidAsString type = some (some oid)
  named   : asciiStrcasecmp (some oid) part.bytes = 0 ∨ ∃ name, eggOidGetName oid = some name ∧
    asciiStrcasecmp (some name) part.bytes = 0
  valued  : nodeAt pair [.name (identifier "value")] = some (some node)
  printed : value = dnPrintOidValue r oid (eggOidGetFlags oid) node

def HasPart (r : ValueReader) (relative : GNode) (part : CString) (value : Bytes) : Prop :=
  ∃ pair type node oid, IsPart r relative part value pair type node oid

structure PartFaithful (r : ValueReader) (relative : GNode) (part : CString) (found : Option Bytes) : Prop where
  present : ∀ value, found = some value → HasPart r relative part value
  absent  : found = none → ∀ value, ¬HasPart r relative part value

inductive PointFaithful (r : ValueReader) (choice : GNode) (part : CString) : Option DistributionPoint → Prop
  | fullName {distr : Option DistributionPoint}
      (hname : anodeDefName choice = some (identifier "fullName"))
      (hlist : ∀ d, distr = some d → d.fullName.isSome)
      (hnames : NamesFaithful r choice (distr.bind (·.fullName))) : PointFaithful r choice part distr
  | relativeName {distr : DistributionPoint} {found : Option Bytes}
      (hname : anodeDefName choice = some (identifier "nameRelativeToCRLIssuer"))
      (hfound : getRelativeNamePart distr part = some found)
      (hpart : PartFaithful r choice part found) : PointFaithful r choice part (some distr)

def PointReported (r : ValueReader) (now : Nat) (point : DistributionPointName) (given : Bool) (part : CString) : Prop :=
  ∃ distr error, distributionPointParse r now point.node (.new given) = some (distr, error) ∧
    PointFaithful r point.choice part distr

-- There is never a part to be found.
def PointHolds (r : ValueReader) (point : DistributionPointName) (given : Bool) (part : CString) : Prop :=
  if anodeDefName point.choice = some (identifier "fullName") then NamesHold point.choice given
  else ∀ value, ¬HasPart r point.choice part value

end CertificateExtension

namespace CertificateExtension

open GLib Asn1x Dn

variable {r : ValueReader} {now : Nat} {node name choice pair : GNode} {names rest : List GNode} {items : List GeneralName}
variable {error : ErrorLocation} {given : Bool} {type : GeneralNameType} {i : Nat}

-- What is looked up among children that have names.
theorem anodeChildWithName_eq {nodes : List GNode} (h : ∀ child ∈ nodes, (anodeDefName child).isSome) (key : CString) :
    anodeChildWithName key nodes = some (nodes.findIdx? fun child => anodeDefName child = some key) := by
  induction nodes with
  | nil => rfl
  | cons child nodes ih =>
    obtain ⟨hchild, hnodes⟩ := List.forall_mem_cons.mp h
    obtain ⟨childName, hname⟩ := Option.isSome_iff_exists.mp hchild
    rw [anodeChildWithName, hname, List.findIdx?_cons]
    by_cases heq : key = childName
    case pos => simp [heq, hname]
    case neg => simp [heq, Ne.symm heq, hname, ih hnodes]

theorem WellNamed.nodeAt (h : WellNamed choice) (key : CString) :
    nodeAt choice [.name key] = some (choice.children.find? fun child => anodeDefName child = some key) := by
  have hchild := anodeChildWithName_eq h.named key
  cases hk : choice.children.findIdx? fun child => anodeDefName child = some key with
  | none =>
    rw [hk] at hchild
    rw [List.findIdx?_eq_none_iff] at hk
    have hfind : choice.children.find? (fun child => anodeDefName child = some key) = none := by
      simpa using hk
    rw [hfind, Dn.nodeAt]
    unfold eggAsn1xNode
    simp [h.isList, hchild]
  | some k =>
    rw [hk] at hchild
    obtain ⟨hlt, hkey, hbefore⟩ := List.findIdx?_eq_some_iff_getElem.mp hk
    rw [nodeAt_name h.isList hchild (List.getElem?_eq_getElem hlt), nodeAt_nil]
    have hfind : choice.children.find? (fun child => anodeDefName child = some key) = some choice.children[k] := by
      rw [List.find?_eq_some_iff_getElem]
      exact ⟨hkey, k, hlt, rfl, fun j hj => by simpa using hbefore j hj⟩
    rw [hfind]

-- The type that is reported for a name of a type.
def reportedType : GeneralNameType → GeneralNameType
  | .dn => .dns
  | type => type

-- What a function of the table does with a choice of its type.
structure Parses (parseFunc : ParseFunc) (type : GeneralNameType) : Prop where
  parsed  : ∀ choice error, (type = .other → WellNamed choice ∧ hasValue choice) →
    ∃ item, parseFunc choice error = some (some item, error) ∧ item.type = reportedType type
  missing : ∀ choice error, type = .other → WellNamed choice → hasValue choice = false →
    ∃ message, parseFunc choice error = some (none, ErrorLocation.set error message)

theorem parses_parseAs {description : String} {display : GNode → Option (Option Bytes)} {reported : GeneralNameType}
    (hreported : reported = reportedType type) (hne : type ≠ .other) : Parses (parseAs reported description display) type where
  parsed _ _ _ := ⟨_, rfl, hreported⟩
  missing _ _ htype := absurd htype hne

theorem parses_other : Parses (generalNameParseOther now) .other where
  parsed choice error h := by
    obtain ⟨hnamed, hvalue⟩ := h rfl
    obtain ⟨value, hmem, hname⟩ := List.any_eq_true.mp hvalue
    have hfound : (choice.children.find? fun child => anodeDefName child = some (identifier "value")).isSome :=
      List.find?_isSome.mpr ⟨value, hmem, hname⟩
    obtain ⟨any, hany⟩ := Option.isSome_iff_exists.mp hfound
    have hparse : ∃ shown, generalNameParseOther now choice error = some (some ⟨.other, shown, none⟩, error) :=
      ⟨_, by rw [generalNameParseOther, hnamed.nodeAt, hnamed.nodeAt, hany]; rfl⟩
    obtain ⟨shown, hshown⟩ := hparse
    exact ⟨_, hshown, rfl⟩
  missing choice error _ hnamed hvalue := by
    have hnone : choice.children.find? (fun child => anodeDefName child = some (identifier "value")) = none := by
      simpa [hasValue] using hvalue
    exact ⟨_, by rw [generalNameParseOther, hnamed.nodeAt, hnamed.nodeAt, hnone]; rfl⟩

-- The table of the code has the names of the definition, in their order.
theorem nameParseFuncs_parses (r : ValueReader) (now : Nat) :
    List.Forall₂ (fun f t => f.1 = t.1 ∧ Parses f.2 t.2) (nameParseFuncs r now) generalNameTypes := by
  refine .cons ⟨rfl, parses_other⟩ (.cons ⟨rfl, ?_⟩ (.cons ⟨rfl, ?_⟩ (.cons ⟨rfl, ?_⟩ (.cons ⟨rfl, ?_⟩
    (.cons ⟨rfl, ?_⟩ (.cons ⟨rfl, ?_⟩ (.cons ⟨rfl, ?_⟩ (.cons ⟨rfl, ?_⟩ .nil))))))))
  all_goals exact parses_parseAs rfl (by decide)

-- Two tables with the same keys have entries of the same place under a key.
theorem find?_of_forall₂ {κ α β : Type} [DecidableEq κ] {q : α → β → Prop} {as : List (κ × α)} {bs : List (κ × β)}
    (h : List.Forall₂ (fun a b => a.1 = b.1 ∧ q a.2 b.2) as bs) (key : κ) :
    as.find? (·.1 = key) = none ∧ bs.find? (·.1 = key) = none ∨
      ∃ a b, as.find? (·.1 = key) = some a ∧ bs.find? (·.1 = key) = some b ∧ q a.2 b.2 := by
  induction h with
  | nil => exact .inl ⟨rfl, rfl⟩
  | @cons a b as bs hab _ ih =>
    obtain ⟨hkey, hq⟩ := hab
    by_cases heq : a.1 = key
    case pos => exact .inr ⟨a, b, by simp [heq], by simp [← hkey, heq], hq⟩
    case neg =>
      rw [List.find?_cons_of_neg (by simpa using heq), List.find?_cons_of_neg (by simpa [← hkey] using heq)]
      exact ih

-- Where names do not have to be well named, there is none of another type.
def Readable (name : GNode) : Prop :=
  ∀ choice, eggAsn1xGetChoice name = some choice → typeOfChoice choice = some .other → WellNamed choice

theorem typeOf_of_parsable (h : parsable name) :
    ∃ choice nodeName entry, eggAsn1xGetChoice name = some choice ∧ anodeDefName choice = some nodeName ∧
      generalNameTypes.find? (·.1 = nodeName) = some entry ∧ typeOfChoice choice = some entry.2 ∧
      (entry.2 = .other → hasValue choice) := by
  rw [parsable, Option.any_eq_true] at h
  obtain ⟨choice, hchoice, h⟩ := h
  cases htype : typeOfChoice choice with
  | none => simp [htype] at h
  | some type =>
    obtain ⟨nodeName, hname, hentry⟩ := Option.bind_eq_some_iff.mp htype
    obtain ⟨entry, hfind, hsome⟩ := Option.bind_eq_some_iff.mp hentry
    cases hsome
    refine ⟨choice, nodeName, entry, hchoice, hname, hfind, htype, fun hother => ?_⟩
    simpa [htype, hother] using h

structure Parsed (r : ValueReader) (name : GNode) (item : GeneralName) : Prop where
  type : (typeOf name).map reportedType = some item.type
  raw  : ∀ choice, eggAsn1xGetChoice name = some choice → item.raw = eggAsn1xGetElementRaw r choice

-- A name that can be parsed gives an item, and leaves the error as it is.
theorem generalNameParse_parsed (r : ValueReader) (now : Nat) (hreadable : Readable name) (h : parsable name)
    (error : ErrorLocation) :
    ∃ item, generalNameParse r now name error = some (some item, error) ∧ Parsed r name item := by
  obtain ⟨choice, nodeName, entry, hchoice, hname, hfind, htype, hvalue⟩ := typeOf_of_parsable h
  obtain ⟨-, hnone⟩ | ⟨f, entry', hf, hentry', hparses⟩ := find?_of_forall₂ (nameParseFuncs_parses r now) nodeName
  case inl => simp [hfind] at hnone
  case inr =>
    cases hfind.symm.trans hentry'
    obtain ⟨item, hitem, hreported⟩ := hparses.parsed choice error fun hother =>
      ⟨hreadable choice hchoice (by rw [htype, hother]), hvalue hother⟩
    refine ⟨{ item with raw := eggAsn1xGetElementRaw r choice }, ?_, ⟨?_, fun choice' hchoice' => ?_⟩⟩
    · simp [generalNameParse, hchoice, hname, hf, hitem]
    · rw [typeOf, hchoice, Option.bind_some, htype, Option.map_some, hreported]
    · cases hchoice.symm.trans hchoice'
      rfl

-- The result for a name that cannot be parsed. There is an error where the name is one of a choice at all.
theorem generalNameParse_missing (r : ValueReader) (now : Nat) (hreadable : Readable name) (h : parsable name = false)
    (hclear : error.isSet = false) :
    ∃ error', generalNameParse r now name error = some (none, error') ∧
      error'.isSet = (error.isSome && ((eggAsn1xGetChoice name).bind anodeDefName).isSome) := by
  cases hchoice : eggAsn1xGetChoice name with
  | none => exact ⟨error, by simp [generalNameParse, hchoice], by simp [hclear]⟩
  | some choice =>
    cases hname : anodeDefName choice with
    | none => exact ⟨error, by simp [generalNameParse, hchoice, hname], by simp [hclear, hname]⟩
    | some nodeName =>
      have hset : ∀ (message : Bytes), (error.set message).isSet = error.isSome := by
        intro message
        cases error <;> rfl
      obtain ⟨hf, hentry⟩ | ⟨f, entry, hf, hentry, hparses⟩ :=
        find?_of_forall₂ (nameParseFuncs_parses r now) nodeName
      case inl =>
        refine ⟨error.set (unknownType nodeName), by simp [generalNameParse, hchoice, hname, hf], ?_⟩
        simp [hset, hname]
      case inr =>
        have htype : typeOfChoice choice = some entry.2 := by
          simp [typeOfChoice, hname, hentry]
        have hother : entry.2 = .other ∧ hasValue choice = false := by
          rw [parsable, hchoice, Option.any_some, htype] at h
          split at h
          case h_1 hnone => cases hnone
          case h_2 hother => exact ⟨Option.some.inj hother, h⟩
          case h_3 => cases h
        obtain ⟨message, hmessage⟩ := hparses.missing choice error hother.1
          (hreadable choice hchoice (by rw [htype, hother.1])) hother.2
        refine ⟨(error.set message).set (unknownType nodeName), by simp [generalNameParse, hchoice, hname, hf, hmessage], ?_⟩
        cases error <;> simp [ErrorLocation.set, ErrorLocation.isSet, hname]

-- The node for each turn of the loop.
theorem nodeAt_encoded (h : IsGeneralNames node) (hi : i < node.children.length) :
    nodeAt node [.index (toGint (i + 1))] = some (encoded node)[i]? := by
  have hlist : (anodeDefType node).isList := by
    rw [h.type]
    rfl
  have hfew := h.few
  have hindex : toGint (i + 1) = (i + 1 : Nat) := by
    rw [toGint, if_pos (by omega)]
  rw [hindex, nodeAt_index hlist, encoded]
  cases (node.children.filter eggAsn1xHave)[i]? <;> rfl

theorem length_encoded_le (node : GNode) : (encoded node).length ≤ node.children.length :=
  List.length_filter_le _ _

theorem IsGeneralNames.readable (h : IsGeneralNames node) (hmem : name ∈ encoded node) : Readable name :=
  h.named name (List.mem_filter.mp hmem).1

theorem IsGeneralNames.count (h : IsGeneralNames node) : eggAsn1xCount node = (encoded node).length := by
  have hfew := h.few
  have hle := length_encoded_le node
  rw [eggAsn1xCount, h.type, if_pos (show EggAsn1xType.sequenceOf.isList from rfl), List.countP_eq_length_filter]
  exact Nat.mod_eq_of_lt (by rw [encoded] at hle; omega)

-- One turn of the loop, at a name that is encoded.
theorem namesLoop_cons (h : IsGeneralNames node) (hrest : (encoded node).drop i = name :: rest) (left : Nat) :
    namesLoop r now node (left + 1) i items error =
      (generalNameParse r now name error).bind fun
        | (none, error)      => some (some items, error)
        | (some item, error) => namesLoop r now node left (i + 1) (items ++ [item]) error := by
  have hget : (encoded node)[i]? = some name := by
    rw [← List.head?_drop, hrest]
    rfl
  have hlt : i < node.children.length := Nat.lt_of_lt_of_le (List.getElem?_eq_some_iff.mp hget).1 (length_encoded_le node)
  rw [namesLoop, nodeAt_encoded h hlt, hget]
  rfl

-- The loop over names that can all be parsed.
theorem namesLoop_parsed (r : ValueReader) (now : Nat) (h : IsGeneralNames node)
    (hrest : (encoded node).drop i = names ++ rest) (hall : ∀ name ∈ names, parsable name) (left : Nat)
    (items : List GeneralName) (error : ErrorLocation) :
    ∃ more, namesLoop r now node (left + names.length) i items error =
      namesLoop r now node left (i + names.length) (items ++ more) error ∧ List.Forall₂ (Parsed r) names more := by
  induction names generalizing i items with
  | nil => exact ⟨[], by simp, .nil⟩
  | cons name names ih =>
    obtain ⟨hname, hnames⟩ := List.forall_mem_cons.mp hall
    have hmem : name ∈ encoded node := List.mem_of_mem_drop (i := i) (by simp [hrest])
    have hnext : (encoded node).drop (i + 1) = names ++ rest := by
      rw [← List.tail_drop, hrest]
      rfl
    obtain ⟨item, hitem, hparsed⟩ := generalNameParse_parsed r now (h.readable hmem) hname error
    obtain ⟨more, hmore, hall₂⟩ := ih hnext hnames (items ++ [item])
    refine ⟨item :: more, ?_, .cons hparsed hall₂⟩
    rw [List.length_cons, ← Nat.add_assoc, namesLoop_cons h hrest, hitem, Option.bind_some]
    dsimp only
    rw [hmore]
    simp [Nat.add_assoc, Nat.add_comm 1]

-- A list of names that can be parsed is parsed whole.
theorem generalNamesParse_parsed (r : ValueReader) (now : Nat) (given : Bool) (h : IsGeneralNames node) (hall : ∀ name ∈ encoded node, parsable name) :
    ∃ items, generalNamesParse r now node (.new given) = some (some items, .new given) ∧
      List.Forall₂ (Parsed r) (encoded node) items := by
  have hrest : (encoded node).drop 0 = encoded node ++ [] := by simp
  obtain ⟨items, hitems, hparsed⟩ := namesLoop_parsed r now h hrest hall 0 [] (.new given)
  rw [Nat.zero_add] at hitems
  refine ⟨items, ?_, hparsed⟩
  rw [generalNamesParse, h.count, hitems]
  cases given <;> rfl

-- The loop is left at the first name that cannot be parsed.
theorem generalNamesParse_missing (r : ValueReader) (now : Nat) (given : Bool) (h : IsGeneralNames node)
    (hfind : (encoded node).find? (parsable · = false) = some name) :
    ∃ items error, generalNamesParse r now node (.new given) = some (if error.isSet then none else some items, error) ∧
      error.isSet = (given && ((eggAsn1xGetChoice name).bind anodeDefName).isSome) := by
  obtain ⟨hname, before, after, hencoded, hbefore⟩ := List.find?_eq_some_iff_append.mp hfind
  have hmem : name ∈ encoded node := List.mem_of_find?_eq_some hfind
  have hall : ∀ name ∈ before, parsable name := fun name hname => by simpa using hbefore name hname
  have hclear : (ErrorLocation.new given).isSet = false := by cases given <;> rfl
  have hgiven : (ErrorLocation.new given).isSome = given := by cases given <;> rfl
  have hrest : (encoded node).drop 0 = before ++ name :: after := hencoded
  obtain ⟨items, hitems, -⟩ := namesLoop_parsed r now h hrest hall (after.length + 1) [] (.new given)
  obtain ⟨error, herror, hset⟩ := generalNameParse_missing r now (h.readable hmem) (by simpa using hname) hclear
  have hdrop : (encoded node).drop (0 + before.length) = name :: after := by
    rw [hencoded, Nat.zero_add, List.drop_left]
  have hlength : (encoded node).length = after.length + 1 + before.length := by
    rw [hencoded, List.length_append, List.length_cons, Nat.add_comm]
  rw [hgiven] at hset
  refine ⟨items, error, ?_, hset⟩
  rw [generalNamesParse, h.count, hlength, hitems, namesLoop_cons h hdrop, herror]
  rfl

theorem Parsed.reports_iff {item : GeneralName} (h : Parsed r name item) : Reports r name item ↔ typeOf name ≠ some .dn := by
  obtain ⟨type, htype, hreported⟩ := Option.map_eq_some_iff.mp h.type
  rw [htype]
  constructor
  case mp =>
    rintro ⟨hitem, -⟩ hdn
    cases hdn
    rw [htype, ← hreported] at hitem
    cases hitem
  case mpr =>
    intro hne
    have hsame : reportedType type = type := by
      cases type <;> first | rfl | exact absurd rfl hne
    exact ⟨by rw [htype, ← hreported, hsame], h.raw⟩

theorem forall₂_reports_iff (h : List.Forall₂ (Parsed r) names items) :
    List.Forall₂ (Reports r) names items ↔ ∀ name ∈ names, typeOf name ≠ some .dn := by
  induction h with
  | nil => simp
  | cons hparsed _ ih => rw [List.forall₂_cons, hparsed.reports_iff, ih, List.forall_mem_cons]

-- What becomes of the names, and when that is faithful.
theorem generalNamesParse_spec (r : ValueReader) (now : Nat) (h : IsGeneralNames node) (given : Bool) :
    ∃ names error, generalNamesParse r now node (.new given) = some (names, error) ∧ names.isNone = error.isSet ∧
      (NamesFaithful r node names ↔ NamesHold node given) := by
  cases hfind : (encoded node).find? (parsable · = false) with
  | none =>
    have hall : ∀ name ∈ encoded node, parsable name := by simpa using hfind
    obtain ⟨items, hitems, hparsed⟩ := generalNamesParse_parsed r now given h hall
    refine ⟨_, _, hitems, by cases given <;> rfl, ?_⟩
    simp only [NamesHold, hfind, ← forall₂_reports_iff hparsed]
    constructor
    case mp  => exact fun hfaithful => hfaithful.items items rfl
    case mpr =>
      refine fun hreports => ⟨fun items' hitems' => Option.some.inj hitems' ▸ hreports, ?_⟩
      rintro ⟨name, hmem, hname⟩
      exact absurd (hall name hmem) (by simp [hname])
  | some name =>
    obtain ⟨items, error, hitems, hset⟩ := generalNamesParse_missing r now given h hfind
    have hsome : parsable name = false := by simpa using List.find?_some hfind
    refine ⟨_, _, hitems, by cases error.isSet <;> rfl, ?_⟩
    simp only [NamesHold, hfind, ← Bool.and_eq_true, ← hset]
    cases error.isSet with
    | true => simpa using ⟨fun items hitems => (by cases hitems), fun _ => rfl⟩
    | false =>
      simp only [Bool.false_eq_true, if_false, iff_false]
      intro hfaithful
      cases hfaithful.fails ⟨name, List.mem_of_find?_eq_some hfind, hsome⟩

theorem namesReported_iff (h : IsGeneralNames node) : NamesReported r now node given ↔ NamesHold node given := by
  obtain ⟨names, error, hparse, -, hiff⟩ := generalNamesParse_spec r now h given
  rw [← hiff]
  constructor
  case mp =>
    rintro ⟨names', error', hparse', hfaithful⟩
    cases hparse.symm.trans hparse'
    exact hfaithful
  case mpr => exact fun hfaithful => ⟨names, error, hparse, hfaithful⟩

-- The pairs of a relative name are not in a list, so that none of them is found.
theorem IsRelativeName.nodeAt (h : IsRelativeName node) (steps : List Step) :
    nodeAt node (.index 1 :: .index 1 :: steps) = some none := by
  have hlist : (anodeDefType node).isList := by
    rw [h.type]
    rfl
  rw [show (1 : Int) = (0 + 1 : Nat) from rfl, nodeAt_index hlist 0]
  cases hget : (node.children.filter eggAsn1xHave)[0]? with
  | none      => rfl
  | some pair =>
    have hmem : pair ∈ node.children := (List.mem_filter.mp (List.mem_of_getElem? hget)).1
    have hpair : (anodeDefType pair).isList = false := by
      rw [h.pairs pair hmem]
      rfl
    change Dn.nodeAt pair (.index 1 :: steps) = some none
    rw [Dn.nodeAt]
    unfold eggAsn1xNode
    simp [hpair]

theorem IsRelativeName.eggDnParse (h : IsRelativeName node) : eggDnParse node = some (true, []) := by
  have hturn : parseTurn node 1 1 [] = some .last := by
    rw [parseTurn, show toGint 1 = 1 from rfl, h.nodeAt]
    rfl
  have hpair : pairLoop (parseTurn node 1) maxGuint 1 [] = some (.ok ([], true)) := by
    rw [maxGuint, pairLoop, hturn]
    rfl
  rw [Dn.eggDnParse, maxGuint, rdnLoop]
  rw [maxGuint] at hpair
  rw [hpair]
  rfl

-- Names that are not of the choice have to be parsed.
theorem pointReported_full {point : DistributionPointName} {part : CString}
    (hname : anodeDefName point.choice = some (identifier "fullName")) (hnames : IsGeneralNames point.choice) :
    PointReported r now point given part ↔ NamesHold point.choice given := by
  obtain ⟨names, error, hparse, hnone, hiff⟩ := generalNamesParse_spec r now hnames given
  have hpoint : distributionPointParse r now point.node (.new given) =
      some (if error.isSet then none else some { fullName := names }, error) := by
    simp only [distributionPointParse, point.chosen, hname, if_pos, hparse]
    rfl
  have hfull : (if error.isSet then none else some ({ fullName := names } : DistributionPoint)).bind (·.fullName) = names := by
    rw [← hnone]
    cases names <;> rfl
  have hlist : ∀ d, (if error.isSet then none else some ({ fullName := names } : DistributionPoint)) = some d →
      d.fullName.isSome := by
    intro d hd
    rw [← hnone] at hd
    cases names with
    | none       => cases hd
    | some names =>
      cases hd
      rfl
  generalize (if error.isSet then none else some ({ fullName := names } : DistributionPoint)) = distr at hpoint hfull hlist
  rw [← hiff]
  constructor
  case mp =>
    rintro ⟨distr, error', hdistr, hfaithful⟩
    cases hpoint.symm.trans hdistr
    cases hfaithful with
    | fullName _ _ hfaithful => rwa [hfull] at hfaithful
    | relativeName hrelative => exact absurd (Option.some.inj (hname.symm.trans hrelative)) (by decide)
  case mpr =>
    exact fun hfaithful => ⟨_, _, hpoint, .fullName hname hlist (by rwa [hfull])⟩

-- No part is ever found.
theorem pointReported_relative {point : DistributionPointName} {part : CString}
    (hname : anodeDefName point.choice = some (identifier "nameRelativeToCRLIssuer"))
    (hrelative : IsRelativeName point.choice) :
    PointReported r now point given part ↔ ∀ value, ¬HasPart r point.choice part value := by
  have hpoint : distributionPointParse r now point.node (.new given) = some (some {}, .new given) := by
    have hne : identifier "nameRelativeToCRLIssuer" ≠ identifier "fullName" := by decide
    simp only [distributionPointParse, point.chosen, hname, if_neg hne, if_pos, hrelative.eggDnParse]
    cases given <;> rfl
  have hfound : getRelativeNamePart {} part = some none := by
    rw [getRelativeNamePart]
    split <;> rfl
  constructor
  case mp =>
    rintro ⟨distr, error', hdistr, hfaithful⟩
    cases hpoint.symm.trans hdistr
    cases hfaithful with
    | fullName hfull => exact absurd (Option.some.inj (hname.symm.trans hfull)) (by decide)
    | relativeName _ hfound' hpart =>
      cases hfound.symm.trans hfound'
      exact hpart.absent rfl
  case mpr =>
    refine fun habsent => ⟨_, _, hpoint, .relativeName hname hfound ⟨fun value hvalue => ?_, fun _ => habsent⟩⟩
    cases hvalue

theorem pointReported_iff {point : DistributionPointName} {part : CString} :
    PointReported r now point given part ↔ PointHolds r point given part := by
  rw [PointHolds]
  cases point.isChoice with
  | fullName hname hnames => rw [if_pos hname, pointReported_full hname hnames]
  | relativeName hname hrelative =>
    have hne : anodeDefName point.choice ≠ some (identifier "fullName") := by
      rw [hname]
      decide
    rw [if_neg hne, pointReported_relative hname hrelative]

-- The names of extensions are reported as what they are where there is no directory name among them, and where an error
-- is looked at if not all of them can be parsed; and there is never a part of a relative name.
theorem names_reported_iff (r : ValueReader) (now : Nat) :
    (∀ (names : GeneralNames) (given : Bool), NamesReported r now names.node given ↔ NamesHold names.node given) ∧
      ∀ (point : DistributionPointName) (given : Bool) (part : CString),
        PointReported r now point given part ↔ PointHolds r point given part :=
  ⟨fun names _ => namesReported_iff names.isNames, fun _ _ _ => pointReported_iff⟩

-- A list with an empty directory name in it.
def directoryNames : GeneralNames where
  node :=
    let tlv : Atlv := { cls := 0x20, tag := 0x10, off := 4, len := 0 }
    let directoryName : GNode := .mk
      { adef := ⟨some (identifier "directoryName"), .identifier, [.tag], some (identifier "RDNSequence")⟩
        join := some ⟨some (identifier "RDNSequence"), .sequenceOf, [], none⟩
        opts := [⟨none, .tag, [], some (identifier "4")⟩]
        parsed := some { cls := 0xA0, tag := 4, off := 2, len := 2, child := [tlv] }
        chosen := true } []
    let generalName : GNode := .mk { adef := ⟨some (identifier "GeneralName"), .choice, [], none⟩ } [directoryName]
    .mk { adef := ⟨some (identifier "GeneralNames"), .sequenceOf, [.size], none⟩ } [generalName]
  isNames := by
    refine ⟨rfl, by decide, fun name hname choice hchoice htype => ?_⟩
    cases List.mem_singleton.mp hname
    cases hchoice
    exact absurd htype (by decide)

theorem not_names_reported : ¬∀ (r : ValueReader) (now : Nat),
    (∀ (names : GeneralNames) (given : Bool), NamesReported r now names.node given) ∧
      ∀ (point : DistributionPointName) (given : Bool) (part : CString), PointReported r now point given part := by
  intro h
  have hnames := (h ⟨fun _ _ _ => none, fun _ => none⟩ 125).1 directoryNames true
  have hfind : (encoded directoryNames.node).find? (parsable · = false) = none := by rfl
  rw [namesReported_iff directoryNames.isNames, NamesHold, hfind] at hnames
  exact hnames _ (List.mem_singleton.mpr rfl) rfl

end CertificateExtension
