import GcrModel.GLib.Strings

-- gck-attributes.c: what a set of attributes and a builder hold.
namespace Gck

open GLib

-- An invalid attribute has no value, and that of an empty one has no bytes.
structure Attribute where
  type  : Nat
  value : Option Bytes
  deriving DecidableEq, Repr

abbrev Attributes := List Attribute

namespace Attributes

def find (attrs : Attributes) (type : Nat) : Option Attribute :=
  attrs.find? (·.type = type)

-- The value of the first attribute of the type.
def findData (attrs : Attributes) (type : Nat) : Option Bytes :=
  (find attrs type).bind (·.value)

-- `gck_value_to_ulong`, with the bytes of a CK_ULONG from the lowest on.
def valueToUlong (value : Bytes) : Option Nat :=
  if value.length = 8 then some (value.foldr (fun b n => b.toNat + 256 * n) 0) else none

def findUlong (attrs : Attributes) (type : Nat) : Option Nat :=
  (findData attrs type).bind valueToUlong

-- `gck_value_to_boolean`
def valueToBoolean : Bytes → Option Bool
  | [b] => some (b ≠ 0)
  | _   => none

def findBoolean (attrs : Attributes) (type : Nat) : Option Bool :=
  (findData attrs type).bind valueToBoolean

-- `gck_builder_add_data` and the other functions that add.
def add (attrs : Attributes) (type : Nat) (value : Option Bytes) : Attributes :=
  attrs ++ [⟨type, value⟩]

-- `gck_builder_set_data`: the first attribute of the type gets the value.
def set : Attributes → Nat → Option Bytes → Attributes
  | [],            type, value => [⟨type, value⟩]
  | attr :: attrs, type, value => if attr.type = type then ⟨type, value⟩ :: attrs else attr :: set attrs type value

theorem find_set_self (attrs : Attributes) (type : Nat) (value : Option Bytes) :
    find (set attrs type value) type = some ⟨type, value⟩ := by
  induction attrs with
  | nil => simp [set, find]
  | cons attr attrs ih =>
    rw [set]
    split
    case isTrue  => simp [find]
    case isFalse hne => simpa [find, hne] using ih

-- `gck_builder_set_all`
def setAll (attrs new : Attributes) : Attributes :=
  new.foldl (fun attrs attr => set attrs attr.type attr.value) attrs

def ofBoolean (value : Bool) : Option Bytes :=
  some [if value then 1 else 0]

def addBoolean (attrs : Attributes) (type : Nat) (value : Bool) : Attributes :=
  add attrs type (ofBoolean value)

-- The eight bytes of a CK_ULONG, from the lowest on.
def ofUlong (value : Nat) : Option Bytes :=
  some ((List.range 8).map fun i => UInt8.ofNat (value >>> (8 * i)))

def addUlong (attrs : Attributes) (type : Nat) (value : Nat) : Attributes :=
  add attrs type (ofUlong value)

-- The bytes of the string without its end.
def addString (attrs : Attributes) (type : Nat) (value : Bytes) : Attributes :=
  add attrs type (some value)

def setBoolean (attrs : Attributes) (type : Nat) (value : Bool) : Attributes :=
  set attrs type (ofBoolean value)

end Attributes

def ckaClass : Nat := 0x0
def ckaToken : Nat := 0x1
def ckaPrivate : Nat := 0x2
def ckaLabel : Nat := 0x3
def ckaValue : Nat := 0x11
def ckaCertificateType : Nat := 0x80
def ckaKeyType : Nat := 0x100
def ckaId : Nat := 0x102
def ckaSensitive : Nat := 0x103
def ckaDecrypt : Nat := 0x105
def ckaUnwrap : Nat := 0x107
def ckaSign : Nat := 0x108
def ckaSignRecover : Nat := 0x109
def ckaModulus : Nat := 0x120
def ckaPublicExponent : Nat := 0x122
def ckaPrime : Nat := 0x130
def ckaSubprime : Nat := 0x131
def ckaBase : Nat := 0x132
def ckaEcParams : Nat := 0x180
def ckaEcPoint : Nat := 0x181

def ckaXdg : Nat := 0xD8444700
def ckaXAssertionType : Nat := ckaXdg + 1
def ckaXCertificateValue : Nat := ckaXdg + 2
def ckaXPurpose : Nat := ckaXdg + 3
def ckaXPeer : Nat := ckaXdg + 4

def ckoXTrustAssertion : Nat := ckaXdg + 100

def cktXPinnedCertificate : Nat := 2
def cktXAnchoredCertificate : Nat := 3

def ckoCertificate : Nat := 1
def ckoPublicKey : Nat := 2
def ckoPrivateKey : Nat := 3

def ckcX509 : Nat := 0
def ckkRsa : Nat := 0
def ckkDsa : Nat := 1
def ckkEc : Nat := 3

-- `GCK_INVALID`
def gckInvalid : Nat := 0xFFFFFFFFFFFFFFFF

end Gck
