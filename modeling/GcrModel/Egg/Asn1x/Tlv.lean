import GcrModel.GLib.Strings
import Mathlib.Algebra.Group.Int.Defs
import Mathlib.Algebra.Group.Nat.Defs

-- egg-asn1x.c: the headers of encoded elements. `none` is what the C language leaves undefined: a byte outside of the
-- memory is read, or a `gint` gets too large. A `FALSE` that is returned for it is an inner `none`.
namespace Asn1x

open GLib

def classStructured : UInt8 := 0x20

def classContextSpecific : UInt8 := 0x80

-- A `guint` that is used as a `gint`.
def toGint (n : Nat) : Int :=
  if n < 2 ^ 31 then n else n - 2 ^ 32

theorem toGint_of_lt {n : Nat} (h : n < 2 ^ 31) : toGint n = n :=
  if_pos h

def addGint (a b : Int) : Option Int :=
  if -2 ^ 31 ≤ a + b ∧ a + b < 2 ^ 31 then some (a + b) else none

-- The memory from a pointer on that was moved.
def advance (mem : Bytes) (off : Int) : Option Bytes :=
  if 0 ≤ off ∧ off ≤ mem.length then some (mem.drop off.toNat) else none

theorem advance_left (front rest : Bytes) : advance (front ++ rest) front.length = some rest := by
  rw [advance, if_pos ⟨by omega, by rw [List.length_append]; omega⟩, Int.toNat_natCast, List.drop_left]

-- Another digit for a `guint`, unless that wrapped around.
def accumulate (base last digit : Nat) : Option Nat :=
  let ris := last * base % 2 ^ 32
  if ris < last then none
  else
    let sum := (ris + digit) % 2 ^ 32
    if sum < ris then none else some sum

-- The loop over the octets of a tag in the long form, where `mem` is the memory from `at[punt]` on: `ris` and `punt`.
-- The index does not get around to the first byte again.
@[grind =]
def parseTagOctets (size ris punt : Nat) : Bytes → Option (Option (Nat × Nat))
  | []         => if punt ≤ size then none else some (some (ris, punt))
  | val :: mem =>
    if size < punt then some (some (ris, punt))
    else if punt + 1 = 2 ^ 32 then none
    else
      match accumulate 128 ris (val &&& 0x7F).toNat with
      | none     => some none
      | some ris =>
        if val &&& 0x7F = val then some (some (ris, punt + 1)) else parseTagOctets size ris (punt + 1) mem

-- The class, the tag and the offset behind them. There are `nData` bytes up to the end, and `mem` is the memory.
def atlvParseClsTag (mem : Bytes) (nData : Nat) : Option (Option (UInt8 × Nat × Int)) :=
  let size := nData % 2 ^ 32
  if size < 2 then some none
  else
    match mem with
    | []         => none
    | at' :: mem =>
      if at' &&& 0x1F ≠ 0x1F then some (some (at' &&& 0xE0, (at' &&& 0x1F).toNat, 1))
      else
        match parseTagOctets size 0 1 mem with
        | none                    => none
        | some none               => some none
        | some (some (ris, punt)) =>
          if size ≤ punt then some none else some (some (at' &&& 0xE0, ris, toGint punt))

-- The loop over the octets of a length in the long form, where `mem` is the memory from `at[punt]` on.
def parseLengthOctets (k size ans punt : Nat) : Bytes → Option (Option (Nat × Nat))
  | []         => if punt ≤ k ∧ punt < size then none else some (some (ans, punt))
  | val :: mem =>
    if punt ≤ k ∧ punt < size then
      match accumulate 256 ans val.toNat with
      | none     => some none
      | some ans => parseLengthOctets k size ans (punt + 1) mem
    else
      some (some (ans, punt))

-- The length and the offset behind it: -1 for an indefinite length, and -2 for one that is too large.
def atlvParseLength (mem : Bytes) (nData : Nat) : Option (Int × Int) :=
  match mem with
  | []         => none
  | at' :: mem =>
    if nData = 0 then none
    else if at' &&& 128 = 0 then some (at'.toNat, 1)
    else
      let k := (at' &&& 0x7F).toNat
      if k = 0 then some (-1, 1)
      else
        match parseLengthOctets k (nData % 2 ^ 32) 0 1 mem with
        | none                    => none
        | some none               => some (-2, 0)
        | some (some (ans, punt)) => some (toGint ans, toGint punt)

structure Header where
  cls : UInt8
  tag : Nat
  off : Int
  len : Int
  deriving DecidableEq, Repr

def atlvParseClsTagLen (mem : Bytes) (nData : Nat) : Option (Option Header) :=
  match atlvParseClsTag mem nData with
  | none                        => none
  | some none                   => some none
  | some (some (cls, tag, cb1)) => do
    let (len, cb2) ← atlvParseLength (← advance mem cb1) (nData - cb1.toNat)
    if len < -1 then some none
    else
      let off ← addGint cb1 cb2
      if 0 ≤ len ∧ nData < off + len then some none else some (some ⟨cls, tag, off, len⟩)

def eggAsn1xElementLength (data : Bytes) : Option Int :=
  match atlvParseClsTag data data.length with
  | none                    => none
  | some none               => some (-1)
  | some (some (_, _, cb)) => do
    let (len, cb') ← atlvParseLength (← advance data cb) (data.length - cb.toNat)
    let counter ← addGint cb cb'
    if 0 ≤ len then
      let len ← addGint len counter
      if len ≤ data.length then some len else some (-1)
    else
      some (-1)

-- The offset and the length of the content.
def eggAsn1xElementContent (data : Bytes) : Option (Option (Int × Int)) :=
  match atlvParseClsTag data data.length with
  | none                    => none
  | some none               => some none
  | some (some (_, _, cb)) => do
    let (len, cb') ← atlvParseLength (← advance data cb) (data.length - cb.toNat)
    if len < 0 then some none
    else
      let counter ← addGint cb cb'
      some (some (counter, len))

end Asn1x
