import GcrModel.Egg.Asn1x.Node
import GcrModel.Egg.Asn1x.Tlv
import GcrModel.Library.Chain

-- The writing of elements in egg-asn1x.c. `none` is what the C language leaves undefined, or an assertion that fails.
namespace Asn1x

open GLib

-- A `gint` that is used as a `gulong`.
def toGulong (n : Int) : Nat :=
  (n % 2 ^ 64).toNat

def atlvUnparseLen (len : Nat) : Bytes :=
  if len < 128 then [UInt8.ofNat len]
  else
    let temp := Nat.digits 256 len
    UInt8.ofNat (temp.length % 128 + 128) :: temp.reverse.map UInt8.ofNat

-- The octets of a tag in the long form. All but the last one have the high bit.
def tagOctets (tag : Nat) : Bytes :=
  ((Nat.digits 128 tag).reverse.map fun temp => UInt8.ofNat (temp + 128)).modifyLast (· - 128)

-- The bytes, as many as the function returns. There is room for eight digits of the tag.
def atlvUnparseClsTagLen (cls : UInt8) (tag : Nat) (len : Int) : Option Bytes :=
  if tag < 31 then some (((cls &&& 0xE0) + UInt8.ofNat tag) :: atlvUnparseLen (toGulong len))
  else if 8 < (Nat.digits 128 tag).length then none
  else some (((cls &&& 0xE0) + 31) :: (tagOctets tag ++ atlvUnparseLen (toGulong len)))

-- The bits at the end that are not used are zero.
def clearEmpty (bitsEmpty : Nat) (value : Bytes) : Bytes :=
  if bitsEmpty ≠ 0 then value.modifyLast (· &&& ~~~UInt8.ofNat (0xFF >>> (8 - bitsEmpty))) else value

def Atlv.prefixes (tlv : Atlv) : Bytes :=
  if tlv.prefixForBitString then [UInt8.ofNat tlv.bitsEmpty] else if tlv.prefixWithZeroByte then [0] else []

def unparseValue (tlv : Atlv) (value : Bytes) : Option Bytes :=
  let octets := tlv.prefixes ++ if tlv.prefixForBitString then clearEmpty tlv.bitsEmpty value else value
  if (octets.length : Int) = tlv.len then some octets else none

mutual

-- The bytes that are written where there are `room` bytes up to the end.
def atlvUnparseDer : Atlv → Nat → Option Bytes
  | tlv@(.mk _ _ _ _ _ child ..), room => do
    let header ← atlvUnparseClsTagLen tlv.cls tlv.tag tlv.len
    if room < header.length ∨ header.length ≠ tlv.off then none
    else
      let content ←
        match tlv.value with
        | some value => unparseValue tlv value.data
        | none       => unparseChildren child (room - header.length)
      if room - header.length < content.length then none else some (header ++ content)

def unparseChildren : List Atlv → Nat → Option Bytes
  | [],           _    => some []
  | ctlv :: tlvs, room => do
    let octets ← atlvUnparseDer ctlv room
    if (octets.length : Int) ≠ ctlv.len + ctlv.off then none
    else
      let others ← unparseChildren tlvs (room - octets.length)
      some (octets ++ others)

end

-- The result is `NULL` where there is nothing to write.
def atlvUnparseToBytes (tlv : Atlv) : Option (Option GBytes) := do
  let len ← addGint tlv.off tlv.len
  if len = 0 then some none
  else if len < 0 then none
  else
    let bytes ← atlvUnparseDer tlv len.toNat
    if bytes.length = len then some (some ⟨bytes, []⟩) else none

end Asn1x

-- The sorting of elements in egg-asn1x.c, which are chained up in another order where they are.
namespace Asn1x

open GLib

-- An element in memory: its own fields, the elements that were chained up under it, and the pointers `child` and `next`
-- between these.
inductive Linked
  | mk (tlv : Atlv) (cells : List Linked) (chain : Chain)

-- The elements in the order of the pointers.
@[grind =]
def inChain {α : Type} (chain : Chain) (cells : List α) : Option (List α) :=
  chain.cells.map (·.filterMap (cells[·]?))

mutual

-- What is found from an element on, unless it goes on for ever.
def Linked.toTree : Linked → Option Atlv
  | .mk tlv cells chain => do
    let children ← inChain chain (← toTrees cells)
    some { tlv with child := children }

@[grind =]
def toTrees : List Linked → Option (List Atlv)
  | []            => some []
  | cell :: cells => do
    let tlv ← cell.toTree
    let tlvs ← toTrees cells
    some (tlv :: tlvs)

end

-- What is unparsed has no end where the list of some children has none, and runs over the end of the memory then. The
-- result is `NULL` as soon as one of the elements has no bytes.
def unparseCells : List Linked → Option (Option (List Bytes))
  | []            => some (some [])
  | cell :: cells => do
    let tlv ← cell.toTree
    match ← atlvUnparseToBytes tlv with
    | none       => some none
    | some bytes =>
      let others ← unparseCells cells
      some (others.map (bytes.data :: ·))

-- `g_bytes_compare` is at most zero.
@[grind =]
def compareSortPair (a b : Bytes × Nat) : Bool :=
  a.1 ≤ b.1

-- The list of pairs is built from its end, and `g_list_sort` leaves pairs that are equal in their order.
def sortPairs (encodings : List Bytes) : List Nat :=
  ((encodings.zipIdx.reverse).mergeSort compareSortPair).map (·.2)

mutual

def atlvSortPerform : Atlv → Option Linked
  | tlv@(.mk _ _ _ _ _ child ..) => do
    let cells ← sortCells child
    let chain := Chain.inOrder cells.length
    if ¬tlv.sorted then some (.mk tlv cells chain)
    else
      match ← unparseCells cells with
      | none           => some (.mk tlv cells chain)
      | some encodings => some (.mk tlv cells (chain.relink none (sortPairs encodings)))

def sortCells : List Atlv → Option (List Linked)
  | []           => some []
  | ctlv :: tlvs => do
    let cell ← atlvSortPerform ctlv
    let cells ← sortCells tlvs
    some (cell :: cells)

end

end Asn1x
