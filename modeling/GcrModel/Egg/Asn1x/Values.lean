import GcrModel.Egg.Asn1x.Node
import GcrModel.Egg.Asn1x.Atoin

-- Small unsigned integers in egg-asn1x.c.
namespace Asn1x

open GLib

-- `p << n` for a byte, which is an `int` there.
def shiftInt (p : UInt8) (n : Nat) : Option Nat :=
  if n < 32 ∧ p.toNat <<< n < 2 ^ 31 then some (p.toNat <<< n) else none

@[grind =]
def readIntegerOctets (value : Nat) : Bytes → Option Nat
  | []     => some value
  | p :: s => (shiftInt p (8 * s.length)).bind fun w => readIntegerOctets (value ||| w) s

def anodeReadIntegerUlong (data : Bytes) : Option (Option Nat) :=
  if data.length < 1 ∨ 8 < data.length then some none
  else (readIntegerOctets 0 data).map some

-- The index of the last zero byte before `bytes`.
@[grind =]
def lastZero (buf : Bytes) : Nat → Option Nat
  | 0         => none
  | bytes + 1 => if buf[bytes]? = some 0 then some bytes else lastZero buf bytes

def ulongOctets (value : Nat) : Bytes :=
  (List.range 8).map fun i => UInt8.ofNat (value >>> ((8 - (i + 1)) * 8) % 256)

-- How many octets are written, at the end of the buffer.
def writtenOctets (buf : Bytes) : Nat :=
  match lastZero buf 8 with
  | none       => 8
  | some bytes => if 8 - (bytes + 1) = 0 then 1 else 8 - (bytes + 1)

def anodeWriteIntegerUlong (value : Nat) : Bytes :=
  let buf := ulongOctets value
  let at' := buf.drop (8 - writtenOctets buf)
  if at'.head?.any (128 ≤ ·) then 0 :: at' else at'

def anodeDefaultInteger (node : GNode) : Option Bytes := do
  guard ((anodeDefFlags node).contains .default)
  let opt ← anodeOptLookup node .default none
  let defval ← opt.value
  let defval ←
    match anodeOptLookup node .constant (some defval) with
    | none     => some defval
    | some opt => opt.value
  match strtoul defval.bytes with
  | (value, []) => some (anodeWriteIntegerUlong value)
  | _           => none

-- The result is `FALSE` where there is no number.
def eggAsn1xGetIntegerAsUlong (node : GNode) : Option (Option Nat) :=
  if anodeDefType node ≠ .integer then some none
  else
    match node.data.value.map (·.data) <|> anodeDefaultInteger node with
    | none      => some none
    | some data => anodeReadIntegerUlong data

def eggAsn1xSetIntegerAsUlong (node : GNode) (value : Nat) : GNode :=
  if anodeDefType node ≠ .integer then node
  else
    let data := anodeWriteIntegerUlong value
    if anodeDefaultInteger node = some data then node.modify (·.clrValue)
    else node.modify (·.takeValue ⟨data, List.replicate (9 - data.length) 0⟩)

-- Bit strings in egg-asn1x.c.

-- A difference of `gsize`s that is used as a `guint`.
def toGuint (n : Int) : Nat :=
  (n % 2 ^ 32).toNat

def bitsLength (an : Anode) (data : GBytes) : Nat :=
  toGuint (data.data.length * 8 - an.bitsEmpty)

-- The value and how many bits it has, unless there is no value.
def eggAsn1xGetBitsAsRaw (node : GNode) : Option (GBytes × Nat) :=
  if anodeDefType node ≠ .bitString then none
  else node.data.value.map fun data => (data, bitsLength node.data data)

-- How many bits of the last byte are not used.
def emptyBits (nBits : Nat) : Nat :=
  if 0 < nBits % 8 then 8 - nBits % 8 else 0

def eggAsn1xTakeBitsAsRaw (node : GNode) (value : GBytes) (nBits : Nat) : GNode :=
  if anodeDefType node ≠ .bitString then node
  else node.modify fun an => { an.takeValue value with bitsEmpty := emptyBits nBits }

def eggAsn1xSetBitsAsRaw (node : GNode) (value : GBytes) (nBits : Nat) : GNode :=
  eggAsn1xTakeBitsAsRaw node value nBits

-- The bits and how many there are, unless it is `FALSE`. A `guint` does not count 2^32 bytes, with which it does not end.
def eggAsn1xGetBitsAsUlong (node : GNode) : Option (Option (Nat × Nat)) :=
  if anodeDefType node ≠ .bitString then some none
  else
    match node.data.value with
    | none      => some none
    | some data =>
      let length := bitsLength node.data data
      if 64 < length then some none
      else if 2 ^ 32 ≤ data.data.length then none
      else
        let value := data.data.foldl (fun value p => (value <<< 8) % 2 ^ 64 ||| p.toNat) 0
        some (some (value >>> node.data.bitsEmpty, length))

def eggAsn1xSetBitsAsUlong (node : GNode) (bits nBits : Nat) : GNode :=
  if 64 < nBits ∨ anodeDefType node ≠ .bitString then node
  else
    let empty := emptyBits nBits
    let len := nBits / 8 + if empty ≠ 0 then 1 else 0
    let value := (bits <<< empty) % 2 ^ 64
    let data := (List.range len).map fun i => UInt8.ofNat (value >>> ((len - (i + 1)) * 8) % 256)
    node.modify fun an => { an.takeValue ⟨data, List.replicate (8 - len) 0⟩ with bitsEmpty := empty }

-- Object identifiers in egg-asn1x.c. `none` is what the C language leaves undefined, or an assertion that fails.

-- The loop over the bytes behind the first one: the numbers, unless the encoding is invalid.
def readArcs (lead : Bool) (val pval : Nat) : Bytes → Option (List Nat)
  | []     => some []
  | p :: s =>
    if lead ∧ p = 0x80 then none
    else
      let val := (val <<< 7) % 2 ^ 32 ||| (p &&& 0x7F).toNat
      if val < pval then none
      else if p &&& 0x80 = 0 then (readArcs true 0 0 s).map (val :: ·)
      else readArcs lead val val s

def dotted (arcs : List Nat) : Bytes :=
  [(46 : UInt8)].intercalate (arcs.map printUnsigned)

-- The first byte is read where it is outside of the data, too.
def anodeReadObjectId (node : GNode) (data : GBytes) : Option (Bool × GNode × Option Bytes) :=
  match data.data ++ data.behind with
  | []     => none
  | p :: _ =>
    let pval := p.toNat / 40
    let val := p.toNat - pval * 40
    match readArcs true 0 0 (data.data.drop 1) with
    | none      => some (false, node.modify (·.fail "object id encoding is invalid"), none)
    | some arcs => some (true, node, some (dotted (pval :: val :: arcs)))

-- Seven bits at a time, from the ones that are `k` groups up on.
def arcOctets (num : Nat) (had : Bool) : Nat → Bytes
  | 0     => [UInt8.ofNat (num % 128)]
  | k + 1 =>
    let bit7 := num >>> ((k + 1) * 7) % 128
    if bit7 ≠ 0 ∨ had then (UInt8.ofNat bit7 ||| 0x80) :: arcOctets num true k else arcOctets num had k

-- `strchr (oid, '.')`: the part in front of it, and what is behind it.
def nextPart (oid : Bytes) : Bytes × Bytes :=
  (oid.takeWhile (· ≠ 46), (oid.dropWhile (· ≠ 46)).drop 1)

-- The bytes that the part with the index `i` becomes, where there are `nData` bytes of room.
def partOctets (i : Nat) (num1 num : Int) : Option Bytes :=
  if i = 0 then some []
  else if i = 1 then do
    let sum ← addGint (← mulGint 40 num1) num
    some [UInt8.ofNat (sum % 256).toNat]
  else some (arcOctets num.toNat false 4)

-- The loop over the parts: the bytes, unless a part is no number. The counters are `gint`s.
def writeParts (nData : Nat) : Nat → Nat → Int → Bytes → Bytes → Option (Option Bytes)
  | 0,        _, _,    _,    _   => none
  | fuel + 1, i, num1, data, oid =>
    if oid = [] then some (some data)
    else
      let (part, next) := nextPart oid
      if part = [] then some none
      else do
        let num ← atoin part (toGint (part.length % 2 ^ 32)).toNat
        if num < 0 then some none
        else
          let num1 := if i = 0 then num else num1
          let octets ← partOctets i num1 num
          if nData < data.length + octets.length ∨ 2 ^ 31 ≤ data.length + octets.length ∨ 2 ^ 31 ≤ i + 1 then none
          else writeParts nData fuel (i + 1) num1 (data ++ octets) next

def anodeWriteObjectId (oid : Bytes) (nData : Nat) : Option (Option Bytes) := do
  match ← writeParts nData (oid.length + 1) 0 0 [] oid with
  | none      => some none
  | some data => if data.length < 2 then some none else some (some data)

-- The result is `NULL` where there is no value.
def eggAsn1xGetOidAsString (node : GNode) : Option (Option Bytes) :=
  if anodeDefType node ≠ .objectId then some none
  else
    match node.data.value with
    | none      => some none
    | some data => (anodeReadObjectId node data).map fun (_, _, oid) => oid

def eggAsn1xSetOidAsString (node : GNode) (oid : CString) : Option (Bool × GNode) :=
  if anodeDefType node ≠ .objectId then some (false, node)
  else do
    let nData := oid.bytes.length
    match ← anodeWriteObjectId oid.bytes nData with
    | none      => some (false, node)
    | some data => some (true, node.modify (·.takeValue ⟨data, List.replicate (nData - data.length) 0⟩))

-- The times of egg-asn1x.c. `none` is a byte that is read outside of the memory.

structure Tm where
  year : Int := 0
  mon  : Int := 0
  mday : Int := 1
  hour : Int := 0
  min  : Int := 0
  sec  : Int := 0
  deriving DecidableEq, Repr

def Tm.inRange (tm : Tm) : Prop :=
  0 ≤ tm.year ∧ tm.year ≤ 9999 ∧ 0 ≤ tm.mon ∧ tm.mon ≤ 11 ∧ 1 ≤ tm.mday ∧ tm.mday ≤ 31 ∧ 0 ≤ tm.hour ∧ tm.hour ≤ 23 ∧
    0 ≤ tm.min ∧ tm.min ≤ 59 ∧ 0 ≤ tm.sec ∧ tm.sec ≤ 59

instance (tm : Tm) : Decidable tm.inRange :=
  inferInstanceAs (Decidable (_ ∧ _))

-- `now` is the `tm_year` of the current time.
def twoToFourDigitYear (now : Nat) (year : Int) : Int :=
  if ¬(0 ≤ year ∧ year ≤ 99) then -1
  else
    let current : Int := now % 100
    let century : Int := now + 1900 - current
    if current < 40 ∧ year < current then century + year
    else if current < 40 ∧ 100 - (40 - current) < year then century - 100 + year
    else if ¬current < 40 ∧ year < current ∧ current - 40 < year then century + year
    else if year < current then century + 100 + year
    else century + year

-- How the two kinds of times differ.
structure TimeKind where
  least      : Nat
  limit      : Nat
  yearDigits : Nat
  year       : Int → Int
  even       : yearDigits % 2 = 0 := by decide
  few        : yearDigits ≤ 9 := by decide

def utcTime (now : Nat) : TimeKind where
  least      := 6
  limit      := 28
  yearDigits := 2
  year       := fun year => twoToFourDigitYear now year - 1900

def generalTime : TimeKind where
  least      := 8
  limit      := 30
  yearDigits := 4
  year       := fun year => year - 1900

-- `for (e = p; *e >= '0' && *e <= '9'; ++e)`: the digits up to `e`.
def leadingDigits : Bytes → Option Bytes
  | []     => none
  | c :: s => if isdigit c then (leadingDigits s).map (c :: ·) else some []

-- The next field, if there are as many digits from `p` to `e`.
def nextField (digits : Nat) (set : Tm → Int → Tm) (s : Bytes × Tm) : Option (Bytes × Tm) :=
  if digits ≤ s.1.length then (atoin s.1 digits).map fun v => (s.1.drop digits, set s.2 v) else some s

-- The fields, and the digits that are left from `p` to `e`.
def readFields (kind : TimeKind) (digits : Bytes) : Option (Bytes × Tm) := do
  let s ← nextField kind.yearDigits (fun tm v => { tm with year := kind.year v }) (digits, {})
  let s ← nextField 2 (fun tm v => { tm with mon := v - 1 }) s
  let s ← nextField 2 (fun tm v => { tm with mday := v }) s
  let s ← nextField 2 (fun tm v => { tm with hour := v }) s
  let s ← nextField 2 (fun tm v => { tm with min := v }) s
  nextField 2 (fun tm v => { tm with sec := v }) s

-- A `gboolean`, which may be -1, and what is known of the time.
abbrev TimeResult := Int × Tm × Int

-- What follows the digits and the fraction, from `p` on.
def readZone (mem : Bytes) (nTime p : Nat) (tm : Tm) : Option TimeResult :=
  let finish (p : Nat) (offset : Int) : TimeResult := (if p = nTime then 1 else 0, tm, offset)
  match mem[p]? with
  | none   => none
  | some c =>
    if p < nTime ∧ c = 90 then some (finish (p + 1) 0)
    else if (c = 45 ∨ c = 43) ∧ p + 3 ≤ nTime then do
      let hours ← atoin (mem.drop (p + 1)) 2
      let off := hours * 3600
      if off < 0 ∨ 86400 < off then some (-1, tm, 0)
      else if p + 5 ≤ nTime then do
        let minutes ← atoin (mem.drop (p + 3)) 2
        let off := off + minutes * 60
        some (finish (p + 5) (if c = 45 then 0 - off else off))
      else
        some (finish (p + 3) (if c = 45 then 0 - off else off))
    else
      some (finish p 0)

-- The memory from `time` on, and what `when` and `offset` were before.
def parseTime (kind : TimeKind) (mem : Bytes) (nTime : Nat) (when : Tm) (offset : Int) : Option TimeResult :=
  if nTime < kind.least ∨ kind.limit ≤ nTime then some (0, when, offset)
  else do
    let digits ← leadingDigits mem
    let (left, tm) ← readFields kind digits
    if ¬tm.inRange ∨ left ≠ [] then some (0, tm, 0)
    else
      let p := digits.length
      let fraction := p < nTime ∧ mem[p]? = some 46 ∧ p + 5 ≤ nTime
      readZone mem nTime (if fraction then p + 5 else p) tm

def parseUtcTime (now : Nat) : Bytes → Nat → Tm → Int → Option TimeResult :=
  parseTime (utcTime now)

def parseGeneralTime : Bytes → Nat → Tm → Int → Option TimeResult :=
  parseTime generalTime

end Asn1x
