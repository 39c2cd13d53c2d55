import GcrModel.GLib.Strings
import GcrModel.Library.Base64

-- egg-armor.c. A pointer is the list of the bytes from it to the end of the memory.
namespace Armor

open GLib

-- What must not happen: a failing `g_assert`, reading outside of the memory, and a length that gets
-- negative. Loops get fuel, and running out of it would be an error as well.
inductive Fault
  | assertion
  | outOfBounds
  | underflow
  | fuel
  deriving DecidableEq, Repr

abbrev Result := Except Fault

-- A GHashTable with strings, in the order of `g_hash_table_foreach`.
abbrev Headers := List (Bytes × Bytes)

def check (fault : Fault) (p : Prop) [Decidable p] : Result Unit :=
  if p then .ok () else .error fault

-- A range that is handed to a function.
def slice (p : Bytes) (n : Nat) : Result Bytes :=
  if n ≤ p.length then .ok (p.take n) else .error .outOfBounds

def read (p : Bytes) (i : Nat) : Result UInt8 :=
  match p[i]? with
  | some c => .ok c
  | none   => .error .outOfBounds

def armorSuff : Bytes :=
  ascii ['-', '-', '-', '-', '-']

def armorPrefBegin : Bytes :=
  ascii ['-', '-', '-', '-', '-', 'B', 'E', 'G', 'I', 'N', ' ']

def armorPrefEnd : Bytes :=
  ascii ['-', '-', '-', '-', '-', 'E', 'N', 'D', ' ']

def colon : UInt8 := 58

def orderedHeaders : List Bytes :=
  [ascii ['P', 'r', 'o', 'c', '-', 'T', 'y', 'p', 'e'], ascii ['D', 'E', 'K', '-', 'I', 'n', 'f', 'o']]

-- `g_hash_table_replace`
def replace (headers : Headers) (name value : Bytes) : Headers :=
  (name, value) :: headers.filter fun header => header.1 ≠ name

def parseHeaderLine (result : Option Headers) (line : Bytes) : Option Headers :=
  let line := strstrip line
  -- Look for the break between name: value
  match line.idxOf? colon with
  | none   => result
  | some i => some (replace (result.getD []) (strstrip (line.take i)) (strstrip (line.drop (i + 1))))

def parseHeaderLines (text : Bytes) (result : Option Headers) : Option Headers :=
  ((cstr text).splitOn newline).foldl parseHeaderLine result

-- The type, the start of the marker and the position behind it.
def armorFindBegin (data : Bytes) (nData : Nat) : Result (Option (Bytes × Nat × Nat)) := do
  let hay ← slice data nData
  -- Look for a prefix
  match strstrLen armorPrefBegin hay with
  | none      => .ok none
  | some pref => do
    let rest := hay.drop (pref + armorPrefBegin.length)
    -- Look for the end of that begin
    match strstrLen armorSuff rest with
    | none   => .ok none
    | some n =>
      -- Make sure on the same line
      if newline ∈ (hay.drop pref).take (armorPrefBegin.length + n) then
        .ok none
      else do
        check .assertion (0 < n)
        .ok (some (rest.take n, pref, pref + armorPrefBegin.length + n + armorSuff.length))

-- `g_strrstr_len` for a range in the memory. A negative length means the string up to the NUL.
def strrstrLen (haystack : Bytes) (len : Int) (needle : Bytes) : Result (Option Nat) :=
  if len < 0 then
    if 0 ∈ haystack then .ok (strrstr needle (cstr haystack)) else .error .outOfBounds
  else do
    let hay ← slice haystack len.toNat
    .ok (strrstr needle (cstr hay))

-- The end of the data and the end of the marker.
def armorFindEnd (data : Bytes) (nData : Nat) (type : Bytes) : Result (Option (Nat × Nat)) := do
  let hay ← slice data nData
  -- Look for a prefix
  match strstrLen armorPrefEnd hay with
  | none      => .ok none
  | some pref => do
    let rest := hay.drop (pref + armorPrefEnd.length)
    -- Next comes the type string, and next comes the suffix
    if ¬type <+: rest ∨ ¬armorSuff <+: rest.drop type.length then
      .ok none
    else do
      -- Check if there's a OpenPGP style armor checksum line
      let end' ← match ← strrstrLen data (pref - 1) [newline] with
        | none      => .ok pref
        | some line => do
          let c ← read data (line + 1)
          .ok (if c = 61 then line else pref)
      let outer := pref + armorPrefEnd.length + type.length + armorSuff.length
      let c ← read data outer
      .ok (some (end', if isspace c then outer + 1 else outer))

-- The inner loop of `armor_parse_block`: the number of spaces before the next newline or the next
-- other character, and whether it was a newline.
def skipSpaces : Bytes → Result (Nat × Bool)
  | []     => .error .outOfBounds
  | c :: x =>
    if isspace c then
      -- Found a second line, with only spaces between
      if c = newline then
        .ok (0, true)
      -- Found a space between two lines
      else do
        let (n, found) ← skipSpaces x
        .ok (n + 1, found)
    else
      .ok (0, false)

-- The outer loop, which looks for the blank line behind the headers. The `n` bytes of the block that
-- are left start at `p`.
def findHeaderEnd : Nat → Bytes → Nat → Result (Option Nat)
  | 0, _, _ => .error .fuel
  | fuel + 1, p, n => do
    let line ← slice p n
    match line.idxOf? newline with
    | none   => .ok none
    | some i => do
      let (k, found) ← skipSpaces (p.drop (i + 1))
      let m := i + 1 + k
      check .underflow (m ≤ n)
      if found then
        .ok (some m)
      -- Try next line
      else do
        let r ← findHeaderEnd fuel (p.drop m) (n - m)
        .ok (r.map (m + ·))

-- The decoded data and the headers. The memory for the decoded data is always there.
def armorParseBlock (data : Bytes) (nData : Nat) (headers : Option Headers) :
    Result (Option (Bytes × Option Headers)) := do
  check .assertion (nData ≠ 0)
  let hend ← findHeaderEnd (nData + 1) data nData
  let block ← slice data nData
  -- Headers found?
  let decoded := Base64.decode (block.drop (hend.getD 0))
  if decoded = [] then
    .ok none
  else
    .ok (some (decoded, hend.elim headers fun hend => parseHeaderLines (block.take hend) headers))

-- What the callback gets. The outer range is given by its positions in the input.
structure Found where
  type     : Bytes
  data     : Bytes
  outerBeg : Nat
  outerEnd : Nat
  headers  : Option Headers
  deriving DecidableEq, Repr

-- The loop of `egg_armor_parse` at the position `pos` of the input, from where on the memory is `rest`.
@[grind =]
def armorParseFrom : Nat → Nat → Bytes → Nat → Option Headers → Result (List Found)
  | 0, _, _, _, _ => .error .fuel
  | fuel + 1, pos, rest, n, headers =>
    if n = 0 then
      .ok []
    else do
      -- This returns the first character after the PEM BEGIN header
      match ← armorFindBegin rest n with
      | none                 => .ok []
      | some (type, outer, beg) => do
        -- This returns the character position before the PEM END header
        match ← armorFindEnd (rest.drop beg) (n - beg) type with
        | none                 => .ok []
        | some (end', outerEnd) => do
          let block ← (if end' ≠ 0 then armorParseBlock (rest.drop beg) end' headers else .ok none)
          -- Try for another block
          let next := beg + end' + armorSuff.length
          match block with
          | none => do
            check .underflow (next ≤ n)
            armorParseFrom fuel (pos + next) (rest.drop next) (n - next) headers
          | some (data, headers) => do
            check .assertion (outer < beg + outerEnd)
            check .underflow (next ≤ n)
            let found ← armorParseFrom fuel (pos + next) (rest.drop next) (n - next) (headers.map fun _ => [])
            .ok (⟨type, data, pos + outer, pos + beg + outerEnd, headers⟩ :: found)

-- The callbacks in their order, for an input of `n` bytes in the memory.
def eggArmorParse (mem : Bytes) (n : Nat) : Result (List Found) :=
  armorParseFrom (n + 1) 0 mem n none

def headerLine (name value : Bytes) : Bytes :=
  name ++ ascii [':', ' '] ++ value ++ [newline]

def appendEachHeader (header : Bytes × Bytes) : Bytes :=
  if header.1 ∈ orderedHeaders then [] else headerLine header.1 header.2

-- Breaks the lines after 64 characters each. Both `i` and `length` count from the last break here.
def breakLines : Nat → Bytes → Bytes
  | 0, text => text
  | fuel + 1, text =>
    if 64 < text.length then text.take 64 ++ newline :: breakLines fuel (text.drop 64) else text

-- No table is the same as an empty one here.
def eggArmorWrite (data type : Bytes) (headers : Headers) : Result Bytes := do
  let ordered := orderedHeaders.flatMap fun name => (headers.lookup name).elim [] (headerLine name)
  let others := if 0 < headers.length then headers.flatMap appendEachHeader ++ [newline] else []
  -- Algorithm from Glib reference
  let estimate := data.length * 4 / 3 + data.length * 4 / (3 * 65) + 7
  -- The actual base64 data, without line breaks except for the last one
  let text := Base64.encode data ++ [newline]
  check .assertion (text.length ≤ estimate)
  .ok (armorPrefBegin ++ type ++ armorSuff ++ [newline] ++ ordered ++ others ++ breakLines text.length text ++
    armorPrefEnd ++ type ++ armorSuff ++ [newline])

end Armor
