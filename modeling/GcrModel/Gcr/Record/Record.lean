import GcrModel.GLib.Convert
import GcrModel.Library.Base64

-- gcr-record.c: the columns of a line that gnupg prints or reads.
open GLib

def maxColumns : Nat := 32

@[ext]
structure Record where
  columns   : List CString
  delimiter : UInt8
  length_le : columns.length ≤ maxColumns

namespace Record

def colon : UInt8 := 58

def space : UInt8 := 32

def backslash : UInt8 := 92

def empty : CString :=
  .of []

def new (schema : CString) (nColumns : Nat) (delimiter : UInt8) (h : nColumns ≤ maxColumns) : Record where
  columns   := (List.replicate nColumns empty).set 0 schema
  delimiter := delimiter
  length_le := by simpa using h

-- print_record_to_string
def format (r : Record) : Bytes :=
  r.columns.flatMap fun column => column.bytes ++ [r.delimiter]

def push (r : Record) (column : CString) (h : r.columns.length < maxColumns) : Record :=
  { r with columns := r.columns ++ [column], length_le := by simpa using Nat.succ_le_of_lt h }

-- take_and_parse_internal with the columns so far and the string `value` that begins at `beg`.
def takeAndParseFrom (allowEmpty : Bool) (nValue : Nat) (result : Record) (beg : Nat) (value : Bytes) :
    Option Record :=
  if h : result.columns.length < maxColumns then
    match hat : value.idxOf? result.delimiter with
    | none =>
      -- The `end` here is one less than the length of the whole line.
      some (if allowEmpty ∨ beg + 1 < nValue then result.push (.of value) h else result)
    | some i =>
      let result := if allowEmpty ∨ 0 < i then result.push (.of (value.take i)) h else result
      takeAndParseFrom allowEmpty nValue result (beg + i + 1) (value.drop (i + 1))
  else
    none
termination_by value.length
decreasing_by
  have := (notMem_take_idxOf? hat).1
  simp
  omega

def takeAndParse (block : CString) (nValue : Nat) (delimiter : UInt8) (allowEmpty : Bool) : Option Record :=
  takeAndParseFrom allowEmpty nValue ⟨[], delimiter, Nat.zero_le _⟩ 0 block.bytes

def parseColons (line : Bytes) : Option Record :=
  takeAndParse (.of line) line.length colon true

def parseSpaces (line : Bytes) : Option Record :=
  takeAndParse (.of line) line.length space false

-- A column that does not exist is refused, and `List.set` changes nothing then.
def takeColumn (r : Record) (column : Nat) (block : CString) : Record :=
  { r with columns := r.columns.set column block, length_le := by simpa using r.length_le }

def hexcLower : Bytes :=
  ascii "0123456789abcdef".toList

def octalDigits : Nat → UInt8 → Bytes → UInt8 × Bytes
  | n + 1, q, c :: p => if 48 ≤ c ∧ c ≤ 55 then octalDigits n (q * 8 + (c - 48)) p else (q, c :: p)
  | _,     q, p      => (q, p)

-- The NUL behind the digits is found by `strchr` as well.
def hexDigits : Nat → UInt8 → Bytes → Option (UInt8 × Bytes)
  | 0,     q, p => some (q, p)
  | n + 1, q, p =>
    match (hexcLower ++ [0]).idxOf? (asciiTolower (p.headD 0)) with
    | none     => none
    | some pos => hexDigits n (q * 16 + UInt8.ofNat pos) (p.drop 1)

def unescapeLetter (c : UInt8) : UInt8 :=
  if c = 98 then 8
  else if c = 102 then 12
  else if c = 110 then 10
  else if c = 114 then 13
  else if c = 116 then 9
  else c

-- What follows a backslash. The hexadecimal digits are looked for from the x on, as in the source.
def unescapeChar : Bytes → Option (UInt8 × Bytes)
  | []     => none
  | c :: p =>
    if 48 ≤ c ∧ c ≤ 55 then some (octalDigits 3 0 (c :: p))
    else if c = 120 then hexDigits 2 0 (c :: p)
    else some (unescapeLetter c, p)

theorem length_octalDigits (n : Nat) (q : UInt8) (p : Bytes) : (octalDigits n q p).2.length ≤ p.length := by
  induction n generalizing q p with
  | zero => simp [octalDigits]
  | succ n ih =>
    cases p with
    | nil => simp [octalDigits]
    | cons c p =>
      rw [octalDigits]
      split
      case isTrue  => exact Nat.le_succ_of_le (ih _ _)
      case isFalse => exact Nat.le_refl _

theorem length_hexDigits {n : Nat} {q q' : UInt8} {p p' : Bytes} (h : hexDigits n q p = some (q', p')) :
    p'.length ≤ p.length := by
  induction n generalizing q p with
  | zero =>
    simp only [hexDigits, Option.some.injEq, Prod.mk.injEq] at h
    exact h.2 ▸ Nat.le_refl _
  | succ n ih =>
    rw [hexDigits] at h
    split at h
    case h_1 => cases h
    case h_2 =>
      apply Nat.le_trans (ih h)
      simp

theorem length_unescapeChar {q : UInt8} {p p' : Bytes} (h : unescapeChar p = some (q, p')) :
    p'.length ≤ p.length := by
  cases p with
  | nil => cases h
  | cons c p =>
    rw [unescapeChar] at h
    split at h
    case isTrue =>
      have hlen := length_octalDigits 3 0 (c :: p)
      simp_all
    case isFalse =>
      split at h
      case isTrue  => exact length_hexDigits h
      case isFalse =>
        cases h
        exact Nat.le_succ _

-- The loop of c_colons_unescape behind `before`. The `dest` is `none` until it is allocated.
def colonsUnescapeFrom (before : Bytes) (dest : Option Bytes) : Bytes → Option Bytes
  | []     => dest
  | c :: p =>
    if c = backslash then
      match _h : unescapeChar p with
      | none         => none
      | some (q, p') => colonsUnescapeFrom before (some (dest.getD before ++ [q])) p'
    else
      colonsUnescapeFrom (before ++ [c]) (dest.map (· ++ [c])) p
termination_by p => p.length
decreasing_by
  · exact Nat.lt_succ_of_le (length_unescapeChar _h)
  · exact Nat.lt_succ_self _

def colonsUnescape (source : Bytes) : Option Bytes :=
  colonsUnescapeFrom [] none source

def escapeLetter (c : UInt8) : Option UInt8 :=
  if c = 8 then some 98
  else if c = 12 then some 102
  else if c = 10 then some 110
  else if c = 13 then some 114
  else if c = 9 then some 116
  else if c = 92 then some 92
  else if c = 34 then some 34
  else none

-- The bound in the source is 0x127, which no byte reaches, and `extra` is a `gchar`, which no byte is when it is negative.
def needsEscape (extra c : UInt8) : Bool :=
  (escapeLetter c).isSome ∨ c < 32 ∨ 295 ≤ c.toNat ∨ c = extra ∧ extra < 128

def escapeChar (c : UInt8) : Bytes :=
  match escapeLetter c with
  | some escape => [backslash, escape]
  | none        => [backslash, 120, hexcLower.getD (c.toNat / 16) 0, hexcLower.getD (c.toNat % 16) 0]

-- The loop of c_colons_escape behind `before`.
def colonsEscapeFrom (extra : UInt8) (before : Bytes) (dest : Option Bytes) : Bytes → Option Bytes
  | []     => dest
  | c :: p =>
    if needsEscape extra c then
      colonsEscapeFrom extra (before ++ [c]) (some (dest.getD before ++ escapeChar c)) p
    else
      colonsEscapeFrom extra (before ++ [c]) (dest.map (· ++ [c])) p

def colonsEscape (source : Bytes) (extra : UInt8) : Option Bytes :=
  colonsEscapeFrom extra [] none source

def getRaw (r : Record) (column : Nat) : Option CString :=
  r.columns[column]?

def setRaw (r : Record) (column : Nat) (value : CString) : Record :=
  r.takeColumn column value

def takeRaw (r : Record) (column : Nat) (value : CString) : Record :=
  r.takeColumn column value

def setChar (r : Record) (column : Nat) (value : UInt8) : Record :=
  r.takeColumn column (.of [value])

def getSchema (r : Record) : Option CString :=
  r.getRaw 0

def getString (r : Record) (column : Nat) : Option Bytes :=
  (r.getRaw column).map fun raw =>
    let value := cstr ((colonsUnescape raw.bytes).getD raw.bytes)
    -- If it's not UTF-8, we guess that it's latin1
    if utf8Validate value then value else latin1ToUtf8 value

def setString (r : Record) (column : Nat) (string : CString) : Record :=
  r.takeColumn column (.of ((colonsEscape string.bytes r.delimiter).getD string.bytes))

def getUint (r : Record) (column : Nat) : Option UInt32 :=
  (r.getRaw column).bind fun raw =>
    match asciiStrtoll raw.bytes with
    | (result, rest) =>
      if rest ≠ [] then none
      else if result < 0 ∨ 4294967295 < result then none
      else some (UInt32.ofNat result.toNat)

def setUint (r : Record) (column : Nat) (value : UInt32) : Record :=
  r.takeColumn column (.of (printUnsigned value.toNat))

-- A gulong has 64 bits. The comparison with G_MAXULONG is one of unsigned numbers.
def getUlong (r : Record) (column : Nat) : Option UInt64 :=
  (r.getRaw column).bind fun raw =>
    match asciiStrtoull raw.bytes with
    | (result, rest) =>
      if rest ≠ [] then none
      else if toGint64 result < 0 ∨ maxUint64 < result then none
      else some (UInt64.ofNat (result % 4294967296))

def setUlong (r : Record) (column : Nat) (value : UInt64) : Record :=
  r.takeColumn column (.of (printUnsigned value.toNat))

def getBase64 (r : Record) (column : Nat) : Option Bytes :=
  (r.getRaw column).map fun raw => Base64.decode raw.bytes

-- `g_base64_encode_close` ends the text with a line break.
def setBase64 (r : Record) (column : Nat) (data : Bytes) : Record :=
  r.takeColumn column (.of ((Base64.encode data ++ [newline]).rdropWhile asciiIsspace))

-- The strings before each delimiter, and what is behind the last one.
def strnsplitFrom (delimiter : UInt8) (remainder : Bytes) : List Bytes × Bytes :=
  match _hat : remainder.idxOf? delimiter with
  | none   => ([], remainder)
  | some i =>
    let (strings, rest) := strnsplitFrom delimiter (remainder.drop (i + 1))
    (remainder.take i :: strings, rest)
termination_by remainder.length
decreasing_by
  have := (notMem_take_idxOf? _hat).1
  simp
  omega

def strnsplit (string : Bytes) (delimiter : UInt8) : List CString :=
  let (strings, rest) := strnsplitFrom delimiter string
  (if string.headD 0 ≠ 0 then strings ++ [rest] else strings).map .of

end Record

def recordsFormat (records : List Record) : Bytes :=
  records.flatMap fun r => r.format ++ [newline]

def recordsParseColons (data : Bytes) : Option (List Record) :=
  (Record.strnsplit data newline).mapM fun line =>
    Record.takeAndParse line line.bytes.length Record.colon true
