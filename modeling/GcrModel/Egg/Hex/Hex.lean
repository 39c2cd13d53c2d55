import GcrModel.GLib.Strings
import GcrModel.Library.Loop

-- egg-hex.c
namespace Hex

open GLib

def hexDigit (upperCase : Bool) (n : Nat) : UInt8 :=
  if n < 10 then UInt8.ofNat (n + 48) else UInt8.ofNat (n + if upperCase then 55 else 87)

def hexByte (upperCase : Bool) (c : UInt8) : Bytes :=
  [hexDigit upperCase (c.toNat / 16), hexDigit upperCase (c.toNat % 16)]

-- `egg_hex_encode_full` without a delimiter
def encodeFull (data : Bytes) (upperCase : Bool) : Bytes :=
  data.flatMap (hexByte upperCase)

-- egg-hex.c, with a delimiter between groups of bytes.

def hexcUpper : Bytes :=
  ascii "0123456789ABCDEF".toList

def asciiToupper (c : UInt8) : UInt8 :=
  if 97 ≤ c ∧ c ≤ 122 then c - 32 else c

-- The position, which may be the one of the NUL at the end.
def strchr (s : Bytes) (c : UInt8) : Option Nat :=
  (s ++ [0]).findIdx? (· = c)

-- What is left of the text, the bytes in front of `decoded`, and whether half of the next one was read.
structure Decoding where
  data   : Bytes
  result : Bytes
  state  : Int
  deriving DecidableEq, Repr

-- The loop over the characters of a group, where `decoded` is the byte that is put together.
@[grind =]
def readPairs (group part : Nat) (state : Int) (decoded : UInt8) (result : Bytes) : Bytes → Decoding
  | []        => ⟨[], result, state⟩
  | c :: data =>
    if part < group then
      -- Find the position
      match strchr hexcUpper (asciiToupper c) with
      | none   => ⟨c :: data, result, -1⟩
      | some j =>
        if state = 0 then readPairs group part 1 (UInt8.ofNat ((j &&& 0xF) <<< 4)) result data
        else readPairs group (part + 1) 0 0 (result ++ [decoded ||| UInt8.ofNat (j &&& 0xF)]) data
    else ⟨c :: data, result, state⟩

def groupRound (delim : Option CString) (group : Nat) (s : Decoding) : Option Bytes ⊕ Decoding :=
  if s.data ≠ [] ∧ s.state = 0 then
    if s.result ≠ [] then
      match delim with
      | none       => .inr (readPairs group 0 0 0 s.result s.data)
      | some delim =>
        if ¬delim.bytes <+: s.data then .inl none
        else .inr (readPairs group 0 0 0 s.result (s.data.drop delim.bytes.length))
    else .inr (readPairs group 0 0 0 s.result s.data)
  -- Parsing error
  else if s.state ≠ 0 then .inl none
  else .inl (some s.result)

-- The text, which ends at a NUL if `n_data` is -1. No caller has another negative one.
def text (data : Bytes) (nData : Int) : Bytes :=
  if nData = -1 then cstr data else data.take nData.toNat

def eggHexDecodeFull (data : Bytes) (nData : Int) (delim : Option CString) (group : Nat) : Option Bytes :=
  if group < 1 then none
  else
    let data := text data nData
    (Loop.run (groupRound delim group) (data.length + 2) ⟨data, [], 0⟩).join

-- The bytes from a position on.
def encodeFrom (upperCase : Bool) (delim : Option CString) (group bytes : Nat) : Bytes → Bytes
  | []         => []
  | c :: input =>
    (match delim with
      | none       => []
      | some delim => if group ≠ 0 ∧ bytes ≠ 0 ∧ bytes % group = 0 then delim.bytes else []) ++
      hexByte upperCase c ++ encodeFrom upperCase delim group (bytes + 1) input

def eggHexEncodeFull (data : Bytes) (upperCase : Bool) (delim : Option CString) (group : Nat) : Bytes :=
  encodeFrom upperCase delim group 0 data

end Hex
