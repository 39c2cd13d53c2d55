import GcrModel.GLib.Strings

-- egg-buffer.c: reading numbers and byte arrays at an offset of a buffer.
namespace EggBuffer

open GLib

def encodeUint32 (val : UInt32) : Bytes :=
  [(val >>> 24).toUInt8, (val >>> 16).toUInt8, (val >>> 8).toUInt8, val.toUInt8]

def decodeUint32 : Bytes → UInt32
  | a :: b :: c :: d :: _ => a.toUInt32 <<< 24 ||| b.toUInt32 <<< 16 ||| c.toUInt32 <<< 8 ||| d.toUInt32
  | _                     => 0

def encodeUint16 (val : UInt16) : Bytes :=
  [(val >>> 8).toUInt8, val.toUInt8]

def decodeUint16 : Bytes → UInt16
  | a :: b :: _ => a.toUInt16 <<< 8 ||| b.toUInt16
  | _           => 0

variable (buffer : Bytes) (offset : Nat)

-- The value and the next offset.
def getByte : Option (UInt8 × Nat) :=
  buffer[offset]?.map (·, offset + 1)

def getUint32 : Option (UInt32 × Nat) :=
  if buffer.length < 4 ∨ buffer.length - 4 < offset then none
  else some (decodeUint32 (buffer.drop offset), offset + 4)

-- The length 0xffffffff is that of a missing value.
def getByteArray : Option (Option Bytes × Nat) :=
  (getUint32 buffer offset).bind fun (len, offset) =>
    if len = 0xffffffff then some (none, offset)
    else if 0x7fffffff ≤ len then none
    else if buffer.length < len.toNat ∨ buffer.length - len.toNat < offset then none
    else some (some ((buffer.drop offset).take len.toNat), offset + len.toNat)

def getString : Option (Option Bytes × Nat) :=
  (getUint32 buffer offset).bind fun (len, offset) =>
    if len = 0xffffffff then some (none, offset)
    else if 0x7fffffff ≤ len then none
    else if buffer.length < len.toNat ∨ buffer.length - len.toNat < offset then none
    else
      let str := (buffer.drop offset).take len.toNat
      -- Make sure no null characters in string
      if 0 ∈ str then none else some (some str, offset + len.toNat)

def setUint32 (val : UInt32) : Bytes :=
  if buffer.length < 4 ∨ buffer.length - 4 < offset then buffer
  else buffer.take offset ++ encodeUint32 val ++ buffer.drop (offset + 4)

def addByteArray (val : Bytes) : Bytes :=
  if 0x7fffffff ≤ val.length then buffer else buffer ++ encodeUint32 (UInt32.ofNat val.length) ++ val

-- The memory of a buffer, of which the first `len` bytes are used, and how often it was allocated.
structure Buffer where
  buf   : Bytes
  len   : Nat
  calls : Nat
  le    : len ≤ buf.length
  deriving DecidableEq, Repr

-- The bytes that are new if so many are allocated in a call, unless there is no memory.
abbrev Allocator := Nat → Nat → Option (Nat → UInt8)

namespace Buffer

def bytes (b : Buffer) : Bytes :=
  b.buf.take b.len

def reset (b : Buffer) : Buffer :=
  { b with buf := List.replicate b.buf.length 0, len := 0, le := Nat.zero_le _ }

section Write

-- There is no result where bytes behind the memory are written or counted.
def write (b : Buffer) (pos : Nat) (data : Bytes) : Option Buffer :=
  if h : pos + data.length ≤ b.buf.length then
    some { b with
      buf := b.buf.take pos ++ data ++ b.buf.drop (pos + data.length)
      le  := by
        have hle := b.le
        simp only [List.length_append, List.length_take, List.length_drop]
        omega
    }
  else none

def setLen (b : Buffer) (len : Nat) : Option Buffer :=
  if h : len ≤ b.buf.length then some { b with len := len, le := h } else none

variable (allocator : Option Allocator)

def reserve (b : Buffer) (len : Nat) : Bool × Buffer :=
  if len < b.buf.length then (true, b)
  else
    -- Calculate a new length, minimize number of buffer allocations
    let newlen := b.buf.length * 2
    let newlen := if newlen < len then newlen + len else newlen
    match allocator with
    -- Memory owned elsewhere can't be reallocated
    | none           => (false, b)
    | some allocator =>
      match allocator b.calls newlen with
      | none     => (false, { b with calls := b.calls + 1 })
      | some new =>
        (true, { b with
          buf   := b.buf ++ (List.range (newlen - b.buf.length)).map new
          calls := b.calls + 1
          le    := by
            have hle := b.le
            rw [List.length_append]
            omega
        })

def resize (b : Buffer) (len : Nat) : Option (Bool × Buffer) :=
  match b.reserve allocator len with
  | (false, b) => some (false, b)
  | (true, b)  => (b.setLen len).map (true, ·)

def append (b : Buffer) (val : Bytes) : Option (Bool × Buffer) :=
  match b.reserve allocator (b.len + val.length) with
  | (false, b) => some (false, b)
  | (true, b)  => (b.write b.len val).bind fun b => (b.setLen (b.len + val.length)).map (true, ·)

def addByte (b : Buffer) (val : UInt8) : Option (Bool × Buffer) :=
  match b.reserve allocator (b.len + 1) with
  | (false, b) => some (false, b)
  | (true, b)  => (b.write b.len [val]).bind fun b => (b.setLen (b.len + 1)).map (true, ·)

-- Write an encoded number, or return FALSE.
def set (b : Buffer) (offset : Nat) (val : Bytes) : Option (Bool × Buffer) :=
  if b.len < val.length ∨ b.len - val.length < offset then some (false, b)
  else (b.write offset val).map (true, ·)

def addNumber (b : Buffer) (val : Bytes) : Option (Bool × Buffer) :=
  match b.reserve allocator (b.len + val.length) with
  | (false, b) => some (false, b)
  | (true, b)  =>
    (b.setLen (b.len + val.length)).bind fun b => (b.set (b.len - val.length) val).map fun (_, b) => (true, b)

def addUint16 (b : Buffer) (val : UInt16) : Option (Bool × Buffer) :=
  b.addNumber allocator (encodeUint16 val)

def addUint32 (b : Buffer) (val : UInt32) : Option (Bool × Buffer) :=
  b.addNumber allocator (encodeUint32 val)

-- Unless the call before returned FALSE.
def andThen (x : Option (Bool × Buffer)) (f : Buffer → Option (Bool × Buffer)) : Option (Bool × Buffer) :=
  x.bind fun (ret, b) => if ret then f b else some (false, b)

def addUint64 (b : Buffer) (val : UInt64) : Option (Bool × Buffer) :=
  andThen (b.addUint32 allocator (val >>> 32).toUInt32) fun b => b.addUint32 allocator val.toUInt32

def addByteArray (b : Buffer) : Option Bytes → Option (Bool × Buffer)
  | none     => b.addUint32 allocator 0xffffffff
  | some val =>
    if 0x7fffffff ≤ val.length then some (false, b)
    else andThen (b.addUint32 allocator (UInt32.ofNat val.length)) fun b => b.append allocator val

def addString (b : Buffer) : Option Bytes → Option (Bool × Buffer)
  | none     => b.addUint32 allocator 0xffffffff
  | some str =>
    if 0x7fffffff ≤ str.length then some (false, b)
    else andThen (b.addUint32 allocator (UInt32.ofNat str.length)) fun b => b.append allocator str

def addStrings : List Bytes → Buffer → Option (Bool × Buffer)
  | [],     b => some (true, b)
  | v :: vs, b => andThen (b.addString allocator (some v)) (addStrings vs)

-- The strings of an array up to the first that is NULL.
def stringsOf : List (Option Bytes) → Option (List Bytes)
  | []          => none
  | none :: _   => some []
  | some v :: vs => (stringsOf vs).map (v :: ·)

def addStringv (b : Buffer) : Option (List (Option Bytes)) → Option (Bool × Buffer)
  | none      => some (false, b)
  | some strv =>
    (stringsOf strv).bind fun vs =>
      -- Add the number of strings coming
      andThen (b.addUint32 allocator (UInt32.ofNat vs.length)) (addStrings allocator vs)

end Write

section Read

-- There is no result where bytes behind the used ones are read.
def peek (b : Buffer) (offset n : Nat) : Option Bytes :=
  if offset + n ≤ b.len then some ((b.buf.drop offset).take n) else none

def getNumber {α : Type} (n : Nat) (decode : Bytes → α) (b : Buffer) (offset : Nat) : Option (Option (α × Nat)) :=
  if b.len < n ∨ b.len - n < offset then some none
  else (b.peek offset n).map fun ptr => some (decode ptr, offset + n)

def getByte : Buffer → Nat → Option (Option (UInt8 × Nat)) :=
  getNumber 1 (·.headD 0)

def getUint16 : Buffer → Nat → Option (Option (UInt16 × Nat)) :=
  getNumber 2 decodeUint16

def getUint32 : Buffer → Nat → Option (Option (UInt32 × Nat)) :=
  getNumber 4 decodeUint32

-- Unless the call before failed.
def next {α β : Type} (x : Option (Option (α × Nat))) (f : α → Nat → Option (Option β)) : Option (Option β) :=
  x.bind fun
    | none               => some none
    | some (val, offset) => f val offset

def getUint64 (b : Buffer) (offset : Nat) : Option (Option (UInt64 × Nat)) :=
  next (b.getUint32 offset) fun hi offset =>
    next (b.getUint32 offset) fun lo offset => some (some (hi.toUInt64 <<< 32 ||| lo.toUInt64, offset))

def getByteArray (b : Buffer) (offset : Nat) : Option (Option (Option Bytes × Nat)) :=
  next (b.getUint32 offset) fun len offset =>
    if len = 0xffffffff then some (some (none, offset))
    else if 0x7fffffff ≤ len then some none
    else if b.len < len.toNat ∨ b.len - len.toNat < offset then some none
    else (b.peek offset len.toNat).map fun val => some (some val, offset + len.toNat)

-- What is stored as the string, with the next offset if it was read: NULL if there is no memory.
def storeString (allocator : Nat → Bool) (b : Buffer) (offset : Nat) : Option (Option (Option Bytes × Option Nat)) :=
  next (b.getUint32 offset) fun len offset =>
    if len = 0xffffffff then some (some (none, some offset))
    else if 0x7fffffff ≤ len then some none
    else if b.len < len.toNat ∨ b.len - len.toNat < offset then some none
    else (b.peek offset len.toNat).map fun str =>
      -- Make sure no null characters in string
      if 0 ∈ str then none
      -- The passed allocator may be for non-pageable memory
      else if allocator (len.toNat + 1) then some (some str, some (offset + len.toNat))
      else some (none, none)

def getString (allocator : Nat → Bool) (b : Buffer) (offset : Nat) : Option (Option (Option Bytes × Nat)) :=
  (b.storeString allocator offset).map fun stored => stored.bind fun (str, offset) => offset.map (str, ·)

-- There is no result where what is stored or freed is behind the array.
def store (strv : List (Option Bytes)) (i : Nat) (str : Option Bytes) : Option (List (Option Bytes)) :=
  if i < strv.length then some (strv.set i str) else none

def freeStrings (strv : List (Option Bytes)) (i : Nat) : Option (Option (List (Option Bytes) × Nat)) :=
  if i ≤ strv.length then some none else none

-- The strings from the one at `i` on.
def getStrings (allocator : Nat → Nat → Bool) (b : Buffer) :
    Nat → Nat → Nat → List (Option Bytes) → Option (Option (List (Option Bytes) × Nat))
  | 0,     _, offset, strv => some (some (strv, offset))
  | n + 1, i, offset, strv =>
    (b.storeString (allocator (i + 1)) offset).bind fun
      | none                    => freeStrings strv i
      | some (str, none)        => (store strv i str).bind fun strv => freeStrings strv i
      | some (str, some offset) => (store strv i str).bind fun strv => getStrings allocator b n (i + 1) offset strv

def getStringv (allocator : Nat → Nat → Bool) (b : Buffer) (offset : Nat) :
    Option (Option (List (Option Bytes) × Nat)) :=
  next (b.getUint32 offset) fun n offset =>
    -- The number of strings has 32 bits, and the terminator is counted in these.
    let len := (n + 1).toNat * 8
    if allocator 0 len then getStrings allocator b n.toNat 0 offset (List.replicate (len / 8) none)
    else some none

end Read

end Buffer

end EggBuffer
