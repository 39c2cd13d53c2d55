import GcrModel.GLib.Strings
import GcrModel.Library.Loop
import GcrModel.Library.Radix

-- egg-symkey.c: keys from a password with a hash function, and with PBKDF2.
namespace Symkey

open GLib

-- A hash function of the library.
structure Digest where
  hash   : Bytes → Bytes
  size   : Nat
  pos    : 0 < size
  length : ∀ data, (hash data).length = size

-- A hash function with a key, that is GCRY_MD_FLAG_HMAC.
structure Mac where
  mac    : Bytes → Bytes → Bytes
  size   : Nat
  pos    : 0 < size
  length : ∀ key data, (mac key data).length = size

-- The variables of egg_symkey_generate_simple. There is no key and no IV if they are not asked for.
structure Simple where
  digest    : Option Bytes
  key       : Option Bytes
  iv        : Option Bytes
  neededKey : Nat
  neededIv  : Nat
  deriving DecidableEq, Repr

-- Copy as much as possible into the destinations
def copy (dest : Option Bytes) : Nat → Bytes → Option Bytes × Nat × Bytes
  | 0,          digest      => (dest, 0, digest)
  | needed + 1, []          => (dest, needed + 1, [])
  | needed + 1, c :: digest => copy (dest.map (· ++ [c])) needed digest

def passRound (md : Digest) (password salt : Option Bytes) (iterations : Nat) (s : Simple) :
    (Option Bytes × Option Bytes) ⊕ Simple :=
  -- Hash in the previous buffer on later passes
  let digest := md.hash (s.digest.getD [] ++ password.getD [] ++ salt.getD [])
  let digest := md.hash^[iterations - 1] digest
  let (key, neededKey, rest) := copy s.key s.neededKey digest
  let (iv, neededIv, _) := copy s.iv s.neededIv rest
  if neededKey = 0 ∧ neededIv = 0 then .inl (key, iv) else .inr ⟨some digest, key, iv, neededKey, neededIv⟩

-- The key and the IV, or FALSE. There is no secure memory of no bytes.
def eggSymkeyGenerateSimple (fuel : Nat) (md : Digest) (keylen blklen : Nat) (password salt : Option Bytes) (iterations : Int)
    (key iv : Bool) : Option (Option (Option Bytes × Option Bytes)) :=
  if iterations < 1 then some none
  else if key ∧ keylen = 0 then some none
  else
    (Loop.run (passRound md password salt iterations.toNat) fuel
      ⟨none, if key then some [] else none, if iv then some [] else none, keylen, blklen⟩).map some

-- Memory behind an offset is overwritten, if there is enough of it.
def memcpy (memory : Bytes) (offset : Nat) (data : Bytes) : Option Bytes :=
  if offset + data.length ≤ memory.length then some (memory.take offset ++ data ++ memory.drop (offset + data.length))
  else none

-- What was written in front of the last bytes stays.
theorem memcpy_append {data : Bytes} (front back : Bytes) (hlen : data.length ≤ back.length) :
    memcpy (front ++ back) front.length data = some (front ++ data ++ back.drop data.length) := by
  rw [memcpy, if_pos (by rw [List.length_append]; omega), List.take_left, List.drop_append,
    List.drop_of_length_le (Nat.le_add_right _ _), Nat.add_sub_cancel_left, List.nil_append]

def xorBytes (T U : Bytes) : Bytes :=
  List.zipWith (· ^^^ ·) T U

-- The four bytes at the end of `buf`.
def blockIndex (i : Nat) : Bytes :=
  [UInt8.ofNat ((i &&& 0xff000000) >>> 24), UInt8.ofNat ((i &&& 0x00ff0000) >>> 16), UInt8.ofNat ((i &&& 0x0000ff00) >>> 8),
    UInt8.ofNat (i &&& 0x000000ff)]

-- T and U after so many iterations.
def pbkdf2Rounds (md : Mac) (password salt : Bytes) (i : Nat) : Nat → Bytes × Bytes
  | 0     => (List.replicate md.size 0, [])
  | u + 1 =>
    let (T, U) := pbkdf2Rounds md password salt i u
    -- For first iteration on each block add 4 extra bytes
    let U := md.mac password (if u + 1 = 1 then salt ++ blockIndex i else U)
    (xorBytes T U, U)

-- The blocks from `i` on.
def pbkdf2Blocks (md : Mac) (password salt : Bytes) (iterations l r : Nat) : Nat → Nat → Bytes → Option Bytes
  | 0,         _, output => some output
  | count + 1, i, output =>
    (memcpy output ((i - 1) * md.size) ((pbkdf2Rounds md password salt i iterations).1.take (if i = l then r else md.size))).bind
      (pbkdf2Blocks md password salt iterations l r count (i + 1))

-- Whether there was a key, and what is in the memory for it then. There is no result if something is written outside of it, or
-- without an end.
def generatePbkdf2 (md : Mac) (password salt : Bytes) (iterations : Nat) (output : Bytes) : Option (Bool × Bytes) :=
  if iterations = 0 ∨ output.length = 0 ∨ 2 ^ 32 - 1 ≤ output.length then some (false, output)
  -- There are no temporary buffers
  else if secureLimit < md.size ∨ secureLimit < salt.length + 4 then some (false, output)
  -- `u <= iterations` holds of every `guint`, and the loop does not end.
  else if 2 ^ 32 - 1 ≤ iterations then none
  else
    -- n_hash blocks in output, rounding up
    let l := (output.length - 1) / md.size + 1
    -- number of bytes in last, rounded up, n_hash block
    let r := output.length - (l - 1) * md.size
    (pbkdf2Blocks md password salt iterations l r l 1 output).map (true, ·)

-- `generate_pkcs12` in egg-symkey.c.

-- Text that g_utf8_validate accepts: its characters, of which none is NUL.
structure Utf8 where
  chars : List Char
  nul   : Char.ofNat 0 ∉ chars
  deriving DecidableEq

-- A number of the library that is read from bytes, and the bytes of one.
def mpiScan (data : Bytes) : Nat :=
  Radix.value 256 (data.map UInt8.toNat)

def mpiPrint (n : Nat) : Bytes :=
  (Radix.digits 256 n).map UInt8.ofNat

-- Bring in the salt. No result if a number is divided by zero.
def saltBlock : Option Bytes → Option Bytes
  | none      => some (List.replicate 64 0)
  | some salt =>
    if salt.length = 0 then none else some ((List.range 64).map fun i => salt.getD (i % salt.length) 0)

def bmpBytes (unich : Nat) : Bytes :=
  [UInt8.ofNat ((unich &&& 0xFF00) >>> 8), UInt8.ofNat (unich &&& 0xFF)]

-- So many characters, where `p2` is what is left of the password.
def bmpCharacters (password : List Char) : Nat → List Char → Bytes
  | 0,     _           => []
  -- Get a character from the string
  | n + 1, unich :: p2 => bmpBytes unich.toNat ++ bmpCharacters password n p2
  -- Get zero null terminator, and loop back to beginning
  | n + 1, []          => bmpBytes 0 ++ bmpCharacters password n password

-- Bring in the password, as 16bits per character BMP string
def passwordBlock : Option Utf8 → Bytes
  | none          => List.replicate 64 0
  | some password => bmpCharacters password.chars 32 password.chars

-- We take special care to right align the number in the buffer
def addBlock (numB1 : Nat) (block : Bytes) : Option Bytes :=
  let numIj := (mpiScan block + numB1) % 2 ^ 512
  if 64 < (mpiPrint numIj).length then none
  else some (List.replicate (64 - (mpiPrint numIj).length) 0 ++ mpiPrint numIj)

structure Pkcs12 where
  bufI    : Bytes
  output  : Bytes
  nOutput : Nat
  deriving DecidableEq, Repr

-- Hash and bash
def pkcs12Round (md : Digest) (type : UInt8) (password : Option Utf8) (iterations : Nat) (s : Pkcs12) :
    Option Bytes ⊕ Pkcs12 :=
  let hash := md.hash (List.replicate 64 type ++ s.bufI.take (if password.isSome then 128 else 64))
  let hash := md.hash^[iterations - 1] hash
  -- Take out as much as we need
  let output := s.output ++ hash.take s.nOutput
  let nOutput := s.nOutput - hash.length
  if nOutput = 0 then .inl (some output)
  else
    -- Need more bytes, do some voodoo
    let bufB := (List.range 64).map fun i => hash.getD (i % md.size) 0
    let numB1 := mpiScan bufB + 1
    match addBlock numB1 (s.bufI.take 64), addBlock numB1 ((s.bufI.drop 64).take 64) with
    | some block, some block' => .inr ⟨block ++ block', output, nOutput⟩
    | _,          _           => .inl none

-- No result if a number is divided by zero, and FALSE if a number does not fit its block.
def generatePkcs12 (fuel : Nat) (md : Digest) (type : UInt8) (password : Option Utf8) (salt : Option Bytes) (iterations : Nat)
    (nOutput : Nat) : Option (Option Bytes) :=
  (saltBlock salt).bind fun block =>
    Loop.run (pkcs12Round md type password iterations) fuel ⟨block ++ passwordBlock password, [], nOutput⟩

end Symkey
