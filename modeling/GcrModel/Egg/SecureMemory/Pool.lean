import GcrModel.Library.Memory

-- The data of egg-secure-memory.c. Pointers are byte addresses, and a word is 8 bytes.
namespace SecureMemory

def wordSize : Nat := 8

-- A byte and who wrote it last: the kernel or `memset`, `sec_write_guards` or the client. The code has
-- no such distinction, it only serves to say where the bytes of a block come from.
inductive Byte
  | zero
  | guard (val : UInt8)
  | client (val : UInt8)
  deriving DecidableEq, Repr

def Byte.val : Byte → UInt8
  | zero       => 0
  | guard val  => val
  | client val => val

def Byte.IsClient : Byte → Prop
  | client _ => True
  | _        => False

-- `Cell`. The metadata of a cell is not stored in the secure memory but in an item of the pool.
structure Cell where
  words     : Nat := 0
  nWords    : Nat := 0
  requested : Nat := 0
  tag       : Option String := none
  next      : Option Nat := none
  prev      : Option Nat := none
  deriving DecidableEq, Repr

-- `Block`. The field `item` is the address of the structure itself, and `next` is left out because
-- `all_blocks` is a list here.
structure Block where
  item        : Nat
  words       : Nat
  nWords      : Nat
  nUsed       : Nat := 0
  usedCells   : Option Nat := none
  unusedCells : Option Nat := none
  deriving DecidableEq, Repr

-- `Pool`. The field `base` is the address of the structure, and `unused` the stack of free items.
structure Pool where
  base   : Nat
  length : Nat
  used   : Nat
  unused : List Nat
  nItems : Nat
  deriving DecidableEq, Repr

-- What the process starts with: the page size (an `int`, also when doubled), whether `pool_version` is the version of the code,
-- whether SECMEM_FORCE_FALLBACK is set and whether there is a fallback allocator.
structure Host where
  pageBits      : Nat
  pageBits_ge   : 12 ≤ pageBits
  pageBits_le   : pageBits ≤ 29
  poolVersion   : Bool
  forceFallback : Bool
  fallback      : Bool

def Host.pageSize (host : Host) : Nat :=
  2 ^ host.pageBits

abbrev Cells := Nat → Option Cell

-- Everything but the blocks. `maps` lists the memory that the process got from `mmap` and from the
-- fallback allocator (address and length), and `sys` the answers that these two are going to give.
structure Heap where
  mem   : Memory Byte
  cells : Cells
  pools : List Pool
  maps  : List (Nat × Nat)
  sys   : List (Option Nat)

structure State where
  heap   : Heap
  blocks : List Block

-- The state of a process that has not used the allocator yet.
def State.initial (sys : List (Option Nat)) : State where
  heap := {
    mem   := fun _ => .zero
    cells := fun _ => none
    pools := []
    maps  := []
    sys   := sys
  }
  blocks := []

def Block.last (block : Block) : Nat :=
  block.words + wordSize * block.nWords

def Cell.last (cell : Cell) : Nat :=
  cell.words + wordSize * cell.nWords

namespace Cells

-- The parts of the metadata that the invariants are about: where a cell lies, how it is linked and
-- what it is used for.
def geom (cells : Cells) (c : Nat) : Option (Nat × Nat) :=
  (cells c).map fun cell => (cell.words, cell.nWords)

def next (cells : Cells) (c : Nat) : Option Nat :=
  (cells c).bind Cell.next

def prev (cells : Cells) (c : Nat) : Option Nat :=
  (cells c).bind Cell.prev

def use (cells : Cells) (c : Nat) : Option (Nat × Option String) :=
  (cells c).map fun cell => (cell.requested, cell.tag)

-- Writes some fields of the metadata at `c`, which has to be there.
def update (cells : Cells) (c : Nat) (f : Cell → Cell) : Option Cells :=
  (cells c).map fun cell => Function.update cells c (some (f cell))

end Cells
end SecureMemory

-- The pool of items for metadata, and the pages that it takes from the kernel. In all functions of
-- the allocator the outcome `none` means that an `ASSERT` fails or that a pointer is followed which
-- does not lead to the metadata it should.
namespace SecureMemory

-- `sizeof (Item)` and the offset of `items` in `Pool`.
def itemSize : Nat := 48
def poolHeader : Nat := 40

namespace Pool

def items (pool : Pool) : Nat :=
  pool.base + poolHeader

-- Whether an item pointer belongs to the pool: `ptr >= beg && ptr <= end`.
def Owns (pool : Pool) (ptr : Nat) : Prop :=
  pool.items ≤ ptr ∧ ptr ≤ pool.base + pool.length - itemSize

instance (pool : Pool) (ptr : Nat) : Decidable (pool.Owns ptr) :=
  inferInstanceAs (Decidable (_ ∧ _))

def itemList (pool : Pool) : List Nat :=
  (List.range pool.nItems).map fun i => pool.items + itemSize * i

end Pool

-- Whether a range can be handed out: it lies in the address space and does not overlap what is there.
def Free (maps : List (Nat × Nat)) (base length : Nat) : Prop :=
  0 < base ∧ 0 < length ∧ base + length ≤ 2 ^ 64 ∧
    ∀ r ∈ maps, base + length ≤ r.1 ∨ r.1 + r.2 ≤ base

instance (maps : List (Nat × Nat)) (base length : Nat) : Decidable (Free maps base length) :=
  inferInstanceAs (Decidable (_ ∧ _ ∧ _ ∧ _))

-- `mmap` of private anonymous memory, which is zeroed. An answer that is no free range of pages
-- counts as `MAP_FAILED`.
def mmap (host : Host) (length : Nat) (h : Heap) : Option Nat × Heap :=
  match h.sys with
  | some base :: sys =>
    if host.pageSize ∣ base ∧ Free h.maps base length then
      (some base, { h with
        mem  := h.mem.fill base length .zero
        maps := (base, length) :: h.maps
        sys  := sys
      })
    else
      (none, { h with sys })
  | none :: sys => (none, { h with sys })
  | []          => (none, h)

def munmap (base length : Nat) (h : Heap) : Heap :=
  { h with maps := h.maps.erase (base, length) }

-- Pops an item from the first pool that has one.
def poolTake : List Pool → Option (Nat × List Pool)
  | [] => none
  | pool :: pools =>
    match pool.unused with
    | item :: unused => some (item, { pool with used := pool.used + 1, unused } :: pools)
    | []             => (poolTake pools).map fun (item, pools) => (item, pool :: pools)

def poolNew (base length : Nat) : Pool where
  base   := base
  length := length
  used   := 0
  nItems := (length - (poolHeader + itemSize)) / itemSize
  unused := ((List.range ((length - (poolHeader + itemSize)) / itemSize)).map fun i =>
    base + poolHeader + itemSize * i).reverse

-- The item is zeroed, so that it is a cell with all fields unset.
def poolAlloc (host : Host) (h : Heap) : Option (Option Nat × Heap) :=
  if host.poolVersion then
    match poolTake h.pools with
    | some (item, pools) =>
      some (some item, { h with pools, cells := Function.update h.cells item (some {}) })
    | none =>
      match mmap host (host.pageSize * 2) h with
      | (none, h)      => some (none, h)
      | (some base, h) => do
        let (item, pools) ← poolTake (poolNew base (host.pageSize * 2) :: h.pools)
        some (some item, { h with pools, cells := Function.update h.cells item (some {}) })
  else
    some (none, h)

-- Gives an item back to its pool, which is unmapped if that was its last one in use.
def poolPut (item : Nat) : List Pool → Option (Option Pool × List Pool)
  | [] => none
  | pool :: pools =>
    if pool.Owns item then do
      guard (itemSize ∣ item - pool.items)
      guard (0 < pool.used)
      if pool.used = 1 then
        some (some pool, pools)
      else
        some (none, { pool with used := pool.used - 1, unused := item :: pool.unused } :: pools)
    else
      (poolPut item pools).map fun (gone, pools) => (gone, pool :: pools)

def poolFree (item : Nat) (h : Heap) : Option Heap := do
  let (gone, pools) ← poolPut item h.pools
  let h := { h with pools, cells := Function.update h.cells item none }
  match gone with
  | some pool => some (munmap pool.base pool.length h)
  | none      => some h

def poolValid (item : Nat) (h : Heap) : Bool :=
  match h.pools.find? fun pool => pool.Owns item with
  | some pool => 0 < pool.used ∧ itemSize ∣ item - pool.items
  | none      => false

-- Guards, rings and neighbors of cells.

def secSizeToWords (length : Nat) : Nat :=
  (if length % wordSize ≠ 0 then 1 else 0) + length / wordSize

-- A guard word holds the address of the metadata.
def guardByte (cell i : Nat) : Byte :=
  .guard (UInt8.ofNat (cell / 256 ^ i))

def readWord (mem : Memory Byte) (word : Nat) : Nat :=
  mem.load (·.val.toNat) word wordSize

def writeGuard (mem : Memory Byte) (word cell : Nat) : Memory Byte :=
  mem.store word wordSize (guardByte cell)

def secWriteGuards (c : Nat) (h : Heap) : Option Heap := do
  let cell ← h.cells c
  let mem := writeGuard h.mem cell.words c
  let mem := writeGuard mem (cell.words + wordSize * (cell.nWords - 1)) c
  some { h with mem }

def secCheckGuards (c : Nat) (h : Heap) : Option Unit := do
  let cell ← h.cells c
  guard (readWord h.mem cell.words = c)
  guard (readWord h.mem (cell.words + wordSize * (cell.nWords - 1)) = c)

-- Both ring functions return the new value of `*ring`.
def secInsertCellRing (ring : Option Nat) (c : Nat) (cells : Cells) :
    Option (Option Nat × Cells) := do
  guard (ring ≠ some c)
  let cell ← cells c
  guard (cell.next = none)
  guard (cell.prev = none)
  let cells ←
    match ring with
    | some head => do
      -- Insert back into the mix of available memory
      let next ← cells.next head
      let cells ← cells.update c fun cell => { cell with next := some next, prev := some head }
      let cells ← cells.update next fun cell => { cell with prev := some c }
      cells.update head fun cell => { cell with next := some c }
    | none => cells.update c fun cell => { cell with next := some c, prev := some c }
  let next ← cells.next c
  let prev ← cells.prev c
  guard (cells.prev next = some c)
  guard (cells.next prev = some c)
  some (some c, cells)

def secRemoveCellRing (ring : Option Nat) (c : Nat) (cells : Cells) :
    Option (Option Nat × Cells) := do
  let head ← ring
  let next ← cells.next c
  let prev ← cells.prev c
  guard (cells.prev next = some c)
  guard (cells.next prev = some c)
  let ring ←
    if c = head then
      if next = c then do
        guard (prev = c)
        some none
      else do
        guard (prev ≠ c)
        some (some next)
    else
      some ring
  let cells ← cells.update next fun cell => { cell with prev := some prev }
  let cells ← cells.update prev fun cell => { cell with next := some next }
  let cells ← cells.update c fun cell => { cell with next := none, prev := none }
  guard (ring ≠ some c)
  some (ring, cells)

def secIsValidWord (block : Block) (word : Nat) : Prop :=
  block.words ≤ word ∧ word < block.last

instance (block : Block) (word : Nat) : Decidable (secIsValidWord block word) :=
  inferInstanceAs (Decidable (_ ∧ _))

-- Both neighbor functions return `some none` for `NULL`.
def secNeighborBefore (block : Block) (c : Nat) (h : Heap) : Option (Option Nat) := do
  let cell ← h.cells c
  let word := cell.words - wordSize
  if secIsValidWord block word then do
    let c := readWord h.mem word
    secCheckGuards c h
    some (some c)
  else
    some none

def secNeighborAfter (block : Block) (c : Nat) (h : Heap) : Option (Option Nat) := do
  let cell ← h.cells c
  if secIsValidWord block cell.last then do
    let c := readWord h.mem cell.last
    secCheckGuards c h
    some (some c)
  else
    some none

-- `sec_clear_undefined` and `sec_clear_noaccess`, which only differ in what they tell valgrind.
def secClear (memory start stop : Nat) (h : Heap) : Option Heap := do
  guard (start ≤ stop)
  some { h with mem := h.mem.fill (memory + start) (stop - start) .zero }

-- The metadata of an allocation is found through the guard in front of it.
def secLookup (block : Block) (memory : Nat) (h : Heap) : Option (Nat × Cell) := do
  let word := memory - wordSize
  guard (secIsValidWord block word)
  guard (poolValid (readWord h.mem word) h)
  let c := readWord h.mem word
  let cell ← h.cells c
  secCheckGuards c h
  some (c, cell)

end SecureMemory
