import GcrModel.Egg.SecureMemory.Alloc
import GcrModel.Library.Transition

-- The blocks, and the public functions on all of them.
namespace SecureMemory

def defaultBlockSize : Nat := 16384

-- The size that `sec_acquire_pages` rounds up to. The page size is a power of two.
def pagesFor (host : Host) (size : Nat) : Nat :=
  (size + host.pageSize - 1) / host.pageSize * host.pageSize

-- A failing `mlock` also makes this fail, without any other effect.
def secAcquirePages (host : Host) (size : Nat) (h : Heap) : Option Nat × Heap :=
  mmap host (pagesFor host size) h

def secBlockCreate (host : Host) (size : Nat) (s : State) : Option (Option Block × State) :=
  -- We can force all all memory to be malloced
  if host.forceFallback then
    some (none, s)
  else do
    match ← poolAlloc host s.heap with
    | (none, h)      => some (none, { s with heap := h })
    | (some item, h) => do
      match ← poolAlloc host h with
      | (none, h) => do
        let h ← poolFree item h
        some (none, { s with heap := h })
      | (some c, h) => do
        -- The size above is a minimum, we're free to go bigger
        let size := if size < defaultBlockSize then defaultBlockSize else size
        match secAcquirePages host size h with
        | (none, h) => do
          let h ← poolFree item h
          let h ← poolFree c h
          some (none, { s with heap := h })
        | (some words, h) => do
          let nWords := pagesFor host size / wordSize
          -- The first cell to allocate from
          let cells ← h.cells.update c fun cell => { cell with words, nWords, requested := 0 }
          let h ← secWriteGuards c { h with cells }
          let (unusedCells, cells) ← secInsertCellRing none c h.cells
          let block := { item, words, nWords, unusedCells : Block }
          some (some block, { heap := { h with cells }, blocks := block :: s.blocks })

-- Release all the meta data cells
def secReleaseCells : Nat → Option Nat → Heap → Option Heap
  | _, none, h => some h
  | 0, some _, _ => none
  | fuel + 1, some c, h => do
    let (ring, cells) ← secRemoveCellRing (some c) c h.cells
    let h ← poolFree c { h with cells }
    secReleaseCells fuel ring h

def secBlockDestroy (host : Host) (block : Block) (s : State) : Option State := do
  guard (block.nUsed = 0)
  -- Must have been found
  guard (block ∈ s.blocks)
  guard (block.usedCells = none)
  let h ← secReleaseCells block.nWords block.unusedCells s.heap
  -- Release all pages of secure memory
  guard (host.pageSize ∣ wordSize * block.nWords)
  let h := munmap block.words (wordSize * block.nWords) h
  let h ← poolFree block.item h
  some { heap := h, blocks := s.blocks.erase block }

-- The fallback allocator, which works like `realloc`. Its memory is no part of the secure blocks. An
-- answer that is no free range counts as `NULL`.
def fallbackAlloc (length : Nat) (h : Heap) : Option Nat × Heap :=
  match h.sys with
  | some base :: sys =>
    if Free h.maps base length then
      (some base, { h with maps := (base, length) :: h.maps, sys })
    else
      (none, { h with sys })
  | none :: sys => (none, { h with sys })
  | []          => (none, h)

def fallbackFree (memory : Nat) (h : Heap) : Heap :=
  match h.maps.find? fun r => r.1 = memory with
  | some (base, length) => munmap base length h
  | none                => h

def fallbackRealloc (memory length : Nat) (h : Heap) : Option Nat × Heap :=
  match fallbackAlloc length h with
  | (none, h)       => (none, h)
  | (some alloc, h) =>
    match h.maps.find? fun r => r.1 = memory with
    | some (_, previous) =>
      let h := { h with mem := h.mem.copy alloc memory (min previous length) }
      (some alloc, fallbackFree memory h)
    | none => (some alloc, h)

-- Tries the blocks in the order of `all_blocks`.
def allocFromBlocks (host : Host) (tag : String) (length : Nat) :
    List Block → Heap → Option (Option Nat × List Block × Heap)
  | [], h => some (none, [], h)
  | block :: blocks, h => do
    match ← secAlloc host block tag length h with
    | (some memory, block, h) => some (some memory, block :: blocks, h)
    | (none, block, h) => do
      let (memory, blocks, h) ← allocFromBlocks host tag length blocks h
      some (memory, block :: blocks, h)

-- The part of `egg_secure_alloc_full` under the lock.
def secureAlloc (host : Host) (tag : String) (length : Nat) (s : State) :
    Option (Option Nat × State) := do
  let (memory, blocks, h) ← allocFromBlocks host tag length s.blocks s.heap
  match memory with
  | some memory => some (some memory, { heap := h, blocks })
  -- None of the current blocks have space, allocate new
  | none =>
    match ← secBlockCreate host length { heap := h, blocks } with
    | (none, s)       => some (none, s)
    | (some block, s) => do
      let (memory, block, h) ← secAlloc host block tag length s.heap
      some (memory, { heap := h, blocks := block :: s.blocks.tail })

def insane (length : Nat) : Prop :=
  0xFFFFFFFF / 2 < length

instance (length : Nat) : Decidable (insane length) :=
  inferInstanceAs (Decidable (_ < _))

-- The argument `flags` is whether EGG_SECURE_USE_FALLBACK is set. The first component of the result is
-- `NULL` or the memory.
def eggSecureAllocFull (host : Host) (tag : Option String) (length : Nat) (flags : Bool) (s : State) :
    Option (Option Nat × State) :=
  if insane length then
    some (none, s)
  -- Can't allocate zero bytes
  else if length = 0 then
    some (none, s)
  else do
    let (memory, s) ← secureAlloc host (tag.getD "?") length s
    match memory with
    | some memory => some (some memory, s)
    | none =>
      if flags ∧ host.fallback then
        match fallbackAlloc length s.heap with
        | (none, h)        => some (none, { s with heap := h })
        -- Our returned memory is always zeroed
        | (some memory, h) =>
          some (some memory, { s with heap := { h with mem := h.mem.fill memory length .zero } })
      else
        some (none, s)

-- Finds the block of a pointer, and the list around it.
def findBlock (memory : Nat) (blocks : List Block) : Option Block :=
  blocks.find? fun block => secIsValidWord block memory

def putBlock (block block' : Block) (blocks : List Block) : List Block :=
  blocks.map fun b => if b = block then block' else b

def eggSecureFreeFull (host : Host) (memory : Nat) (flags : Bool) (s : State) : Option State :=
  if memory = 0 then
    some s
  else
    match findBlock memory s.blocks with
    | some block => do
      let (block', h) ← secFree block memory s.heap
      let s := { heap := h, blocks := putBlock block block' s.blocks }
      if block'.nUsed = 0 then secBlockDestroy host block' s else some s
    | none => do
      -- Memory does not belong to secure memory pool
      guard (flags ∧ host.fallback)
      some { s with heap := fallbackFree memory s.heap }

-- The part of `egg_secure_realloc_full` under the lock, for the block the memory belongs to.
def secureRealloc (host : Host) (tag : String) (block : Block) (memory length : Nat) (s : State) :
    Option (Option Nat × Nat × State) := do
  let previous ← secAllocated block memory s.heap
  let (alloc, block', h) ← secRealloc host block tag memory length s.heap
  let s := { heap := h, blocks := putBlock block block' s.blocks }
  let s ← if block'.nUsed = 0 then secBlockDestroy host block' s else some s
  some (alloc, previous, s)

def eggSecureReallocFull (host : Host) (tag : Option String) (memory length : Nat) (flags : Bool)
    (s : State) : Option (Option Nat × State) :=
  if insane length then
    some (none, s)
  else if memory = 0 then
    eggSecureAllocFull host tag length flags s
  else if length = 0 then do
    let s ← eggSecureFreeFull host memory flags s
    some (none, s)
  else
    match findBlock memory s.blocks with
    | none => do
      guard (flags ∧ host.fallback)
      let (alloc, h) := fallbackRealloc memory length s.heap
      some (alloc, { s with heap := h })
    | some block => do
      let (alloc, previous, s) ← secureRealloc host (tag.getD "?") block memory length s
      match alloc with
      | some alloc => some (some alloc, s)
      -- If it didn't work we may need to allocate a new block
      | none =>
        match ← eggSecureAllocFull host tag length flags s with
        | (none, s)       => some (none, s)
        | (some alloc, s) => do
          let h := { s.heap with mem := s.heap.mem.copy alloc memory previous }
          let s ← eggSecureFreeFull host memory flags { s with heap := h }
          some (some alloc, s)

def eggSecureValidate (s : State) : Option Unit :=
  s.blocks.forM fun block => secValidate block s.heap

-- `egg_secure_rec`
structure Record where
  tag           : Option String
  requestLength : Nat
  blockLength   : Nat

-- Lists the cells of a ring, and their words. The loop ends at the cell it started from.
def recordsForRing (cells : Cells) (ring : Option Nat) :
    Nat → Option Nat → Option (List Record × Nat)
  | _, none => some ([], 0)
  | 0, some _ => none
  | fuel + 1, some c => do
    let cell ← cells c
    let record := ⟨cell.tag, cell.requested, cell.nWords * wordSize⟩
    let (records, total) ←
      if cell.next = ring then some ([], 0) else recordsForRing cells ring fuel cell.next
    some (record :: records, cell.nWords + total)

-- The `total` is an `unsigned int`. The growing of the array does not fail here.
def eggSecureRecords (s : State) : Option (List Record) :=
  s.blocks.foldlM (fun records block => do
    let fuel := block.nWords + 1
    let (unused, n) ← recordsForRing s.heap.cells block.unusedCells fuel block.unusedCells
    let (used, m) ← recordsForRing s.heap.cells block.usedCells fuel block.usedCells
    -- Make sure this actualy accounts for all memory
    guard ((n + m) % 2 ^ 32 = block.nWords)
    some (records ++ unused ++ used)) []

-- A process that uses the allocator: it calls the public functions and writes into what it got.

-- The state of the process, with the address and the length of every allocation that it holds.
structure Client where
  state : State
  live  : List (Nat × Nat)

inductive Call
  | alloc (tag : Option String) (length : Nat) (flags : Bool)
  | realloc (tag : Option String) (memory length : Nat) (flags : Bool)
  | free (memory : Nat) (flags : Bool)
  deriving DecidableEq, Repr

namespace Call

def run (host : Host) : Call → State → Option (Option Nat × State)
  | alloc tag length flags, s          => eggSecureAllocFull host tag length flags s
  | realloc tag memory length flags, s => eggSecureReallocFull host tag memory length flags s
  | free memory flags, s               => do
    let s ← eggSecureFreeFull host memory flags s
    some (none, s)

-- The pointers that are passed are NULL or those of allocations. Memory that `egg_secure_check` says
-- no to needs the flag for the fallback.
def Allowed (client : Client) : Call → Prop
  | alloc .. => True
  | realloc _ memory _ flags | free memory flags =>
    memory = 0 ∨ (∃ n, (memory, n) ∈ client.live) ∧
      (findBlock memory client.state.blocks = none → flags)

instance (live : List (Nat × Nat)) (memory : Nat) : Decidable (∃ n, (memory, n) ∈ live) :=
  decidable_of_iff (memory ∈ live.map Prod.fst) (by simp)

instance (client : Client) : (call : Call) → Decidable (call.Allowed client)
  | alloc ..   => isTrue trivial
  | realloc .. => inferInstanceAs (Decidable (_ ∨ _ ∧ (_ → _)))
  | free ..    => inferInstanceAs (Decidable (_ ∨ _ ∧ (_ → _)))

-- The allocations after a call, by its result.
def live (result : Option Nat) (live : List (Nat × Nat)) : Call → List (Nat × Nat)
  | alloc _ length _ => (result.toList.map fun p => (p, length)) ++ live
  | free memory _    => live.filter fun a => a.1 ≠ memory
  | realloc _ memory length _ =>
    match result with
    | some p => (p, length) :: live.filter fun a => a.1 ≠ memory
    | none   => if length = 0 then live.filter fun a => a.1 ≠ memory else live

end Call

inductive Event
  | call (call : Call) (result : Option Nat)
  | write (address : Nat) (val : UInt8)
  deriving DecidableEq, Repr

def Client.write (client : Client) (address : Nat) (val : UInt8) : Client where
  state := { client.state with heap := { client.state.heap with
    mem := Function.update client.state.heap.mem address (.client val) } }
  live  := client.live

def Client.Initial (client : Client) : Prop :=
  ∃ sys, client = ⟨.initial sys, []⟩

inductive Client.Step (host : Host) : Client → Event → Client → Prop
  | call {client : Client} {call : Call} {result : Option Nat} {s : State} : call.Allowed client →
    call.run host client.state = some (result, s) →
    Step host client (.call call result) ⟨s, call.live result client.live⟩
  | write {client : Client} {a : Nat × Nat} {address : Nat} {val : UInt8} : a ∈ client.live →
    address ∈ Memory.range a.1 a.2 →
    Step host client (.write address val) (client.write address val)

def Client.Run (host : Host) : List (Client × Event × Client) → Client → Prop :=
  Transition.Run Initial (Step host)

def Client.Reachable (host : Host) : Client → Prop :=
  Transition.Reachable Initial (Step host)

-- The client after an event, if the event can happen.
def Client.after (host : Host) (client : Client) : Event → Option Client
  | .call call result => do
    guard (call.Allowed client)
    let (result', s) ← call.run host client.state
    guard (result' = result)
    some ⟨s, call.live result client.live⟩
  | .write address val => do
    guard (∃ a ∈ client.live, a.1 ≤ address ∧ address < a.1 + a.2)
    some (client.write address val)

end SecureMemory
