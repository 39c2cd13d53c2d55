import GcrModel.Egg.SecureMemory.Pool

-- Allocations inside of a block: `sec_alloc`, `sec_free`, `sec_realloc` and the checks on a block.
-- Loops get as much fuel as the block has words. Running out of it is an error.
namespace SecureMemory

-- The amount of extra words we can allocate
def waste : Nat := 4

-- The search of `sec_alloc`: walks the ring until a cell is large enough or the head comes again.
def secFind (cells : Cells) (head nWords : Nat) : Nat → Nat → Option (Option Nat)
  | 0, _ => none
  | fuel + 1, c => do
    let cell ← cells c
    if cell.nWords < nWords then do
      let next ← cell.next
      if next = head then some none else secFind cells head nWords fuel next
    else
      some (some c)

-- Cuts the first `n` words off the unused cell `c` as a cell of their own, which is `other`.
def secSplit (c other nWords : Nat) (h : Heap) : Option Heap := do
  let cell ← h.cells c
  let cells ← h.cells.update other fun other => { other with nWords, words := cell.words }
  let cells ← cells.update c fun cell => { cell with
    nWords := cell.nWords - nWords
    words  := cell.words + wordSize * nWords
  }
  let h ← secWriteGuards other { h with cells }
  secWriteGuards c h

-- The end of `sec_alloc`: takes over the cell `c`.
def secTake (block : Block) (tag : String) (length c : Nat) (h : Heap) :
    Option (Nat × Block × Heap) := do
  let cell ← h.cells c
  let (unusedCells, cells) ←
    if cell.next ≠ none then
      secRemoveCellRing block.unusedCells c h.cells
    else
      some (block.unusedCells, h.cells)
  let cells ← cells.update c fun cell => { cell with tag := some tag, requested := length }
  let (usedCells, cells) ← secInsertCellRing block.usedCells c cells
  let memory := cell.words + wordSize
  let h := { h with cells, mem := h.mem.fill memory length .zero }
  some (memory, { block with nUsed := block.nUsed + 1, unusedCells, usedCells }, h)

def secAlloc (host : Host) (block : Block) (tag : String) (length : Nat) (h : Heap) :
    Option (Option Nat × Block × Heap) := do
  guard (length ≠ 0)
  match block.unusedCells with
  | none => some (none, block, h)
  | some head =>
    let nWords := secSizeToWords length + 2
    -- Look for a cell of at least our required size
    match ← secFind h.cells head nWords (block.nWords + 1) head with
    | none => some (none, block, h)
    | some c => do
      let cell ← h.cells c
      guard (cell.tag = none)
      guard (cell.requested = 0)
      guard (cell.prev ≠ none)
      secCheckGuards c h
      -- Steal from the cell if it's too long
      if nWords + waste < cell.nWords then
        match ← poolAlloc host h with
        | (none, h)       => some (none, block, h)
        | (some other, h) => do
          let h ← secSplit c other nWords h
          let (memory, block, h) ← secTake block tag length other h
          some (some memory, block, h)
      else do
        let (memory, block, h) ← secTake block tag length c h
        some (some memory, block, h)

-- Find previous unallocated neighbor, and merge if possible
def secMergeBefore (block : Block) (c : Nat) (h : Heap) : Option (Nat × Heap) := do
  let cell ← h.cells c
  match ← secNeighborBefore block c h with
  | none => some (c, h)
  | some other => do
    let before ← h.cells other
    if before.requested = 0 then do
      guard (before.tag = none)
      guard (before.next ≠ none ∧ before.prev ≠ none)
      let cells ← h.cells.update other fun other =>
        { other with nWords := other.nWords + cell.nWords }
      let h ← secWriteGuards other { h with cells }
      let h ← poolFree c h
      some (other, h)
    else
      some (c, h)

-- Find next unallocated neighbor, and merge if possible
def secMergeAfter (block : Block) (c : Nat) (h : Heap) : Option (Nat × Block × Heap) := do
  let cell ← h.cells c
  match ← secNeighborAfter block c h with
  | none => some (c, block, h)
  | some other => do
    let after ← h.cells other
    if after.requested = 0 then do
      guard (after.tag = none)
      guard (after.next ≠ none ∧ after.prev ≠ none)
      let cells ← h.cells.update other fun other =>
        { other with nWords := other.nWords + cell.nWords, words := cell.words }
      let (unusedCells, cells) ←
        if cell.next ≠ none then
          secRemoveCellRing block.unusedCells c cells
        else
          some (block.unusedCells, cells)
      let h ← secWriteGuards other { h with cells }
      let h ← poolFree c h
      some (other, { block with unusedCells }, h)
    else
      some (c, block, h)

def secFree (block : Block) (memory : Nat) (h : Heap) : Option (Block × Heap) := do
  let (c, cell) ← secLookup block memory h
  let h ← secClear memory 0 cell.requested h
  secCheckGuards c h
  guard (0 < cell.requested)
  guard (cell.tag ≠ none)
  -- Remove from the used cell ring
  let (usedCells, cells) ← secRemoveCellRing block.usedCells c h.cells
  let block := { block with usedCells }
  let (c, h) ← secMergeBefore block c { h with cells }
  let (c, block, h) ← secMergeAfter block c h
  -- Add to the unused list if not already there
  let cell ← h.cells c
  let (unusedCells, cells) ←
    if cell.next = none then
      secInsertCellRing block.unusedCells c h.cells
    else
      some (block.unusedCells, h.cells)
  let cells ← cells.update c fun cell => { cell with tag := none, requested := 0 }
  some ({ block with nUsed := block.nUsed - 1, unusedCells }, { h with cells })

-- The loop of `sec_realloc`: grows the cell `c` into unused neighbors until it has enough words.
def secGrow (c nWords : Nat) : Nat → Block → Heap → Option (Block × Heap)
  | 0, _, _ => none
  | fuel + 1, block, h => do
    let cell ← h.cells c
    if cell.nWords < nWords then
      -- See if we have a neighbor who can give us some memory
      match ← secNeighborAfter block c h with
      | none => some (block, h)
      | some other => do
        let after ← h.cells other
        if after.requested ≠ 0 then
          some (block, h)
        -- Eat the whole neighbor if not too big
        else if after.nWords ≤ nWords - cell.nWords + waste then do
          let cells ← h.cells.update c fun cell =>
            { cell with nWords := cell.nWords + after.nWords }
          let h ← secWriteGuards c { h with cells }
          let (unusedCells, cells) ← secRemoveCellRing block.unusedCells other h.cells
          let h ← poolFree other { h with cells }
          secGrow c nWords fuel { block with unusedCells } h
        -- Steal from the neighbor
        else do
          let cells ← h.cells.update other fun other => { other with
            words  := other.words + wordSize * (nWords - cell.nWords)
            nWords := other.nWords - (nWords - cell.nWords)
          }
          let h ← secWriteGuards other { h with cells }
          let cells ← h.cells.update c fun cell => { cell with nWords }
          let h ← secWriteGuards c { h with cells }
          secGrow c nWords fuel block h
    else
      some (block, h)

def secRealloc (host : Host) (block : Block) (tag : String) (memory length : Nat) (h : Heap) :
    Option (Option Nat × Block × Heap) := do
  guard (0 < length)
  let (c, cell) ← secLookup block memory h
  guard (0 < cell.requested)
  guard (cell.tag ≠ none)
  -- The amount of valid data
  let valid := cell.requested
  -- How many words we actually want
  let nWords := secSizeToWords length + 2
  -- Less memory is required than is in the cell
  if nWords ≤ cell.nWords then do
    let cells ← h.cells.update c fun cell => { cell with requested := length }
    let h := { h with cells }
    let alloc := cell.words + wordSize
    let h ← if length < valid then secClear alloc length valid h else some h
    some (some alloc, block, h)
  else do
    let (block, h) ← secGrow c nWords (block.nWords + 1) block h
    let cell ← h.cells c
    if nWords ≤ cell.nWords then do
      let cells ← h.cells.update c fun cell => { cell with requested := length, tag := some tag }
      let alloc := cell.words + wordSize
      let h ← secClear alloc valid length { h with cells }
      some (some alloc, block, h)
    -- That didn't work, try alloc/free
    else
      match ← secAlloc host block tag length h with
      | (none, block, h)       => some (none, block, h)
      | (some alloc, block, h) => do
        let h := { h with mem := h.mem.copy alloc memory valid }
        let (block, h) ← secFree block memory h
        some (some alloc, block, h)

def secAllocated (block : Block) (memory : Nat) (h : Heap) : Option Nat := do
  let (_, cell) ← secLookup block memory h
  guard (0 < cell.requested)
  guard (cell.tag ≠ none)
  some cell.requested

-- One round of `sec_validate`.
def secValidateCell (block : Block) (word : Nat) (h : Heap) : Option Cell := do
  guard (word < block.last)
  guard (secIsValidWord block word)
  guard (poolValid (readWord h.mem word) h)
  let c := readWord h.mem word
  let cell ← h.cells c
  secCheckGuards c h
  guard (if 0 < cell.requested then cell.tag ≠ none else cell.tag = none)
  let next ← cell.next
  let prev ← cell.prev
  guard (h.cells.prev next = some c)
  guard (h.cells.next prev = some c)
  if 0 < cell.requested then
    guard (cell.requested ≤ (cell.nWords - 2) * wordSize)
  some cell

def secValidateFrom (block : Block) (h : Heap) : Nat → Nat → Option Unit
  | 0, _ => none
  | fuel + 1, word => do
    let cell ← secValidateCell block word h
    let word := word + wordSize * cell.nWords
    if word = block.last then some () else secValidateFrom block h fuel word

def secValidate (block : Block) (h : Heap) : Option Unit :=
  secValidateFrom block h (block.nWords + 1) block.words

end SecureMemory
