import GcrModel.Egg.SecureMemory.Theorems.Client

-- Blocks that are created for an allocation.
namespace SecureMemory

-- The size that is asked for, which is made larger, and the words that there are in the end.
def blockSize (length : Nat) : Nat :=
  if length < defaultBlockSize then defaultBlockSize else length

def freshWords (host : Host) (length : Nat) : Nat :=
  pagesFor host (blockSize length) / wordSize

def freeItems (pools : List Pool) : Nat :=
  (pools.map fun pool => pool.unused.length).sum

-- When a new block has room for what it is created for: with the two guards, and with an item of the pool for what is left
-- of it. The pool has none if the block itself and its first cell were given the last two.
structure Suffices (host : Host) (length : Nat) (h : Heap) : Prop where
  words : secSizeToWords length + 2 ≤ freshWords host length
  item  : secSizeToWords length + 2 + waste < freshWords host length → freeItems h.pools = 2 →
    (mmap host (host.pageSize * 2) (secAcquirePages host (blockSize length) h).2).1 ≠ none

-- The metadata and the pages of a block are there.
def Acquired (host : Host) (length : Nat) (h : Heap) : Prop :=
  ∃ item c words h₁ h₂ h₃, poolAlloc host h = some (some item, h₁) ∧ poolAlloc host h₁ = some (some c, h₂) ∧
    secAcquirePages host (blockSize length) h₂ = (some words, h₃)

-- What a block looks like that has just been created with the first cell `c`, when its pages were there.
structure Created (host : Host) (length c : Nat) (h : Heap) (block : Block) (s : State) : Prop where
  pools    : s.heap.pools = h.pools
  sys      : s.heap.sys = h.sys
  maps     : s.heap.maps = h.maps
  unused   : block.unusedCells = some c
  nUsed    : block.nUsed = 0
  metadata : ∃ cell, s.heap.cells c = some cell ∧ cell.nWords = freshWords host length ∧ cell.next = some c

-- What an allocation is to do under the lock: a new block serves it, and it is refused only when there is no new block.
structure Served (host : Host) (tag : String) (length : Nat) (s : State) : Prop where
  fresh   : ∀ blocks h block s', allocFromBlocks host tag length s.blocks s.heap = some (none, blocks, h) →
    secBlockCreate host length ⟨h, blocks⟩ = some (some block, s') →
    ∃ memory block' h', secAlloc host block tag length s'.heap = some (some memory, block', h')
  refused : ∀ blocks h s', allocFromBlocks host tag length s.blocks s.heap = some (none, blocks, h) →
    secureAlloc host tag length s = some (none, s') → host.forceFallback ∨ ¬Acquired host length h

-- The allocation under the lock that a call comes to.
def Call.request (host : Host) : Call → State → Option (String × Nat × State)
  | alloc tag length _, s => if insane length ∨ length = 0 then none else some (tag.getD "?", length, s)
  | realloc tag memory length _, s =>
    if insane length ∨ length = 0 then none
    else if memory = 0 then some (tag.getD "?", length, s)
    else
      match (findBlock memory s.blocks).bind fun block => secureRealloc host (tag.getD "?") block memory length s with
      | some (none, _, s') => some (tag.getD "?", length, s')
      | _                  => none
  | free .., _ => none

def Event.request (host : Host) : Event → State → Option (String × Nat × State)
  | .call made _, s => made.request host s
  | .write .., _    => none

def AllUsed (blocks : List Block) : Prop :=
  ∀ block ∈ blocks, 0 < block.nUsed

structure ServesFresh (host : Host) (client : Client) (event : Event) (client' : Client) : Prop where
  served : ∀ tag length s, event.request host client.state = some (tag, length, s) → Served host tag length s
  used   : AllUsed client'.state.blocks

-- If it takes a new block, it is one that suffices.
def FreshSuffices (host : Host) (client : Client) (event : Event) : Prop :=
  ∀ tag length s blocks h block s', event.request host client.state = some (tag, length, s) →
    allocFromBlocks host tag length s.blocks s.heap = some (none, blocks, h) →
    secBlockCreate host length ⟨h, blocks⟩ = some (some block, s') → Suffices host length h

end SecureMemory

namespace SecureMemory

variable {host : Host} {h h' : Heap} {block block' : Block} {blocks blocks' : List Block} {s s' : State} {tag : String}
variable {length memory c n item : Nat} {pools pools' : List Pool} {r : Option Nat} {cell : Cell}

theorem poolTake_freeItems (htake : poolTake pools = some (item, pools')) : freeItems pools = freeItems pools' + 1 := by
  induction pools generalizing pools' with
  | nil => cases htake
  | cons pool pools ih =>
    rw [poolTake] at htake
    split at htake
    case h_1 heq =>
      cases htake
      simp only [freeItems, List.map_cons, List.sum_cons, heq, List.length_cons]
      omega
    case h_2 heq =>
      obtain ⟨⟨_, rest⟩, hrest, heq'⟩ := Option.map_eq_some_iff.mp htake
      cases heq'
      have := ih hrest
      simp only [freeItems, List.map_cons, List.sum_cons] at this ⊢
      omega

theorem poolTake_eq_none (htake : poolTake pools = none) : freeItems pools = 0 := by
  induction pools with
  | nil => rfl
  | cons pool pools ih =>
    rw [poolTake] at htake
    split at htake
    case h_1 => cases htake
    case h_2 heq =>
      have := ih (Option.map_eq_none_iff.mp htake)
      simp only [freeItems, List.map_cons, List.sum_cons, heq, List.length_nil] at this ⊢
      omega

theorem mmap_pools (host : Host) (n : Nat) (h : Heap) : (mmap host n h).2.pools = h.pools := by
  rw [mmap]
  split
  case h_1 => split <;> rfl
  case h_2 => rfl
  case h_3 => rfl

-- What the kernel answers depends on what it is going to answer and on the mappings.
theorem mmap_congr (hsys : h.sys = h'.sys) (hmaps : h.maps = h'.maps) :
    (mmap host n h).1 = (mmap host n h').1 ∧ (mmap host n h).2.sys = (mmap host n h').2.sys ∧
      (mmap host n h).2.maps = (mmap host n h').2.maps := by
  rw [mmap, mmap, hsys, hmaps]
  split
  case h_1 => split <;> exact ⟨rfl, rfl, rfl⟩
  case h_2 => exact ⟨rfl, rfl, rfl⟩
  case h_3 => exact ⟨rfl, hsys, hmaps⟩

theorem poolNew_freeItems (base length : Nat) :
    freeItems [poolNew base length] = (length - (poolHeader + itemSize)) / itemSize := by
  simp [freeItems, poolNew]

-- An item comes from a pool that has one, or from a new pool.
theorem poolAlloc_freeItems (halloc : poolAlloc host h = some (some item, h')) : host.poolVersion ∧
    (freeItems h.pools = freeItems h'.pools + 1 ∧ h'.sys = h.sys ∧ h'.maps = h.maps ∨
      freeItems h.pools = 0 ∧ 2 ≤ freeItems h'.pools) := by
  rw [poolAlloc] at halloc
  split at halloc
  case isFalse => cases halloc
  case isTrue hversion =>
    refine ⟨hversion, ?_⟩
    split at halloc
    case h_1 htake =>
      cases halloc
      exact .inl ⟨poolTake_freeItems htake, rfl, rfl⟩
    case h_2 htake =>
      split at halloc
      case h_1 => cases halloc
      case h_2 base h₁ hmmap =>
        obtain ⟨⟨_, rest⟩, htake', heq⟩ := Option.bind_eq_some_iff.mp halloc
        cases heq
        have hpools : h₁.pools = h.pools := by
          rw [← mmap_pools host (host.pageSize * 2) h, hmmap]
        have hfree := poolTake_freeItems htake'
        have hnew := poolNew_freeItems base (host.pageSize * 2)
        have hnone := poolTake_eq_none htake
        have hge := host.pageSize_ge
        simp only [freeItems, List.map_cons, List.sum_cons, List.map_nil, List.sum_nil, hpools, itemSize, poolHeader] at *
        exact .inr ⟨hnone, by omega⟩

-- There is no item if all are in use and the kernel has no pages.
theorem poolAlloc_none_iff (hversion : host.poolVersion) : (∃ h', poolAlloc host h = some (none, h')) ↔
    freeItems h.pools = 0 ∧ (mmap host (host.pageSize * 2) h).1 = none := by
  rw [poolAlloc, if_pos hversion]
  constructor
  · rintro ⟨h', halloc⟩
    split at halloc
    case h_1 => cases halloc
    case h_2 htake =>
      refine ⟨poolTake_eq_none htake, ?_⟩
      split at halloc
      case h_1 hmmap => rw [hmmap]
      case h_2 =>
        obtain ⟨_, -, heq⟩ := Option.bind_eq_some_iff.mp halloc
        cases heq
  · rintro ⟨hfree, hmmap⟩
    split
    case h_1 htake => exact absurd (poolTake_freeItems htake) (by omega)
    case h_2 =>
      split
      case h_1 h₁ _ => exact ⟨h₁, rfl⟩
      case h_2 heq =>
        rw [heq] at hmmap
        cases hmmap

theorem insertCell_alone {cells cells' : Cells} {ring : Option Nat} (hcell : cells c = some cell)
    (hins : secInsertCellRing none c cells = some (ring, cells')) :
    ring = some c ∧ cells' c = some { cell with next := some c, prev := some c } := by
  simp only [secInsertCellRing, hcell, Option.bind_eq_bind, Option.bind_some, Option.bind_eq_some_iff] at hins
  obtain ⟨-, -, -, -, -, -, cells₁, hup, _, -, _, -, -, -, -, -, heq⟩ := hins
  obtain ⟨rfl, rfl⟩ := Prod.mk.inj (Option.some.inj heq)
  rw [Cells.update_eq hcell] at hup
  cases hup
  exact ⟨rfl, Function.update_self ..⟩

-- Only the memory changes.
theorem secWriteGuards_frame (hguards : secWriteGuards c h = some h') : ∃ mem, h' = { h with mem } := by
  obtain ⟨_, -, heq⟩ := Option.bind_eq_some_iff.mp hguards
  exact ⟨_, (Option.some.inj heq).symm⟩

-- Something is missing when there is no new block.
theorem secBlockCreate_cases {new : Option Block} (hcreate : secBlockCreate host length ⟨h, blocks⟩ = some (new, s')) :
    (new = none ∧ s'.blocks = blocks ∧ (host.forceFallback ∨ ¬Acquired host length h)) ∨
    ∃ block, new = some block ∧ s'.blocks = block :: blocks ∧ ∃ item c words h₁ h₂ h₃,
      poolAlloc host h = some (some item, h₁) ∧ poolAlloc host h₁ = some (some c, h₂) ∧
      secAcquirePages host (blockSize length) h₂ = (some words, h₃) ∧ Created host length c h₃ block s' := by
  rw [secBlockCreate] at hcreate
  split at hcreate
  case isTrue hforce =>
    cases hcreate
    exact .inl ⟨rfl, rfl, .inl hforce⟩
  case isFalse =>
    obtain ⟨⟨first, h₁⟩, hitem, hcreate⟩ := Option.bind_eq_some_iff.mp hcreate
    split at hcreate
    case h_1 heq =>
      cases heq
      cases hcreate
      refine .inl ⟨rfl, rfl, .inr ?_⟩
      rintro ⟨_, _, _, _, _, _, hitem', -⟩
      cases hitem.symm.trans hitem'
    case h_2 item h₁ heq =>
      cases heq
      obtain ⟨⟨second, h₂⟩, hsecond, hcreate⟩ := Option.bind_eq_some_iff.mp hcreate
      split at hcreate
      case h_1 heq =>
        cases heq
        obtain ⟨_, -, hnone⟩ := Option.bind_eq_some_iff.mp hcreate
        cases hnone
        refine .inl ⟨rfl, rfl, .inr ?_⟩
        rintro ⟨_, _, _, _, _, _, hitem', hcell, -⟩
        cases hitem.symm.trans hitem'
        cases hsecond.symm.trans hcell
      case h_2 c h₂ heq =>
        cases heq
        dsimp only at hcreate
        split at hcreate
        case h_1 hpages =>
          obtain ⟨_, -, hcreate⟩ := Option.bind_eq_some_iff.mp hcreate
          obtain ⟨_, -, hnone⟩ := Option.bind_eq_some_iff.mp hcreate
          cases hnone
          refine .inl ⟨rfl, rfl, .inr ?_⟩
          rintro ⟨_, _, _, _, _, _, hitem', hcell, hwords⟩
          cases hitem.symm.trans hitem'
          cases hsecond.symm.trans hcell
          cases hpages.symm.trans hwords
        case h_2 words h₃ hpages =>
          simp only [Option.bind_eq_bind, Option.bind_eq_some_iff] at hcreate
          obtain ⟨cells, hup, h₄, hguards, ⟨ring, cells'⟩, hins, heq⟩ := hcreate
          obtain ⟨cell, -, hcells⟩ := Option.map_eq_some_iff.mp hup
          obtain ⟨mem, rfl⟩ := secWriteGuards_frame hguards
          have hfirst : cells c = some _ := hcells ▸ Function.update_self ..
          obtain ⟨rfl, hcell⟩ := insertCell_alone hfirst hins
          cases heq
          exact .inr ⟨_, rfl, rfl, item, c, words, h₁, h₂, h₃, hitem, hsecond, hpages, rfl, rfl, rfl, rfl, rfl, _, hcell,
            rfl, rfl⟩

-- One allocation more is counted, if there is one.
theorem secTake_nUsed {heap heap' : Heap} (htake : secTake block tag length c heap = some (memory, block', heap')) :
    block'.nUsed = block.nUsed + 1 := by
  obtain ⟨_, -, htake⟩ := Option.bind_eq_some_iff.mp htake
  split at htake
  all_goals
    simp only [Option.bind_eq_bind, Option.bind_eq_some_iff] at htake
    obtain ⟨⟨_, _⟩, -, _, -, ⟨_, _⟩, -, heq⟩ := htake
    cases heq
    rfl

theorem secAlloc_nUsed (halloc : secAlloc host block tag length h = some (r, block', h')) :
    block'.nUsed = block.nUsed + if r.isSome then 1 else 0 := by
  obtain ⟨_, -, halloc⟩ := Option.bind_eq_some_iff.mp halloc
  split at halloc
  case h_1 =>
    cases halloc
    rfl
  case h_2 =>
    obtain ⟨found, -, halloc⟩ := Option.bind_eq_some_iff.mp halloc
    split at halloc
    case h_1 =>
      cases halloc
      rfl
    case h_2 =>
      simp only [Option.bind_eq_bind, Option.bind_eq_some_iff] at halloc
      obtain ⟨cell, -, _, -, _, -, _, -, _, -, halloc⟩ := halloc
      split at halloc
      case isTrue =>
        obtain ⟨⟨item, h₁⟩, -, halloc⟩ := Option.bind_eq_some_iff.mp halloc
        split at halloc
        case h_1 =>
          cases halloc
          rfl
        case h_2 =>
          simp only [Option.bind_eq_some_iff] at halloc
          obtain ⟨_, -, ⟨_, _, _⟩, htake, heq⟩ := halloc
          cases heq
          exact secTake_nUsed htake
      case isFalse =>
        obtain ⟨⟨_, _, _⟩, htake, heq⟩ := Option.bind_eq_some_iff.mp halloc
        cases heq
        exact secTake_nUsed htake

-- The only cell of a block is taken if it is large enough, and if there is an item for what is left of it.
theorem secAlloc_alone (hunused : block.unusedCells = some c) (hcell : h.cells c = some cell) (hnext : cell.next = some c)
    (halloc : secAlloc host block tag length h = some (r, block', h')) : r = none ↔
      cell.nWords < secSizeToWords length + 2 ∨
        secSizeToWords length + 2 + waste < cell.nWords ∧ ∃ h', poolAlloc host h = some (none, h') := by
  have hfind : secFind h.cells c (secSizeToWords length + 2) (block.nWords + 1) c =
      some (if cell.nWords < secSizeToWords length + 2 then none else some c) := by
    rw [secFind, hcell, Option.bind_eq_bind, Option.bind_some]
    split
    case isTrue => rw [hnext, Option.bind_eq_bind, Option.bind_some, if_pos rfl]
    case isFalse => rfl
  obtain ⟨_, -, halloc⟩ := Option.bind_eq_some_iff.mp halloc
  rw [hunused] at halloc
  dsimp only at halloc
  rw [hfind, Option.bind_eq_bind, Option.bind_some] at halloc
  by_cases hlt : cell.nWords < secSizeToWords length + 2
  case pos =>
    rw [if_pos hlt] at halloc
    cases halloc
    exact iff_of_true rfl (.inl hlt)
  case neg =>
    rw [if_neg hlt] at halloc
    dsimp only at halloc
    rw [hcell] at halloc
    simp only [Option.bind_eq_bind, Option.bind_eq_some_iff, Option.some.injEq, exists_eq_left'] at halloc
    obtain ⟨_, -, _, -, _, -, _, -, halloc⟩ := halloc
    rw [or_iff_right hlt]
    split at halloc
    case isTrue hlong =>
      rw [and_iff_right hlong]
      obtain ⟨⟨item, h₁⟩, hitem, halloc⟩ := Option.bind_eq_some_iff.mp halloc
      split at halloc
      case h_1 heq =>
        cases heq
        cases halloc
        exact iff_of_true rfl ⟨_, hitem⟩
      case h_2 heq =>
        cases heq
        simp only [Option.bind_eq_some_iff] at halloc
        obtain ⟨_, -, ⟨_, _, _⟩, -, heq⟩ := halloc
        cases heq
        refine iff_of_false (by rintro ⟨⟩) ?_
        rintro ⟨_, hnone⟩
        cases hitem.symm.trans hnone
    case isFalse hshort =>
      obtain ⟨⟨_, _, _⟩, -, heq⟩ := Option.bind_eq_some_iff.mp halloc
      cases heq
      exact iff_of_false (by rintro ⟨⟩) fun hlong => hshort hlong.1

theorem secAlloc_created {h₁ h₂ h₃ : Heap} {words : Nat} (hitem : poolAlloc host h = some (some item, h₁))
    (hcell : poolAlloc host h₁ = some (some c, h₂))
    (hpages : secAcquirePages host (blockSize length) h₂ = (some words, h₃)) (hnew : Created host length c h₃ block s')
    (halloc : secAlloc host block tag length s'.heap = some (r, block', h')) : r ≠ none ↔ Suffices host length h := by
  obtain ⟨cell, hdata, hwords, hnext⟩ := hnew.metadata
  obtain ⟨hversion, hfirst⟩ := poolAlloc_freeItems hitem
  obtain ⟨-, hsecond⟩ := poolAlloc_freeItems hcell
  have hsys₃ : h₃.sys = (mmap host (pagesFor host (blockSize length)) h₂).2.sys := by rw [← secAcquirePages, hpages]
  have hmaps₃ : h₃.maps = (mmap host (pagesFor host (blockSize length)) h₂).2.maps := by rw [← secAcquirePages, hpages]
  have hpools : s'.heap.pools = h₂.pools := by
    rw [hnew.pools, ← mmap_pools host (pagesFor host (blockSize length)) h₂, ← secAcquirePages, hpages]
  -- The block and its cell take the last two items, or there are more of them.
  have hnone : freeItems h₂.pools = 0 ↔ freeItems h.pools = 2 := by omega
  have hmmap : freeItems h.pools = 2 → (mmap host (host.pageSize * 2) s'.heap).1 =
      (mmap host (host.pageSize * 2) (secAcquirePages host (blockSize length) h).2).1 := by
    intro htwo
    obtain ⟨-, hsys₁, hmaps₁⟩ := hfirst.resolve_right (by omega)
    obtain ⟨-, hsys₂, hmaps₂⟩ := hsecond.resolve_right (by omega)
    obtain ⟨-, hsys, hmaps⟩ := @mmap_congr host h₂ h (pagesFor host (blockSize length)) (hsys₂.trans hsys₁)
      (hmaps₂.trans hmaps₁)
    exact (mmap_congr (hnew.sys.trans (hsys₃.trans hsys)) (hnew.maps.trans (hmaps₃.trans hmaps))).1
  rw [ne_eq, secAlloc_alone hnew.unused hdata hnext halloc, hwords, poolAlloc_none_iff hversion, hpools, hnone]
  constructor
  · intro hne
    obtain ⟨hroom, hitem⟩ := not_or.mp hne
    refine ⟨Nat.not_lt.mp hroom, fun hlong htwo hnull => hitem ⟨hlong, htwo, ?_⟩⟩
    rw [hmmap htwo, hnull]
  · rintro ⟨hroom, hitem⟩ (hlt | ⟨hlong, htwo, hnull⟩)
    · exact absurd hlt (Nat.not_lt.mpr hroom)
    · exact hitem hlong htwo (hmmap htwo ▸ hnull)

-- A new block serves what it was created for if and only if it suffices.
theorem served_iff {result : Option Nat × State} (hresult : secureAlloc host tag length s = some result) :
    Served host tag length s ↔ ∀ blocks h block s', allocFromBlocks host tag length s.blocks s.heap = some (none, blocks, h) →
      secBlockCreate host length ⟨h, blocks⟩ = some (some block, s') → Suffices host length h := by
  constructor
  · intro hserved blocks h block s' hblocks hcreate
    obtain ⟨memory, block', h', halloc⟩ := hserved.fresh blocks h block s' hblocks hcreate
    obtain ⟨⟨⟩, -⟩ | ⟨_, ⟨⟩, -, item, c, words, h₁, h₂, h₃, hitem, hcell, hpages, hnew⟩ := secBlockCreate_cases hcreate
    exact (secAlloc_created hitem hcell hpages hnew halloc).mp nofun
  · intro hsuffices
    constructor
    case fresh =>
      intro blocks h block s' hblocks hcreate
      simp only [secureAlloc, hblocks, hcreate, Option.bind_eq_bind, Option.bind_some, Option.bind_eq_some_iff] at hresult
      obtain ⟨⟨r, block', h'⟩, halloc, -⟩ := hresult
      obtain ⟨⟨⟩, -⟩ | ⟨_, ⟨⟩, -, item, c, words, h₁, h₂, h₃, hitem, hcell, hpages, hnew⟩ := secBlockCreate_cases hcreate
      have hne := (secAlloc_created hitem hcell hpages hnew halloc).mpr (hsuffices blocks h block s' hblocks hcreate)
      obtain ⟨memory, rfl⟩ := Option.ne_none_iff_exists'.mp hne
      exact ⟨memory, block', h', halloc⟩
    case refused =>
      intro blocks h s' hblocks hnone
      simp only [secureAlloc, hblocks, Option.bind_eq_bind, Option.bind_some, Option.bind_eq_some_iff] at hnone
      obtain ⟨⟨created, s₁⟩, hcreate, hnone⟩ := hnone
      split at hnone
      case h_1 heq =>
        cases heq
        obtain ⟨-, -, hmissing⟩ | ⟨_, ⟨⟩, -⟩ := secBlockCreate_cases hcreate
        exact hmissing
      case h_2 block s₁ heq =>
        cases heq
        obtain ⟨⟨r, block', h'⟩, halloc, heq⟩ := Option.bind_eq_some_iff.mp hnone
        cases heq
        obtain ⟨⟨⟩, -⟩ | ⟨_, ⟨⟩, -, item, c, words, h₁, h₂, h₃, hitem, hcell, hpages, hnew⟩ := secBlockCreate_cases hcreate
        have hne := (secAlloc_created hitem hcell hpages hnew halloc).mpr (hsuffices blocks h block s₁ hblocks hcreate)
        exact absurd rfl hne

theorem AllUsed.allocFromBlocks (hused : AllUsed blocks)
    (halloc : allocFromBlocks host tag length blocks h = some (r, blocks', h')) : AllUsed blocks' := by
  induction blocks generalizing h r blocks' with
  | nil =>
    cases halloc
    exact hused
  | cons block blocks ih =>
    obtain ⟨hfirst, hrest⟩ := List.forall_mem_cons.mp hused
    obtain ⟨⟨taken, block', h₁⟩, htaken, halloc⟩ := Option.bind_eq_some_iff.mp halloc
    have hpos : 0 < block'.nUsed := by
      rw [secAlloc_nUsed htaken]
      exact Nat.add_pos_left hfirst _
    split at halloc
    case h_1 heq =>
      cases heq
      cases halloc
      exact List.forall_mem_cons.mpr ⟨hpos, hrest⟩
    case h_2 heq =>
      cases heq
      obtain ⟨⟨_, _, _⟩, htail, heq⟩ := Option.bind_eq_some_iff.mp halloc
      cases heq
      exact List.forall_mem_cons.mpr ⟨hpos, ih hrest htail⟩

-- No block is left empty by an allocation that is served.
theorem AllUsed.secureAlloc (hused : AllUsed s.blocks) (hserved : Served host tag length s)
    (halloc : secureAlloc host tag length s = some (r, s')) : AllUsed s'.blocks := by
  obtain ⟨⟨found, blocks, h⟩, hblocks, halloc⟩ := Option.bind_eq_some_iff.mp halloc
  have hsearched := hused.allocFromBlocks hblocks
  cases found with
  | some memory =>
    cases halloc
    exact hsearched
  | none =>
    obtain ⟨⟨created, s₁⟩, hcreate, halloc⟩ := Option.bind_eq_some_iff.mp halloc
    split at halloc
    case h_1 heq =>
      cases heq
      cases halloc
      obtain ⟨-, heq, -⟩ | ⟨_, ⟨⟩, -⟩ := secBlockCreate_cases hcreate
      rwa [heq]
    case h_2 block s₁ heq =>
      cases heq
      obtain ⟨⟨r, block', h'⟩, htaken, heq⟩ := Option.bind_eq_some_iff.mp halloc
      cases heq
      obtain ⟨memory, block', h', htaken'⟩ := hserved.fresh blocks h block s₁ hblocks hcreate
      cases htaken.symm.trans htaken'
      refine List.forall_mem_cons.mpr ⟨?_, ?_⟩
      · rw [secAlloc_nUsed htaken]
        exact Nat.succ_pos _
      · obtain ⟨⟨⟩, -⟩ | ⟨_, ⟨⟩, heq, -⟩ := secBlockCreate_cases hcreate
        rwa [heq]

theorem StateInv.nodup {parts : List (Block × Layout)} {fallback : List (Nat × Nat)}
    (i : StateInv host h parts fallback) : (parts.map Prod.fst).Nodup := by
  have hapart := (List.pairwise_append.mp i.heap.regions_apart).left
  rw [List.pairwise_map] at hapart
  refine List.pairwise_map.mpr (hapart.imp_of_mem fun {p q} hp _ hpq heq => ?_)
  have hbounds := i.heap.region_bounds (List.mem_append_left fallback (List.mem_map.mpr ⟨p, hp, rfl⟩))
  simp only [Apart, regionOf, ← heq] at hpq hbounds
  omega

theorem AllUsed.putBlock (hused : AllUsed blocks) (hpos : 0 < block'.nUsed) :
    AllUsed (putBlock block block' blocks) := by
  intro b hb
  obtain ⟨b', hb', rfl⟩ := List.mem_map.mp hb
  split
  case isTrue  => exact hpos
  case isFalse => exact hused b' hb'

-- The block that is put in the place of another one goes away again.
theorem erase_putBlock (hnodup : blocks.Nodup) (hmem : block ∈ blocks) (hnew : block' ∉ blocks) :
    (putBlock block block' blocks).erase block' = blocks.erase block := by
  induction blocks with
  | nil => cases hmem
  | cons b blocks ih =>
    obtain ⟨hb, hnodup⟩ := List.nodup_cons.mp hnodup
    obtain ⟨hne, hnew⟩ := not_or.mp (List.mem_cons.not.mp hnew)
    rw [putBlock, List.map_cons]
    by_cases heq : b = block
    case pos =>
      subst heq
      rw [if_pos rfl, List.erase_cons_head, List.erase_cons_head]
      refine (List.map_congr_left fun b' hb' => if_neg ?_).trans (List.map_id _)
      rintro rfl
      exact hb hb'
    case neg =>
      have hmem := (List.mem_cons.mp hmem).resolve_left (Ne.symm heq)
      rw [if_neg heq, List.erase_cons_tail (by simpa using Ne.symm hne), List.erase_cons_tail (by simpa using heq)]
      exact congrArg _ (ih hnodup hmem hnew)

theorem secBlockDestroy_blocks (hdestroy : secBlockDestroy host block s = some s') :
    s'.blocks = s.blocks.erase block := by
  simp only [secBlockDestroy, Option.bind_eq_bind, Option.bind_eq_some_iff] at hdestroy
  obtain ⟨_, -, _, -, _, -, _, -, _, -, _, -, heq⟩ := hdestroy
  cases heq
  rfl

-- A block whose last allocation is freed is destroyed.
theorem AllUsed.eggSecureFreeFull {flags : Bool} (hused : AllUsed s.blocks) (hnodup : s.blocks.Nodup)
    (hfree : eggSecureFreeFull host memory flags s = some s') : AllUsed s'.blocks := by
  rw [SecureMemory.eggSecureFreeFull] at hfree
  split at hfree
  case isTrue =>
    cases hfree
    exact hused
  case isFalse =>
    split at hfree
    case h_1 block hfind =>
      obtain ⟨⟨block', h⟩, -, hfree⟩ := Option.bind_eq_some_iff.mp hfree
      dsimp only at hfree
      split at hfree
      case isTrue hzero =>
        have hnew : block' ∉ s.blocks := fun hmem => Nat.ne_of_gt (hused block' hmem) hzero
        rw [secBlockDestroy_blocks hfree]
        dsimp only
        rw [erase_putBlock hnodup (List.mem_of_find?_eq_some hfind) hnew]
        exact fun b hb => hused b (List.mem_of_mem_erase hb)
      case isFalse hne =>
        cases hfree
        exact hused.putBlock (Nat.pos_of_ne_zero hne)
    case h_2 =>
      obtain ⟨_, -, heq⟩ := Option.bind_eq_some_iff.mp hfree
      cases heq
      exact hused

theorem secMergeAfter_nUsed {c' : Nat} (hmerge : secMergeAfter block c h = some (c', block', h')) :
    block'.nUsed = block.nUsed := by
  obtain ⟨_, -, hmerge⟩ := Option.bind_eq_some_iff.mp hmerge
  obtain ⟨after, -, hmerge⟩ := Option.bind_eq_some_iff.mp hmerge
  split at hmerge
  case h_1 =>
    cases hmerge
    rfl
  case h_2 =>
    obtain ⟨_, -, hmerge⟩ := Option.bind_eq_some_iff.mp hmerge
    split at hmerge
    case isTrue =>
      simp only [Option.bind_eq_bind, Option.bind_eq_some_iff] at hmerge
      obtain ⟨_, -, _, -, _, -, hmerge⟩ := hmerge
      split at hmerge
      all_goals
        simp only [Option.bind_eq_some_iff] at hmerge
        obtain ⟨⟨_, _⟩, -, _, -, _, -, heq⟩ := hmerge
        cases heq
        rfl
    case isFalse =>
      cases hmerge
      rfl

theorem secFree_nUsed (hfree : secFree block memory h = some (block', h')) : block'.nUsed = block.nUsed - 1 := by
  simp only [secFree, Option.bind_eq_bind, Option.bind_eq_some_iff] at hfree
  obtain ⟨⟨_, _⟩, -, _, -, _, -, _, -, _, -, ⟨_, _⟩, -, ⟨_, _⟩, -, ⟨_, _, _⟩, hmerge, _, -, hfree⟩ := hfree
  have hnUsed := secMergeAfter_nUsed hmerge
  split at hfree
  all_goals
    simp only [Option.bind_eq_some_iff] at hfree
    obtain ⟨⟨_, _⟩, -, _, -, heq⟩ := hfree
    cases heq
    rw [hnUsed]

theorem secGrow_nUsed {fuel : Nat} (hgrow : secGrow c n fuel block h = some (block', h')) :
    block'.nUsed = block.nUsed := by
  induction fuel generalizing block h with
  | zero => cases hgrow
  | succ fuel ih =>
    obtain ⟨_, -, hgrow⟩ := Option.bind_eq_some_iff.mp hgrow
    split at hgrow
    case isTrue =>
      obtain ⟨after, -, hgrow⟩ := Option.bind_eq_some_iff.mp hgrow
      split at hgrow
      case h_1 =>
        cases hgrow
        rfl
      case h_2 =>
        obtain ⟨_, -, hgrow⟩ := Option.bind_eq_some_iff.mp hgrow
        split at hgrow
        case isTrue =>
          cases hgrow
          rfl
        case isFalse =>
          split at hgrow
          case isTrue =>
            simp only [Option.bind_eq_bind, Option.bind_eq_some_iff] at hgrow
            obtain ⟨_, -, _, -, ⟨_, _⟩, -, _, -, hgrow⟩ := hgrow
            exact (ih hgrow).trans rfl
          case isFalse =>
            simp only [Option.bind_eq_bind, Option.bind_eq_some_iff] at hgrow
            obtain ⟨_, -, _, -, _, -, _, -, hgrow⟩ := hgrow
            exact ih hgrow
    case isFalse =>
      cases hgrow
      rfl

-- Whatever is resized in a block stays one allocation of it.
theorem secRealloc_nUsed (hrealloc : secRealloc host block tag memory length h = some (r, block', h')) :
    block'.nUsed = block.nUsed := by
  simp only [secRealloc, Option.bind_eq_bind, Option.bind_eq_some_iff] at hrealloc
  obtain ⟨_, -, ⟨_, _⟩, -, _, -, _, -, hrealloc⟩ := hrealloc
  split at hrealloc
  case isTrue =>
    obtain ⟨_, -, hrealloc⟩ := Option.bind_eq_some_iff.mp hrealloc
    split at hrealloc
    all_goals
      obtain ⟨_, -, heq⟩ := Option.bind_eq_some_iff.mp hrealloc
      cases heq
      rfl
  case isFalse =>
    simp only [Option.bind_eq_some_iff] at hrealloc
    obtain ⟨⟨grown, _⟩, hgrow, _, -, hrealloc⟩ := hrealloc
    rw [← secGrow_nUsed hgrow]
    split at hrealloc
    case isTrue =>
      simp only [Option.bind_eq_some_iff] at hrealloc
      obtain ⟨_, -, _, -, heq⟩ := hrealloc
      cases heq
      rfl
    case isFalse =>
      obtain ⟨⟨moved, block₁, _⟩, halloc, hrealloc⟩ := Option.bind_eq_some_iff.mp hrealloc
      have hnUsed := secAlloc_nUsed halloc
      cases moved with
      | none =>
        cases hrealloc
        exact hnUsed
      | some alloc =>
        obtain ⟨⟨_, _⟩, hfree, heq⟩ := Option.bind_eq_some_iff.mp hrealloc
        cases heq
        rw [secFree_nUsed hfree, hnUsed]
        rfl

theorem AllUsed.secureRealloc {previous : Nat} (hused : AllUsed s.blocks) (hblock : block ∈ s.blocks)
    (hrealloc : secureRealloc host tag block memory length s = some (r, previous, s')) : AllUsed s'.blocks := by
  obtain ⟨_, -, hrealloc⟩ := Option.bind_eq_some_iff.mp hrealloc
  obtain ⟨⟨_, block', _⟩, hresized, hrealloc⟩ := Option.bind_eq_some_iff.mp hrealloc
  have hpos : 0 < block'.nUsed := by
    rw [secRealloc_nUsed hresized]
    exact hused block hblock
  dsimp only at hrealloc
  rw [if_neg (Nat.ne_of_gt hpos), Option.bind_eq_bind, Option.bind_some] at hrealloc
  cases hrealloc
  exact hused.putBlock hpos

-- The allocation under the lock.
theorem eggSecureAllocFull_request {tag : Option String} {flags : Bool} {result : Option Nat × State}
    (hlength : ¬(insane length ∨ length = 0)) (halloc : eggSecureAllocFull host tag length flags s = some result) :
    ∃ found, secureAlloc host (tag.getD "?") length s = some found := by
  obtain ⟨hsane, hpos⟩ := not_or.mp hlength
  rw [eggSecureAllocFull, if_neg hsane, if_neg hpos] at halloc
  obtain ⟨found, hfound, -⟩ := Option.bind_eq_some_iff.mp halloc
  exact ⟨found, hfound⟩

theorem AllUsed.eggSecureAllocFull {tag : Option String} {flags : Bool} (hused : AllUsed s.blocks)
    (hserved : ¬(insane length ∨ length = 0) → Served host (tag.getD "?") length s)
    (halloc : eggSecureAllocFull host tag length flags s = some (r, s')) : AllUsed s'.blocks := by
  by_cases hlength : insane length ∨ length = 0
  case pos =>
    have hnone : SecureMemory.eggSecureAllocFull host tag length flags s = some (none, s) := by
      rw [SecureMemory.eggSecureAllocFull]
      by_cases hsane : insane length
      case pos => exact if_pos hsane
      case neg => rw [if_neg hsane, if_pos (hlength.resolve_left hsane)]
    cases hnone.symm.trans halloc
    exact hused
  case neg =>
    obtain ⟨hsane, hpos⟩ := not_or.mp hlength
    rw [SecureMemory.eggSecureAllocFull, if_neg hsane, if_neg hpos] at halloc
    obtain ⟨⟨found, s₁⟩, hfound, halloc⟩ := Option.bind_eq_some_iff.mp halloc
    have hused₁ := hused.secureAlloc (hserved hlength) hfound
    cases found with
    | some memory =>
      cases halloc
      exact hused₁
    | none =>
      dsimp only at halloc
      split at halloc
      case isTrue =>
        split at halloc
        all_goals
          cases halloc
          exact hused₁
      case isFalse =>
        cases halloc
        exact hused₁

variable {client client' : Client} {event : Event} {call : Call} {result : Option Nat × State}

-- What a call comes to under the lock is a part of it.
theorem Call.exists_request (hrun : call.run host s = some result) (hrequest : call.request host s = some (tag, length, s')) :
    ∃ found, secureAlloc host tag length s' = some found := by
  cases call with
  | alloc tag length flags =>
    rw [request] at hrequest
    split at hrequest
    case isTrue  => cases hrequest
    case isFalse hlength =>
      cases hrequest
      exact eggSecureAllocFull_request hlength hrun
  | free memory flags => cases hrequest
  | realloc tag memory length flags =>
    rw [request] at hrequest
    split at hrequest
    case isTrue => cases hrequest
    case isFalse hlength =>
      obtain ⟨hsane, hpos⟩ := not_or.mp hlength
      rw [run, eggSecureReallocFull, if_neg hsane] at hrun
      split at hrequest
      case isTrue hmemory =>
        cases hrequest
        rw [if_pos hmemory] at hrun
        exact eggSecureAllocFull_request hlength hrun
      case isFalse hmemory =>
        rw [if_neg hmemory, if_neg hpos] at hrun
        split at hrequest
        case h_2 => cases hrequest
        case h_1 heq =>
          cases hrequest
          obtain ⟨block, hfind, hrealloc⟩ := Option.bind_eq_some_iff.mp heq
          simp only [hfind, hrealloc, Option.bind_eq_bind, Option.bind_some, Option.bind_eq_some_iff] at hrun
          obtain ⟨_, halloc, -⟩ := hrun
          exact eggSecureAllocFull_request hlength halloc

-- No call leaves a block empty if the allocations are served.
theorem Call.used (i : Inv host client.state client.live) (hallowed : call.Allowed client)
    (hused : AllUsed client.state.blocks)
    (hserved : ∀ tag length s, call.request host client.state = some (tag, length, s) → Served host tag length s)
    (hrun : call.run host client.state = some (r, s')) : AllUsed s'.blocks := by
  cases call with
  | alloc tag length flags =>
    exact hused.eggSecureAllocFull (fun hlength => hserved _ _ _ (if_neg hlength)) hrun
  | free memory flags =>
    obtain ⟨_, hfree, heq⟩ := Option.bind_eq_some_iff.mp hrun
    cases heq
    obtain ⟨parts, fallback, hblocks, i, -⟩ := i
    exact hused.eggSecureFreeFull (hblocks ▸ i.nodup) hfree
  | realloc tag memory length flags =>
    obtain ⟨parts, fallback, hblocks, i, hlive⟩ := i
    rw [run, eggSecureReallocFull] at hrun
    by_cases hsane : insane length
    case pos =>
      rw [if_pos hsane] at hrun
      cases hrun
      exact hused
    by_cases hmemory : memory = 0
    case pos =>
      rw [if_neg hsane, if_pos hmemory] at hrun
      refine hused.eggSecureAllocFull (fun hlength => hserved _ _ _ ?_) hrun
      rw [request, if_neg hlength, if_pos hmemory]
    by_cases hpos : length = 0
    case pos =>
      rw [if_neg hsane, if_neg hmemory, if_pos hpos] at hrun
      obtain ⟨_, hfree, heq⟩ := Option.bind_eq_some_iff.mp hrun
      cases heq
      exact hused.eggSecureFreeFull (hblocks ▸ i.nodup) hfree
    rw [if_neg hsane, if_neg hmemory, if_neg hpos] at hrun
    split at hrun
    case h_1 =>
      obtain ⟨_, -, heq⟩ := Option.bind_eq_some_iff.mp hrun
      cases heq
      exact hused
    case h_2 block hfind =>
      obtain ⟨⟨alloc, previous, s₁⟩, hrealloc, hrun⟩ := Option.bind_eq_some_iff.mp hrun
      have hused₁ := hused.secureRealloc (List.mem_of_find?_eq_some hfind) hrealloc
      cases alloc with
      | some alloc =>
        cases hrun
        exact hused₁
      | none =>
        obtain ⟨⟨moved, s₂⟩, halloc, hrun⟩ := Option.bind_eq_some_iff.mp hrun
        have hused₂ : AllUsed s₂.blocks := by
          refine hused₁.eggSecureAllocFull (fun hlength => hserved _ _ _ ?_) halloc
          rw [request, if_neg hlength, if_neg hmemory, hfind, Option.bind_some, hrealloc]
        cases moved with
        | none =>
          cases hrun
          exact hused₂
        | some alloc =>
          obtain ⟨_, hfree, heq⟩ := Option.bind_eq_some_iff.mp hrun
          cases heq
          refine AllUsed.eggSecureFreeFull ?_ ?_ hfree
          · exact hused₂
          -- The allocation is in the block, and the blocks are still well-formed.
          obtain ⟨n, hn⟩ := (hallowed.resolve_left hmemory).1
          have hstate : client.state = ⟨client.state.heap, parts.map Prod.fst⟩ := by rw [← hblocks]
          have hin : (memory, n) ∈ allocs client.state.heap parts := by
            refine (List.mem_append.mp (hlive.mem_iff.mp hn)).resolve_right fun hfallback => ?_
            have hnone := findBlock_fallback i hfallback
            rw [← hblocks, hfind] at hnone
            cases hnone
          obtain ⟨block₁, _, h₁, parts₁, hfind₁, hrealloc₁, i₁, -⟩ :=
            secureRealloc_spec (tag.getD "?") i hin (Nat.pos_of_ne_zero hpos)
          rw [← hblocks, hfind] at hfind₁
          cases hfind₁
          rw [hstate] at hrealloc
          cases hrealloc.symm.trans hrealloc₁
          obtain ⟨_, h₂, parts₂, _, halloc₂, i₂, -⟩ := eggSecureAllocFull_state tag length flags i₁
          cases halloc.symm.trans halloc₂
          exact i₂.nodup

-- From blocks that are all in use, a step serves what it allocates if and only if the new blocks suffice.
theorem serves_iff_suffices (i : Inv host client.state client.live) (hused : AllUsed client.state.blocks)
    (st : Client.Step host client event client') : ServesFresh host client event client' ↔ FreshSuffices host client event := by
  cases st with
  | write _ _ =>
    refine iff_of_true ⟨nofun, hused⟩ ?_
    rintro _ _ _ _ _ _ _ ⟨⟩
  | @call call result s' hallowed hrun =>
    constructor
    · intro hserves tag length s blocks h block s' hrequest
      obtain ⟨found, hfound⟩ := Call.exists_request hrun hrequest
      exact (served_iff hfound).mp (hserves.served tag length s hrequest) blocks h block s'
    · intro hsuffices
      have hserved : ∀ tag length s, call.request host client.state = some (tag, length, s) → Served host tag length s := by
        intro tag length s hrequest
        obtain ⟨found, hfound⟩ := Call.exists_request hrun hrequest
        exact (served_iff hfound).mpr fun blocks h block s' => hsuffices tag length s blocks h block s' hrequest
      exact ⟨hserved, Call.used i hallowed hused hserved hrun⟩

-- In a run all new blocks serve what they are created for, and no block is left empty, if and only if they suffice.
theorem Client.Run.servesFresh_iff {ts : List (Client × Event × Client)} (r : Client.Run host ts client) :
    (∀ t ∈ ts, ServesFresh host t.1 t.2.1 t.2.2) ↔ ∀ t ∈ ts, FreshSuffices host t.1 t.2.1 :=
  Transition.Run.forall_step_iff (p := fun client => Inv host client.state client.live)
    (q := fun client => AllUsed client.state.blocks) r (fun _ ⟨sys, he⟩ => he ▸ ⟨[], [], rfl, .initial host sys, .refl _⟩)
    (fun _ _ _ i st => st.inv i) (fun _ ⟨_, he⟩ => he ▸ nofun) (fun _ _ _ h => h.used)
    fun _ _ _ i hused st => serves_iff_suffices i hused st

theorem Client.Run.servesFresh_merge : ∃ ts client, Client.Run .small ts client ∧
    client.live = [(0x20008, 8), (0x20038, 8)] ∧
    ((∀ t ∈ ts, ServesFresh .small t.1 t.2.1 t.2.2) ↔ ∀ t ∈ ts, FreshSuffices .small t.1 t.2.1) := by
  obtain ⟨ts, client, r, hlive, -⟩ := Client.exists_merge
  exact ⟨ts, client, r, hlive, Client.Run.servesFresh_iff r⟩

-- Four pages are mapped for as many bytes, and the guards have no room.
def Client.fill : Event :=
  .call (.alloc none 16384 false) none

theorem Client.Run.not_servesFresh :
    ¬∀ host ts client, Client.Run host ts client → ∀ t ∈ ts, ServesFresh host t.1 t.2.1 t.2.2 := by
  intro h
  have hfill : (start.after .small fill).any fun client' => ∃ block ∈ client'.state.blocks, block.nUsed = 0 := by
    decide +kernel
  obtain ⟨client', hafter, hempty⟩ := Option.any_eq_true _ _ |>.mp hfill
  obtain ⟨block, hblock, hzero⟩ := of_decide_eq_true hempty
  have r : Client.Run .small [] start := .start ⟨_, rfl⟩
  have hserves := h _ _ _ (.step r (.of_after hafter)) _ List.mem_cons_self
  exact Nat.ne_of_gt (hserves.used block hblock) hzero

end SecureMemory
