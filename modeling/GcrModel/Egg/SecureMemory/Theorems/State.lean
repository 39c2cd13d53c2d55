import GcrModel.Egg.SecureMemory.Blocks
import GcrModel.Egg.SecureMemory.Theorems.Contents

open Ring

-- The checks that the code has on a block succeed if the invariant of the block holds.
namespace SecureMemory

variable {host : Host} {regions : List (Nat × Nat)} {others : List Nat} {h : Heap} {block : Block}
  {ℓ : Layout} {c word fuel : Nat} {l l₁ l₂ : List Nat}

theorem secValidateCell_spec (b : BlockInv h block ℓ) (o : Owned host regions others h block ℓ)
    (hw : Walk h.cells.geom h.mem word (c :: l) block.last) (hle : block.words ≤ word)
    (hc : c ∈ ℓ.cells) :
    ∃ cell, h.cells c = some cell ∧ secValidateCell block word h = some cell ∧ cell.words = word := by
  have s := b.toShape
  obtain ⟨n, hg, hn, hr, -, hw⟩ := hw
  obtain ⟨cell, hcell, rfl, rfl⟩ := exists_cell_of_geom hg
  have hlt : cell.words < block.last := by
    have := hw.le
    simp only [wordSize] at *
    omega
  have hvalid : secIsValidWord block cell.words := ⟨hle, hlt⟩
  have hpool := poolValid_of_live o.heap (List.mem_append_left _ hc)
  have hguards := secCheckGuards_spec s.walk hc
  -- The cell is in one of the rings.
  obtain ⟨next, prev, hnext, hprev⟩ : ∃ next prev, Linked h.cells.next h.cells.prev c next ∧
      Linked h.cells.next h.cells.prev prev c := by
    rcases s.rings.kind c hc (by simp) with hv | hv
    · have hcu := (s.rings.mem_unused c).mpr ⟨hc, by simp, hv⟩
      obtain ⟨next, -, hnext⟩ := exists_next s.rings.unused.chain hcu
      obtain ⟨prev, -, hprev⟩ := exists_prev s.rings.unused.chain hcu
      exact ⟨next, prev, hnext, hprev⟩
    · have hcu := (s.rings.mem_used c).mpr ⟨hc, by simp, hv⟩
      obtain ⟨next, -, hnext⟩ := exists_next s.rings.used.chain hcu
      obtain ⟨prev, -, hprev⟩ := exists_prev s.rings.used.chain hcu
      exact ⟨next, prev, hnext, hprev⟩
  have hnext' := hnext.left
  have hprev' := hprev.right
  rw [Cells.next_eq hcell] at hnext'
  rw [Cells.prev_eq hcell] at hprev'
  have htag : if 0 < cell.requested then cell.tag ≠ none else cell.tag = none := by
    rcases s.rings.kind c hc (by simp) with hv | ⟨r, tag, hv, hpos⟩
    · have hu := Cells.use_eq hcell
      rw [hv] at hu
      simp only [Option.some.injEq, Prod.mk.injEq] at hu
      simp [← hu.left, ← hu.right]
    · have hu := Cells.use_eq hcell
      rw [hv] at hu
      simp only [Option.some.injEq, Prod.mk.injEq] at hu
      simp [← hu.left, ← hu.right, hpos]
  have hfit : 0 < cell.requested → cell.requested ≤ (cell.nWords - 2) * wordSize := by
    intro hpos
    have htag' := htag
    rw [if_pos hpos] at htag'
    obtain ⟨tag, ht⟩ := Option.ne_none_iff_exists'.mp htag'
    have hu := Cells.use_eq hcell
    have hcu := (s.rings.mem_used c).mpr ⟨hc, by simp, cell.requested, tag, by rw [hu, ht], hpos⟩
    exact s.fits c hcu _ _ _ _ hg hu
  refine ⟨cell, hcell, ?_, rfl⟩
  simp only [secValidateCell, guard, hlt, hvalid, hr, hpool, hcell, hguards, htag, hnext', hprev',
    hnext.right, hprev.left, if_true, Option.pure_def, Option.bind_eq_bind, Option.bind_some]
  by_cases hpos : 0 < cell.requested
  case pos => simp only [hpos, hfit hpos, if_true, Option.bind_some]
  case neg => simp only [hpos, if_false]

theorem secValidateFrom_spec (b : BlockInv h block ℓ) (o : Owned host regions others h block ℓ)
    (hw : Walk h.cells.geom h.mem word (c :: l) block.last) (hle : block.words ≤ word)
    (hl : ∀ d ∈ c :: l, d ∈ ℓ.cells) (hf : l.length < fuel) :
    secValidateFrom block h fuel word = some () := by
  induction fuel generalizing c l word with
  | zero => exact absurd hf (Nat.not_lt_zero _)
  | succ fuel ih =>
    obtain ⟨cell, hcell, he, rfl⟩ := secValidateCell_spec b o hw hle (hl c (List.mem_cons_self ..))
    obtain ⟨n, hg, hn, -, -, hw⟩ := hw
    cases (Cells.geom_eq hcell).symm.trans hg
    simp only [secValidateFrom, he, Option.bind_eq_bind, Option.bind_some]
    cases l with
    | nil => exact if_pos hw
    | cons d l =>
      have hne : cell.words + wordSize * cell.nWords ≠ block.last := by
        obtain ⟨m, -, hm, -, -, hw⟩ := hw
        have := hw.le
        simp only [wordSize] at *
        omega
      rw [if_neg hne]
      exact ih hw (by omega) (fun e he => hl e (List.mem_cons_of_mem _ he))
        (Nat.lt_of_succ_lt_succ hf)

-- A block is never empty, so the loop of `sec_validate` ends.
theorem secValidate_spec (b : BlockInv h block ℓ) (o : Owned host regions others h block ℓ) :
    secValidate block h = some () := by
  have s := b.toShape
  have hw := s.walk
  have hlen := s.length_le
  have hpos := o.heap.region_bounds o.region
  cases hl : ℓ.cells with
  | nil =>
    rw [hl] at hw
    have : block.words = block.last := hw
    simp only [Block.last] at this
    omega
  | cons c l =>
    rw [hl] at hw hlen
    refine secValidateFrom_spec b o hw (Nat.le_refl _) (fun d hd => hl ▸ hd) ?_
    simp only [List.length_cons] at hlen
    omega

def Cells.nWords (cells : Cells) (c : Nat) : Nat :=
  ((cells c).map Cell.nWords).getD 0

theorem Cells.nWords_eq {cells : Cells} {cell : Cell} (h : cells c = some cell) :
    cells.nWords c = cell.nWords := by
  simp [Cells.nWords, h]

-- The words of the cells of a walk.
theorem Walk.sum {cells : Cells} {mem : Memory Byte} {a e : Nat} (hw : Walk cells.geom mem a l e) :
    a + wordSize * (l.map cells.nWords).sum = e := by
  induction l generalizing a with
  | nil => exact hw
  | cons c l ih =>
    obtain ⟨n, hg, -, -, -, hw⟩ := hw
    unfold Cells.geom at hg
    obtain ⟨cell, hcell, he⟩ := Option.map_eq_some_iff.mp hg
    cases he
    rw [List.map_cons, List.sum_cons, Cells.nWords_eq hcell, Nat.mul_add, ← Nat.add_assoc]
    exact ih hw

-- The loop over a ring ends where it started and counts the words of its cells.
theorem recordsForRing_spec {cells : Cells} {head : Nat} (r : IsRing cells.next cells.prev (some head) l)
    (hs : ∀ c ∈ l, ∃ cell, cells c = some cell) (hl : l = l₁ ++ c :: l₂) (hf : l₂.length < fuel) :
    ∃ records, recordsForRing cells (some head) fuel (some c) =
      some (records, ((c :: l₂).map cells.nWords).sum) := by
  induction fuel generalizing c l₁ l₂ with
  | zero => exact absurd hf (Nat.not_lt_zero _)
  | succ fuel ih =>
    obtain ⟨cell, hcell⟩ := hs c (by simp [hl])
    have hnext := r.next_append hl
    rw [Cells.next_eq hcell] at hnext
    cases l₂ with
    | nil =>
      exact ⟨_, by simp [recordsForRing, hcell, hnext, Cells.nWords_eq hcell]; rfl⟩
    | cons d l₂ =>
      have hne := r.ne_head hl
      obtain ⟨records, he⟩ := ih (show l = (l₁ ++ [c]) ++ d :: l₂ by simp [hl])
        (Nat.lt_of_succ_lt_succ hf)
      exact ⟨_, by simp [recordsForRing, hcell, hnext, Cells.nWords_eq hcell, hne, he]; rfl⟩

-- A ring from its start, which may be empty.
theorem recordsForRing_head (fuel : Nat) {cells : Cells} {ring : Option Nat} (r : IsRing cells.next cells.prev ring l)
    (hs : ∀ c ∈ l, ∃ cell, cells c = some cell) (hf : l.length ≤ fuel) :
    ∃ records, recordsForRing cells ring fuel ring = some (records, (l.map cells.nWords).sum) := by
  cases ring with
  | none =>
    cases r.eq_nil
    exact ⟨[], by simp [recordsForRing]⟩
  | some head =>
    obtain ⟨t, rfl⟩ := r.exists_cons
    exact recordsForRing_spec r hs (show head :: t = [] ++ head :: t from rfl) hf

-- All words of a block belong to a cell in one of its rings.
theorem records_total (b : BlockInv h block ℓ) :
    (ℓ.unused.map h.cells.nWords).sum + (ℓ.used.map h.cells.nWords).sum = block.nWords := by
  have s := b.toShape
  have hp : (ℓ.unused ++ ℓ.used).Perm ℓ.cells := by
    refine (List.perm_ext_iff_of_nodup (List.nodup_append.mpr ⟨s.rings.unused.nodup, s.rings.used.nodup,
      ?_⟩) s.nodup).mpr fun d => ?_
    · rintro d hd _ hd' rfl
      exact s.rings.not_used_of_unused hd hd'
    · rw [List.mem_append, s.rings.mem_unused, s.rings.mem_used]
      constructor
      · rintro (h | h)
        · exact h.left
        · exact h.left
      · intro hd
        exact (s.rings.kind d hd (by simp)).imp (fun h => ⟨hd, by simp, h⟩) fun h => ⟨hd, by simp, h⟩
  have hsum := s.walk.sum
  rw [← List.sum_append, ← List.map_append, (hp.map _).sum_eq]
  simp only [Block.last, wordSize] at hsum
  omega

end SecureMemory

open Ring

-- The invariant of the whole allocator: all blocks, the pools with their metadata and the memory that
-- came from the fallback allocator.
namespace SecureMemory

variable {host : Host} {h h' : Heap} {p q : Block × Layout} {ps qs parts : List (Block × Layout)}
  {fallback : List (Nat × Nat)} {block' : Block} {ℓ' : Layout} {a : Nat × Nat} {d : Nat}

def regionOf (p : Block × Layout) : Nat × Nat :=
  (p.1.words, wordSize * p.1.nWords)

def itemsOf (p : Block × Layout) : List Nat :=
  p.1.item :: p.2.cells

-- The allocations in all blocks.
def allocs (h : Heap) (parts : List (Block × Layout)) : List (Nat × Nat) :=
  parts.flatMap fun p => p.2.allocs h

structure StateInv (host : Host) (h : Heap) (parts : List (Block × Layout))
    (fallback : List (Nat × Nat)) : Prop where
  heap   : HeapInv host (parts.map regionOf ++ fallback) (parts.flatMap itemsOf) h
  dead   : ∀ d ∉ parts.flatMap itemsOf, h.cells d = none
  blocks : ∀ p ∈ parts, BlockInv h p.1 p.2
  clean  : ∀ p ∈ parts, Clean h p.1 p.2
  pages  : ∀ p ∈ parts, host.pageSize ∣ wordSize * p.1.nWords
  small  : ∀ p ∈ parts, p.1.nWords < 2 ^ 32
  spare  : fallback ≠ [] → host.fallback

-- The metadata that is not of the cells of the block in the middle.
def othersOf (ps : List (Block × Layout)) (p : Block × Layout) (qs : List (Block × Layout)) :
    List Nat :=
  p.1.item :: (ps ++ qs).flatMap itemsOf

theorem items_perm :
    ((ps ++ p :: qs).flatMap itemsOf).Perm (p.2.cells ++ othersOf ps p qs) := by
  simp only [List.flatMap_append, List.flatMap_cons, itemsOf, othersOf, List.cons_append]
  refine List.perm_middle.trans (.trans (.cons _ ?_) List.perm_middle.symm)
  rw [← List.append_assoc, ← List.append_assoc]
  exact List.perm_append_comm.append_right _

theorem BlockInv.congr {block : Block} {ℓ : Layout} (b : BlockInv h block ℓ)
    (hc : ∀ d ∈ ℓ.cells, h'.cells d = h.cells d)
    (hm : ∀ x, block.words ≤ x → x < block.last → h'.mem x = h.mem x) : BlockInv h' block ℓ :=
  ⟨b.toShape.congr hc hm, b.nUsed⟩

theorem BlockInv.allocs_congr {block : Block} {ℓ : Layout} (b : BlockInv h block ℓ)
    (hc : ∀ d ∈ ℓ.cells, h'.cells d = h.cells d) : ℓ.allocs h' = ℓ.allocs h := by
  refine List.map_congr_left fun d hd => ?_
  rw [Cells.alloc, Cells.alloc, hc d (b.rings.cells_of_used hd)]

theorem Clean.congr {block : Block} {ℓ : Layout} (hcl : Clean h block ℓ) (b : BlockInv h block ℓ)
    (hc : ∀ d ∈ ℓ.cells, h'.cells d = h.cells d)
    (hm : ∀ x, block.words ≤ x → x < block.last → h'.mem x = h.mem x) : Clean h' block ℓ := by
  intro x hx hx' hclient
  rw [b.allocs_congr hc]
  exact hcl x hx hx' (hm x hx hx' ▸ hclient)

theorem allocs_perm :
    (allocs h (ps ++ p :: qs)).Perm (p.2.allocs h ++ allocs h (ps ++ qs)) := by
  simp only [allocs, List.flatMap_append, List.flatMap_cons, ← List.append_assoc]
  exact List.perm_append_comm.append_right _

namespace StateInv

theorem initial (host : Host) (sys : List (Option Nat)) :
    StateInv host (State.initial sys).heap [] [] where
  heap   := ⟨.refl _, .nil, nofun, nofun, nofun, List.nodup_nil⟩
  dead   := fun _ _ => rfl
  blocks := nofun
  clean  := nofun
  pages  := nofun
  small  := nofun
  spare  := fun hne => absurd rfl hne

-- Nothing but the metadata and the memory of the blocks matters.
theorem congr (i : StateInv host h parts fallback)
    (hi : HeapInv host (parts.map regionOf ++ fallback) (parts.flatMap itemsOf) h')
    (hc : h'.cells = h.cells)
    (hm : ∀ p ∈ parts, ∀ x, p.1.words ≤ x → x < p.1.last → h'.mem x = h.mem x) :
    StateInv host h' parts fallback where
  heap   := hi
  dead   := fun d hd => hc ▸ i.dead d hd
  blocks := fun p hp => (i.blocks p hp).congr (fun _ _ => by rw [hc]) (hm p hp)
  clean  := fun p hp => (i.clean p hp).congr (i.blocks p hp) (fun _ _ => by rw [hc]) (hm p hp)
  pages  := i.pages
  small  := i.small
  spare  := i.spare

theorem owned (i : StateInv host h (ps ++ p :: qs) fallback) :
    Owned host ((ps ++ p :: qs).map regionOf ++ fallback) (othersOf ps p qs) h p.1 p.2 where
  heap   := i.heap.perm items_perm
  region := List.mem_append_left _ (List.mem_map.mpr ⟨p, by simp, rfl⟩)
  dead   := fun d h₁ h₂ => i.dead d fun hd => by
    rcases List.mem_append.mp (items_perm.mem_iff.mp hd) with hd | hd
    · exact h₁ hd
    · exact h₂ hd

theorem exists_owned (i : StateInv host h parts fallback) (hp : p ∈ parts) :
    ∃ regions others, Owned host regions others h p.1 p.2 := by
  obtain ⟨ps, qs, rfl⟩ := List.append_of_mem hp
  exact ⟨_, _, i.owned⟩

-- The regions of two blocks, and those of a block and the fallback memory.
theorem apart (i : StateInv host h (ps ++ p :: qs) fallback) (hq : q ∈ ps ++ qs) :
    Apart (regionOf p) (regionOf q) := by
  have ha := (List.pairwise_append.mp i.heap.regions_apart).left
  rw [List.map_append, List.map_cons, List.pairwise_append, List.pairwise_cons] at ha
  rcases List.mem_append.mp hq with hq | hq
  · exact (ha.right.right _ (List.mem_map.mpr ⟨q, hq, rfl⟩) _ (List.mem_cons_self ..)).symm
  · exact ha.right.left.left _ (List.mem_map.mpr ⟨q, hq, rfl⟩)

theorem apart_fallback (i : StateInv host h parts fallback) (hp : p ∈ parts) (ha : a ∈ fallback) :
    Apart (regionOf p) a :=
  (List.pairwise_append.mp i.heap.regions_apart).right.right _ (List.mem_map.mpr ⟨p, hp, rfl⟩) a ha

theorem block_ne (i : StateInv host h (ps ++ p :: qs) fallback) (hq : q ∈ ps ++ qs) : q.1 ≠ p.1 := by
  have hnd := (List.nodup_append.mp (i.heap.perm items_perm).nodup).right.left
  intro he
  refine (List.nodup_cons.mp hnd).left (List.mem_flatMap.mpr ⟨q, hq, ?_⟩)
  rw [← he]
  exact List.mem_cons_self ..

-- What an operation on one block leaves alone.
theorem frame_block (i : StateInv host h (ps ++ p :: qs) fallback)
    (f : Frame ((ps ++ p :: qs).map regionOf ++ fallback) (othersOf ps p qs) p.1 h h')
    (hq : q ∈ ps ++ qs) :
    (∀ d ∈ q.2.cells, h'.cells d = h.cells d) ∧
      ∀ x, q.1.words ≤ x → x < q.1.last → h'.mem x = h.mem x := by
  refine ⟨fun d hd => f.cells d ?_, fun x hx hx' => f.mem (regionOf q) ?_ x ⟨hx, hx'⟩ ?_⟩
  · exact List.mem_cons_of_mem _ (List.mem_flatMap.mpr ⟨q, hq, List.mem_cons_of_mem _ hd⟩)
  · refine List.mem_append_left _ (List.mem_map.mpr ⟨q, ?_, rfl⟩)
    simp only [List.mem_append, List.mem_cons] at hq ⊢
    tauto
  · have := i.apart hq
    simp only [Apart, regionOf, Block.last] at *
    omega

theorem frame_fallback (i : StateInv host h (ps ++ p :: qs) fallback)
    (f : Frame ((ps ++ p :: qs).map regionOf ++ fallback) (othersOf ps p qs) p.1 h h')
    (ha : a ∈ fallback) : Preserves h h' a := by
  intro x hx
  refine f.mem a (List.mem_append_right _ ha) x hx ?_
  have := i.apart_fallback (p := p) (by simp) ha
  simp only [Apart, regionOf, Block.last, Memory.mem_range] at *
  omega

-- An operation on one block preserves the invariant of all.
theorem update (i : StateInv host h (ps ++ p :: qs) fallback) (b' : BlockInv h' block' ℓ')
    (o' : Owned host ((ps ++ p :: qs).map regionOf ++ fallback) (othersOf ps p qs) h' block' ℓ')
    (f : Frame ((ps ++ p :: qs).map regionOf ++ fallback) (othersOf ps p qs) p.1 h h')
    (r : SameRegion p.1 block') (hcl : Clean h' block' ℓ') :
    StateInv host h' (ps ++ (block', ℓ') :: qs) fallback := by
  have hregions : (ps ++ (block', ℓ') :: qs).map regionOf = (ps ++ p :: qs).map regionOf := by
    simp [regionOf, r.words, r.nWords]
  have hothers : othersOf ps (block', ℓ') qs = othersOf ps p qs := by
    simp [othersOf, r.item]
  have hsplit : ∀ q, q ∈ ps ++ (block', ℓ') :: qs → q = (block', ℓ') ∨ q ∈ ps ++ qs := by
    intro q hq
    simp only [List.mem_append, List.mem_cons] at hq ⊢
    tauto
  have hold : ∀ q ∈ ps ++ qs, q ∈ ps ++ p :: qs := by
    intro q hq
    simp only [List.mem_append, List.mem_cons] at hq ⊢
    tauto
  refine ⟨?_, ?_, ?_, ?_, ?_, ?_, i.spare⟩
  · rw [hregions]
    have hperm : ((ps ++ (block', ℓ') :: qs).flatMap itemsOf).Perm (ℓ'.cells ++ othersOf ps (block', ℓ') qs) :=
      items_perm
    rw [hothers] at hperm
    exact o'.heap.perm hperm.symm
  · intro d hd
    rw [(items_perm).mem_iff, List.mem_append, not_or, hothers] at hd
    exact o'.dead d hd.left hd.right
  · intro q hq
    rcases hsplit q hq with rfl | hq
    · exact b'
    · have ⟨hc, hm⟩ := i.frame_block f hq
      exact (i.blocks q (hold q hq)).congr hc hm
  · intro q hq
    rcases hsplit q hq with rfl | hq
    · exact hcl
    · have ⟨hc, hm⟩ := i.frame_block f hq
      exact (i.clean q (hold q hq)).congr (i.blocks q (hold q hq)) hc hm
  · intro q hq
    rcases hsplit q hq with rfl | hq
    · exact r.nWords ▸ i.pages p (by simp)
    · exact i.pages q (hold q hq)
  · intro q hq
    rcases hsplit q hq with rfl | hq
    · exact r.nWords ▸ i.small p (by simp)
    · exact i.small q (hold q hq)

theorem allocs_frame (i : StateInv host h (ps ++ p :: qs) fallback)
    (f : Frame ((ps ++ p :: qs).map regionOf ++ fallback) (othersOf ps p qs) p.1 h h') :
    allocs h' (ps ++ qs) = allocs h (ps ++ qs) ∧
      ∀ a ∈ allocs h (ps ++ qs) ++ fallback, Preserves h h' a := by
  have hold : ∀ q ∈ ps ++ qs, q ∈ ps ++ p :: qs := by
    intro q hq
    simp only [List.mem_append, List.mem_cons] at hq ⊢
    tauto
  constructor
  · refine List.flatMap_congr fun q hq => ?_
    exact (i.blocks q (hold q hq)).allocs_congr (i.frame_block f hq).left
  · intro a ha
    rcases List.mem_append.mp ha with ha | ha
    · obtain ⟨q, hq, haq⟩ := List.mem_flatMap.mp ha
      have ⟨h₁, h₂, h₃⟩ := (i.blocks q (hold q hq)).toShape.alloc_mem haq
      intro x hx
      simp only [Memory.mem_range, wordSize] at *
      exact (i.frame_block f hq).right x (by omega) (by omega)
    · exact i.frame_fallback f ha

-- The allocations after an operation on one block.
theorem update_allocs (i : StateInv host h (ps ++ p :: qs) fallback)
    (f : Frame ((ps ++ p :: qs).map regionOf ++ fallback) (othersOf ps p qs) p.1 h h') :
    (allocs h' (ps ++ (block', ℓ') :: qs)).Perm (ℓ'.allocs h' ++ allocs h (ps ++ qs)) := by
  rw [← (i.allocs_frame f).left]
  exact allocs_perm

-- What is not in the block keeps its contents.
theorem update_preserves (i : StateInv host h (ps ++ p :: qs) fallback)
    (f : Frame ((ps ++ p :: qs).map regionOf ++ fallback) (othersOf ps p qs) p.1 h h')
    (ha : a ∈ allocs h (ps ++ p :: qs) ++ fallback) (hp : a ∈ p.2.allocs h → Preserves h h' a) :
    Preserves h h' a := by
  have hframe := (i.allocs_frame f).right a
  simp only [List.mem_append, (allocs_perm).mem_iff] at ha hframe
  tauto

-- No two allocations overlap.
theorem allocs_apart (i : StateInv host h parts fallback) :
    (allocs h parts ++ fallback).Pairwise Apart := by
  have hregions := List.pairwise_append.mp i.heap.regions_apart
  have hin : ∀ p ∈ parts, ∀ a ∈ p.2.allocs h, ∀ r, Apart (regionOf p) r → Apart a r := by
    intro p hp a ha r hr
    have := (i.blocks p hp).toShape.alloc_mem ha
    simp only [Apart, regionOf, Block.last, wordSize] at *
    omega
  refine List.pairwise_append.mpr ⟨List.pairwise_flatMap.mpr ⟨fun p hp => ?_, ?_⟩, hregions.right.left,
    fun a ha b hb => ?_⟩
  · exact (i.blocks p hp).toShape.allocs_apart
  · refine (List.pairwise_map.mp hregions.left).imp_of_mem fun {p q} hp hq hpq a ha b hb => ?_
    exact (hin q hq b hb a (hin p hp a ha _ hpq).symm).symm
  · obtain ⟨p, hp, ha⟩ := List.mem_flatMap.mp ha
    exact hin p hp a ha b (i.apart_fallback hp hb)

theorem alloc_pos (i : StateInv host h parts fallback) (ha : a ∈ allocs h parts ++ fallback) :
    a.1 ≠ 0 := by
  rcases List.mem_append.mp ha with ha | ha
  · obtain ⟨p, hp, ha⟩ := List.mem_flatMap.mp ha
    have := (i.blocks p hp).toShape.alloc_mem ha
    simp only [wordSize] at this
    omega
  · have := i.heap.region_bounds (List.mem_append_right _ ha)
    omega

-- Whoever writes into an allocation disturbs nothing else.
theorem write (mem : Memory Byte) (i : StateInv host h parts fallback)
    (ha : a ∈ allocs h parts ++ fallback)
    (hm : ∀ x, x ∉ Memory.range a.1 a.2 → mem x = h.mem x) :
    StateInv host { h with mem } parts fallback := by
  rcases List.mem_append.mp ha with ha | ha
  · obtain ⟨p, hp, hap⟩ := List.mem_flatMap.mp ha
    obtain ⟨ps, qs, rfl⟩ := List.append_of_mem hp
    have b := i.blocks p hp
    obtain ⟨c, hc, rfl⟩ := List.mem_map.mp hap
    obtain ⟨w, n, r, t, hg, hu, -, hfit, he, h₁, h₂, h₃⟩ := b.toShape.exists_alloc hc
    rw [he] at hm
    have hout : ∀ x, x < w + wordSize ∨ w + wordSize * (n - 1) ≤ x → mem x = h.mem x := by
      intro x hx
      refine hm x ?_
      simp only [Memory.mem_range, wordSize] at *
      omega
    refine i.update (p := p) ⟨b.toShape.payload (b.rings.cells_of_used hc) hg hout, b.nUsed⟩
      (i.owned.congr rfl rfl rfl .refl fun _ _ => rfl) ⟨fun _ _ => rfl, fun _ _ x _ hx => hout x ?_⟩
      .refl fun x hx hx' hclient => ?_
    · simp only [wordSize] at *
      omega
    · by_cases hxa : x ∈ Memory.range (w + wordSize) r
      case pos => exact ⟨_, hap, by rw [he]; exact hxa⟩
      case neg => exact i.clean p hp x hx hx' (hm x hxa ▸ hclient)
  · refine i.congr (i.heap.congr rfl rfl) rfl fun p hp x hx hx' => hm x ?_
    have := i.apart_fallback hp ha
    simp only [Apart, regionOf, Block.last, Memory.mem_range] at *
    omega

end StateInv

end SecureMemory
