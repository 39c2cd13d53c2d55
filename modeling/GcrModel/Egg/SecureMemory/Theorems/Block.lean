import GcrModel.Egg.SecureMemory.Alloc
import GcrModel.Egg.SecureMemory.Theorems.Pool
import GcrModel.Egg.SecureMemory.Theorems.Walk

open Ring

-- The invariant of a block and the context that the functions on a block leave alone.
namespace SecureMemory

variable {host : Host} {regions : List (Nat × Nat)} {others : List Nat} {h h' h'' : Heap}
  {block block' : Block} {c d w n r x : Nat} {out : Option Nat}

namespace Cells

def Vacant (cells : Cells) (c : Nat) : Prop :=
  cells.use c = some (0, none)

def Occupied (cells : Cells) (c : Nat) : Prop :=
  ∃ r tag, cells.use c = some (r, some tag) ∧ 0 < r

theorem Occupied.not_vacant {cells : Cells} (h : cells.Occupied c) : ¬cells.Vacant c := by
  obtain ⟨r, tag, hu, -⟩ := h
  exact fun hv => by simp [Vacant, hu] at hv

end Cells

-- The cells of a block in the order of their addresses, and those of its two rings.
structure Layout where
  cells  : List Nat
  unused : List Nat
  used   : List Nat

-- The two rings of a block. The cell `out`, if any, is in neither.
structure Rings (cells : Cells) (unusedCells usedCells : Option Nat) (ℓ : Layout)
    (out : Option Nat) : Prop where
  unused     : IsRing cells.next cells.prev unusedCells ℓ.unused
  used       : IsRing cells.next cells.prev usedCells ℓ.used
  mem_unused : ∀ c, c ∈ ℓ.unused ↔ c ∈ ℓ.cells ∧ out ≠ some c ∧ cells.Vacant c
  mem_used   : ∀ c, c ∈ ℓ.used ↔ c ∈ ℓ.cells ∧ out ≠ some c ∧ cells.Occupied c
  kind       : ∀ c ∈ ℓ.cells, out ≠ some c → cells.Vacant c ∨ cells.Occupied c
  loose      : ∀ c, out = some c → c ∈ ℓ.cells ∧ cells.next c = none ∧ cells.prev c = none

-- What holds of a block at all times, also in the middle of the operations.
structure Shape (h : Heap) (block : Block) (ℓ : Layout) (out : Option Nat) : Prop where
  base  : wordSize ≤ block.words
  walk  : Walk h.cells.geom h.mem block.words ℓ.cells block.last
  rings : Rings h.cells block.unusedCells block.usedCells ℓ out
  fits  : ∀ c ∈ ℓ.used, ∀ w n r tag, h.cells.geom c = some (w, n) →
            h.cells.use c = some (r, tag) → r ≤ (n - 2) * wordSize

-- The representation invariant of a block between the operations.
structure BlockInv (h : Heap) (block : Block) (ℓ : Layout) : Prop extends Shape h block ℓ none where
  nUsed : block.nUsed = ℓ.used.length

-- The metadata in use is that of the cells of the block and of `others`.
structure Owned (host : Host) (regions : List (Nat × Nat)) (others : List Nat) (h : Heap)
    (block : Block) (ℓ : Layout) : Prop where
  heap   : HeapInv host regions (ℓ.cells ++ others) h
  region : (block.words, wordSize * block.nWords) ∈ regions
  dead   : ∀ d, d ∉ ℓ.cells → d ∉ others → h.cells d = none

-- What an operation on a block does to everything else: nothing. In the block itself it may write
-- zeros and guards.
structure Frame (regions : List (Nat × Nat)) (others : List Nat) (block : Block) (h h' : Heap) :
    Prop where
  cells : ∀ d ∈ others, h'.cells d = h.cells d
  mem   : ∀ reg ∈ regions, ∀ x ∈ Memory.range reg.1 reg.2, x < block.words ∨ block.last ≤ x →
            h'.mem x = h.mem x

structure SameRegion (block block' : Block) : Prop where
  item   : block'.item = block.item
  words  : block'.words = block.words
  nWords : block'.nWords = block.nWords

-- A cell that an operation does not touch.
structure Kept (h h' : Heap) (d : Nat) : Prop where
  geom : h'.cells.geom d = h.cells.geom d
  use  : h'.cells.use d = h.cells.use d
  mem  : ∀ w n, h.cells.geom d = some (w, n) → ∀ x, w ≤ x → x < w + wordSize * n →
          h'.mem x = h.mem x

-- The bytes of a block that an operation on it does not copy stay the same or are not the client's.
def Block.Scrubbed (block : Block) (h h' : Heap) : Prop :=
  ∀ x, block.words ≤ x → x < block.last → h'.mem x = h.mem x ∨ ¬(h'.mem x).IsClient

-- An operation on a block leaves everything else and the cells in `keep` alone.
structure Step (regions : List (Nat × Nat)) (others keep : List Nat) (h : Heap) (block : Block)
    (h' : Heap) (block' : Block) : Prop where
  frame    : Frame regions others block h h'
  region   : SameRegion block block'
  kept     : ∀ d ∈ keep, Kept h h' d
  scrubbed : block.Scrubbed h h'

theorem SameRegion.refl : SameRegion block block :=
  ⟨rfl, rfl, rfl⟩

theorem SameRegion.trans {block'' : Block} (h₁ : SameRegion block block')
    (h₂ : SameRegion block' block'') : SameRegion block block'' :=
  ⟨h₂.item.trans h₁.item, h₂.words.trans h₁.words, h₂.nWords.trans h₁.nWords⟩

theorem SameRegion.last (h : SameRegion block block') : block'.last = block.last := by
  simp [Block.last, h.words, h.nWords]

theorem Frame.refl : Frame regions others block h h :=
  ⟨fun _ _ => rfl, fun _ _ _ _ _ => rfl⟩

theorem Frame.trans (h₁ : Frame regions others block h h') (h₂ : Frame regions others block h' h'') :
    Frame regions others block h h'' where
  cells := fun d hd => (h₂.cells d hd).trans (h₁.cells d hd)
  mem   := fun reg hr x hx ho => (h₂.mem reg hr x hx ho).trans (h₁.mem reg hr x hx ho)

theorem Kept.refl : Kept h h d :=
  ⟨rfl, rfl, fun _ _ _ _ _ _ => rfl⟩

theorem Kept.trans (h₁ : Kept h h' d) (h₂ : Kept h' h'' d) : Kept h h'' d where
  geom := h₂.geom.trans h₁.geom
  use  := h₂.use.trans h₁.use
  mem  := fun w n hg x hx hx' =>
    (h₂.mem w n (h₁.geom.trans hg) x hx hx').trans (h₁.mem w n hg x hx hx')

theorem Block.Scrubbed.refl : block.Scrubbed h h :=
  fun _ _ _ => .inl rfl

theorem Block.Scrubbed.trans (h₁ : block.Scrubbed h h') (h₂ : block.Scrubbed h' h'') :
    block.Scrubbed h h'' := by
  intro x hx hx'
  rcases h₂ x hx hx' with h | h
  · exact (h₁ x hx hx').imp h.trans fun hc => h ▸ hc
  · exact .inr h

theorem Step.refl {keep : List Nat} : Step regions others keep h block h block :=
  ⟨.refl, .refl, fun _ _ => .refl, .refl⟩

theorem Step.trans {block'' : Block} {keep : List Nat}
    (h₁ : Step regions others keep h block h' block')
    (h₂ : Step regions others keep h' block' h'' block'') :
    Step regions others keep h block h'' block'' where
  frame := h₁.frame.trans
    ⟨h₂.frame.cells, fun reg hr x hx ho => h₂.frame.mem reg hr x hx
      (h₁.region.words ▸ h₁.region.last ▸ ho)⟩
  region   := h₁.region.trans h₂.region
  kept     := fun d hd => (h₁.kept d hd).trans (h₂.kept d hd)
  scrubbed := h₁.scrubbed.trans fun x hx hx' =>
    h₂.scrubbed x (h₁.region.words ▸ hx) (h₁.region.last ▸ hx')

theorem Step.mono {keep keep' : List Nat} (st : Step regions others keep h block h' block')
    (hk : ∀ d ∈ keep', d ∈ keep) : Step regions others keep' h block h' block' :=
  ⟨st.frame, st.region, fun d hd => st.kept d (hk d hd), st.scrubbed⟩

theorem Block.Scrubbed.of_mem (hs : SecureMemory.Scrubbed h.mem h'.mem) : block.Scrubbed h h' :=
  fun x _ _ => hs x

namespace Rings

variable {cells cells' : Cells} {ℓ : Layout} {unusedCells usedCells : Option Nat}

theorem cells_of_used (r : Rings cells unusedCells usedCells ℓ out) (hc : c ∈ ℓ.used) : c ∈ ℓ.cells :=
  ((r.mem_used c).mp hc).left

theorem cells_of_unused (r : Rings cells unusedCells usedCells ℓ out) (hc : c ∈ ℓ.unused) : c ∈ ℓ.cells :=
  ((r.mem_unused c).mp hc).left

theorem occupied (r : Rings cells unusedCells usedCells ℓ out) (hc : c ∈ ℓ.used) : cells.Occupied c :=
  ((r.mem_used c).mp hc).right.right

theorem vacant (r : Rings cells unusedCells usedCells ℓ out) (hc : c ∈ ℓ.unused) : cells.Vacant c :=
  ((r.mem_unused c).mp hc).right.right

theorem not_used_of_unused (r : Rings cells unusedCells usedCells ℓ out) (hc : c ∈ ℓ.unused) : c ∉ ℓ.used :=
  fun hu => (r.occupied hu).not_vacant (r.vacant hc)

theorem out_not_unused (r : Rings cells unusedCells usedCells ℓ (some c)) : c ∉ ℓ.unused :=
  fun hc => ((r.mem_unused c).mp hc).right.left rfl

theorem out_not_used (r : Rings cells unusedCells usedCells ℓ (some c)) : c ∉ ℓ.used :=
  fun hc => ((r.mem_used c).mp hc).right.left rfl

-- The rings only depend on the links and the use of their cells, which are the cells of the block
-- but `out`.
theorem congr {cellList : List Nat} {out' : Option Nat} (r : Rings cells unusedCells usedCells ℓ out)
    (hn : ∀ d ∈ ℓ.cells, out ≠ some d → cells'.next d = cells.next d)
    (hp : ∀ d ∈ ℓ.cells, out ≠ some d → cells'.prev d = cells.prev d)
    (hu : ∀ d ∈ ℓ.cells, out ≠ some d → cells'.use d = cells.use d)
    (hm : ∀ d, d ∈ cellList ∧ out' ≠ some d ↔ d ∈ ℓ.cells ∧ out ≠ some d)
    (hl : ∀ d, out' = some d → d ∈ cellList ∧ cells'.next d = none ∧ cells'.prev d = none) :
    Rings cells' unusedCells usedCells { ℓ with cells := cellList } out' where
  unused := r.unused.congr
    (fun d hd => have ⟨h₁, h₂, _⟩ := (r.mem_unused d).mp hd; hn d h₁ h₂)
    (fun d hd => have ⟨h₁, h₂, _⟩ := (r.mem_unused d).mp hd; hp d h₁ h₂)
  used := r.used.congr
    (fun d hd => have ⟨h₁, h₂, _⟩ := (r.mem_used d).mp hd; hn d h₁ h₂)
    (fun d hd => have ⟨h₁, h₂, _⟩ := (r.mem_used d).mp hd; hp d h₁ h₂)
  mem_unused := by
    intro d
    rw [r.mem_unused, ← and_assoc, ← and_assoc, hm]
    refine and_congr_right fun ⟨h₁, h₂⟩ => ?_
    simp only [Cells.Vacant, hu d h₁ h₂]
  mem_used := by
    intro d
    rw [r.mem_used, ← and_assoc, ← and_assoc, hm]
    refine and_congr_right fun ⟨h₁, h₂⟩ => ?_
    simp only [Cells.Occupied, hu d h₁ h₂]
  kind := by
    intro d hd ho
    obtain ⟨h₁, h₂⟩ := (hm d).mp ⟨hd, ho⟩
    simpa only [Cells.Vacant, Cells.Occupied, hu d h₁ h₂] using r.kind d h₁ h₂
  loose := hl

-- Taking a cell out of the unused ring.
theorem remove_unused (r : Rings cells unusedCells usedCells ℓ none) (hc : c ∈ ℓ.unused) :
    ∃ ring cells', secRemoveCellRing unusedCells c cells = some (ring, cells') ∧
      Rings cells' ring usedCells { ℓ with unused := ℓ.unused.erase c } (some c) ∧
      cells'.geom = cells.geom ∧ cells'.use = cells.use ∧ ∀ x ∉ ℓ.cells, cells' x = cells x := by
  obtain ⟨ring, cells', he, hr, hn, hp, hg, hu, hf⟩ := secRemoveCellRing_spec r.unused hc
  have hframe : ∀ x ∈ ℓ.used, cells' x = cells x :=
    fun x hx => hf x fun hxu => r.not_used_of_unused hxu hx
  refine ⟨ring, cells', he, ?_, hg, hu, fun x hx => hf x fun hxu => hx (r.cells_of_unused hxu)⟩
  refine ⟨hr, ?_, ?_, ?_, ?_, ?_⟩
  · exact Cells.isRing_congr r.used hframe
  · intro d
    simp only [r.unused.nodup.mem_erase_iff, r.mem_unused, Cells.Vacant, hu, ne_eq,
      Option.some.injEq]
    tauto
  · intro d
    have hd : cells.Occupied d → some c ≠ some d := by
      rintro ho ⟨⟩
      exact ho.not_vacant (r.vacant hc)
    simp only [r.mem_used, Cells.Occupied, hu] at hd ⊢
    exact ⟨fun ⟨h₁, _, h₃⟩ => ⟨h₁, hd h₃, h₃⟩, fun ⟨h₁, _, h₃⟩ => ⟨h₁, by simp, h₃⟩⟩
  · intro d hd _
    simpa only [Cells.Vacant, Cells.Occupied, hu] using r.kind d hd (by simp)
  · rintro _ ⟨⟩
    exact ⟨r.cells_of_unused hc, hn, hp⟩

-- Taking a cell out of the unused ring if it is in a ring at all.
theorem leave_unused {cell : Cell} (r : Rings cells unusedCells usedCells ℓ out)
    (hout : out = some c ∨ out = none ∧ c ∈ ℓ.unused) (hc : cells c = some cell) :
    ∃ ring cells' unused, (if cell.next ≠ none then secRemoveCellRing unusedCells c cells
        else some (unusedCells, cells)) = some (ring, cells') ∧
      Rings cells' ring usedCells { ℓ with unused } (some c) ∧
      (∀ d, d ≠ c → (d ∈ unused ↔ d ∈ ℓ.unused)) ∧
      cells'.geom = cells.geom ∧ cells'.use = cells.use ∧ ∀ x ∉ ℓ.cells, cells' x = cells x := by
  rcases hout with rfl | ⟨rfl, hcu⟩
  · obtain ⟨-, hn, -⟩ := r.loose c rfl
    rw [Cells.next_eq hc] at hn
    exact ⟨_, _, ℓ.unused, by simp [hn], r, fun _ _ => Iff.rfl, rfl, rfl, fun _ _ => rfl⟩
  · obtain ⟨ring, cells', he, r', hg, hu, hf⟩ := r.remove_unused hcu
    obtain ⟨next, -, hn⟩ := exists_next r.unused.chain hcu
    have hn := hn.left
    rw [Cells.next_eq hc] at hn
    refine ⟨ring, cells', ℓ.unused.erase c, by simp [hn, he], r', fun d hd => ?_, hg, hu, hf⟩
    simp [r.unused.nodup.mem_erase_iff, hd]

-- Taking a cell out of the used ring.
theorem remove_used (r : Rings cells unusedCells usedCells ℓ none) (hc : c ∈ ℓ.used) :
    ∃ ring cells', secRemoveCellRing usedCells c cells = some (ring, cells') ∧
      Rings cells' unusedCells ring { ℓ with used := ℓ.used.erase c } (some c) ∧
      cells'.geom = cells.geom ∧ cells'.use = cells.use ∧ ∀ x ∉ ℓ.cells, cells' x = cells x := by
  obtain ⟨ring, cells', he, hr, hn, hp, hg, hu, hf⟩ := secRemoveCellRing_spec r.used hc
  have hframe : ∀ x ∈ ℓ.unused, cells' x = cells x :=
    fun x hx => hf x (r.not_used_of_unused hx)
  refine ⟨ring, cells', he, ?_, hg, hu, fun x hx => hf x fun hxu => hx (r.cells_of_used hxu)⟩
  refine ⟨?_, hr, ?_, ?_, ?_, ?_⟩
  · exact Cells.isRing_congr r.unused hframe
  · intro d
    have hd : cells.Vacant d → some c ≠ some d := by
      rintro hv ⟨⟩
      exact (r.occupied hc).not_vacant hv
    simp only [r.mem_unused, Cells.Vacant, hu] at hd ⊢
    exact ⟨fun ⟨h₁, _, h₃⟩ => ⟨h₁, hd h₃, h₃⟩, fun ⟨h₁, _, h₃⟩ => ⟨h₁, by simp, h₃⟩⟩
  · intro d
    simp only [r.used.nodup.mem_erase_iff, r.mem_used, Cells.Occupied, hu, ne_eq,
      Option.some.injEq]
    tauto
  · intro d hd _
    simpa only [Cells.Vacant, Cells.Occupied, hu] using r.kind d hd (by simp)
  · rintro _ ⟨⟩
    exact ⟨r.cells_of_used hc, hn, hp⟩

-- Changing the request of a used cell.
theorem set_use (r : Rings cells unusedCells usedCells ℓ out) {length : Nat} {tag : String}
    (hc : c ∈ ℓ.used) (hn : cells'.next = cells.next) (hp : cells'.prev = cells.prev)
    (hu : cells'.use = Function.update cells.use c (some (length, some tag))) (hl : 0 < length) :
    Rings cells' unusedCells usedCells ℓ out := by
  obtain ⟨hcl, hco, hocc⟩ := (r.mem_used c).mp hc
  have huse_c : cells'.use c = some (length, some tag) := by
    rw [hu, Function.update_self]
  have huse : ∀ d, d ≠ c → cells'.use d = cells.use d := by
    intro d hd
    rw [hu, Function.update_of_ne hd]
  refine ⟨hn ▸ hp ▸ r.unused, hn ▸ hp ▸ r.used, fun d => ?_, fun d => ?_, fun d hd ho => ?_, ?_⟩
  · rw [r.mem_unused]
    by_cases hd : d = c
    case pos =>
      subst hd
      refine iff_of_false (fun hv => hocc.not_vacant hv.right.right) fun hv => ?_
      simp [Cells.Vacant, huse_c] at hv
    case neg => simp only [Cells.Vacant, huse d hd]
  · by_cases hd : d = c
    case pos =>
      subst hd
      exact iff_of_true hc ⟨hcl, hco, length, tag, huse_c, hl⟩
    case neg =>
      rw [r.mem_used]
      simp only [Cells.Occupied, huse d hd]
  · by_cases hdc : d = c
    case pos => subst hdc; exact .inr ⟨length, tag, huse_c, hl⟩
    case neg =>
      simp only [Cells.Vacant, Cells.Occupied, huse d hdc]
      exact r.kind d hd ho
  · rw [hn, hp]
    exact r.loose

-- Putting the cell in neither ring into the used one, after its use is set.
theorem insert_used (r : Rings cells unusedCells usedCells ℓ (some c)) (cells' : Cells) (length : Nat)
    (tag : String)
    (hn : cells'.next = cells.next) (hp : cells'.prev = cells.prev)
    (hu : cells'.use = Function.update cells.use c (some (length, some tag))) (hl : 0 < length) :
    ∃ ring cells'' used, secInsertCellRing usedCells c cells' = some (ring, cells'') ∧
      used.Perm (c :: ℓ.used) ∧
      Rings cells'' unusedCells ring { ℓ with used } none ∧
      cells''.geom = cells'.geom ∧ cells''.use = cells'.use ∧
      ∀ x ∉ ℓ.cells, cells'' x = cells' x := by
  obtain ⟨hc, hnext, hprev⟩ := r.loose c rfl
  have hcu : c ∉ ℓ.used := r.out_not_used
  have hcv : c ∉ ℓ.unused := r.out_not_unused
  have hsome : (cells' c).isSome := by
    rw [← Cells.isSome_use, hu]
    simp
  obtain ⟨cells'', used, he, hperm, hr, hg, hu', hf⟩ := secInsertCellRing_spec
    (hn ▸ hp ▸ r.used) hcu hsome (hn ▸ hnext) (hp ▸ hprev)
  have huse_c : cells''.use c = some (length, some tag) := by
    rw [hu', hu, Function.update_self]
  have huse : ∀ d, d ≠ c → cells''.use d = cells.use d := by
    intro d hd
    rw [hu', hu, Function.update_of_ne hd]
  refine ⟨_, cells'', used, he, hperm, ⟨?_, hr, ?_, ?_, ?_, by simp⟩, hg, hu', ?_⟩
  · refine Cells.isRing_congr (hn ▸ hp ▸ r.unused) fun x hx => hf x ?_
    rw [List.mem_cons, not_or]
    exact ⟨fun he => hcv (he ▸ hx), r.not_used_of_unused hx⟩
  · intro d
    rw [r.mem_unused]
    by_cases hd : d = c
    case pos => subst hd; simp [Cells.Vacant, huse_c]
    case neg => simp [Cells.Vacant, huse d hd, Ne.symm hd]
  · intro d
    rw [hperm.mem_iff, List.mem_cons, r.mem_used]
    by_cases hd : d = c
    case pos => subst hd; simp [Cells.Occupied, huse_c, hc, hl]
    case neg => simp [Cells.Occupied, huse d hd, hd, Ne.symm hd]
  · intro d hd _
    by_cases hdc : d = c
    case pos => subst hdc; exact .inr ⟨length, tag, huse_c, hl⟩
    case neg =>
      simp only [Cells.Vacant, Cells.Occupied, huse d hdc]
      exact r.kind d hd fun he => hdc (Option.some.inj he).symm
  · intro x hx
    refine hf x ?_
    rw [List.mem_cons, not_or]
    exact ⟨fun he => hx (he ▸ hc), fun hxu => hx (r.cells_of_used hxu)⟩

-- Putting the cell in neither ring into the unused one, and resetting its use.
theorem insert_unused (r : Rings cells unusedCells usedCells ℓ (some c)) (hsome : (cells c).isSome) :
    ∃ ring cells₁ cells₂ unused,
      secInsertCellRing unusedCells c cells = some (ring, cells₁) ∧
      cells₁.update c (fun cell => { cell with tag := none, requested := 0 }) = some cells₂ ∧
      Rings cells₂ ring usedCells { ℓ with unused } none ∧
      cells₂.geom = cells.geom ∧ cells₂.use = Function.update cells.use c (some (0, none)) ∧
      ∀ x ∉ ℓ.cells, cells₂ x = cells x := by
  obtain ⟨hc, hnext, hprev⟩ := r.loose c rfl
  have hcu : c ∉ ℓ.used := r.out_not_used
  have hcv : c ∉ ℓ.unused := r.out_not_unused
  obtain ⟨cells₁, unused, he, hperm, hr, hg, hu, hf⟩ :=
    secInsertCellRing_spec r.unused hcv hsome hnext hprev
  obtain ⟨cell, hcell⟩ : ∃ cell, cells₁ c = some cell := by
    rwa [← Option.isSome_iff_exists, ← Cells.isSome_use, hu, Cells.isSome_use]
  let cells₂ : Cells := Function.update cells₁ c (some { cell with tag := none, requested := 0 })
  have hn₂ : cells₂.next = cells₁.next := by simp [cells₂, ← Cells.next_eq hcell]
  have hp₂ : cells₂.prev = cells₁.prev := by simp [cells₂, ← Cells.prev_eq hcell]
  have hg₂ : cells₂.geom = cells.geom := by simp [cells₂, ← Cells.geom_eq hcell, hg]
  have hu₂ : cells₂.use = Function.update cells.use c (some (0, none)) := by simp [cells₂, hu]
  have huse_c : cells₂.use c = some (0, none) := by
    rw [hu₂, Function.update_self]
  have huse : ∀ d, d ≠ c → cells₂.use d = cells.use d := by
    intro d hd
    rw [hu₂, Function.update_of_ne hd]
  have hf₂ : ∀ x, x ≠ c → x ∉ ℓ.unused → cells₂ x = cells x := by
    intro x hx hx'
    rw [show cells₂ x = cells₁ x from Function.update_of_ne hx _ _]
    exact hf x (by simp [hx, hx'])
  refine ⟨_, cells₁, cells₂, unused, he, Cells.update_eq hcell _,
    ⟨hn₂ ▸ hp₂ ▸ hr, ?_, ?_, ?_, ?_, by simp⟩, hg₂, hu₂, ?_⟩
  · refine Cells.isRing_congr r.used fun x hx => hf₂ x (fun he => hcu (he ▸ hx)) ?_
    exact fun hxu => r.not_used_of_unused hxu hx
  · intro d
    rw [hperm.mem_iff, List.mem_cons, r.mem_unused]
    by_cases hd : d = c
    case pos => subst hd; simp [Cells.Vacant, huse_c, hc]
    case neg => simp [Cells.Vacant, huse d hd, hd, Ne.symm hd]
  · intro d
    rw [r.mem_used]
    by_cases hd : d = c
    case pos => subst hd; simp [Cells.Occupied, huse_c]
    case neg => simp [Cells.Occupied, huse d hd, Ne.symm hd]
  · intro d hd _
    by_cases hdc : d = c
    case pos => subst hdc; exact .inl huse_c
    case neg =>
      simp only [Cells.Vacant, Cells.Occupied, huse d hdc]
      exact r.kind d hd fun he => hdc (Option.some.inj he).symm
  · intro x hx
    exact hf₂ x (fun he => hx (he ▸ hc)) fun hxu => hx (r.cells_of_unused hxu)

-- Putting a cell into the unused ring if it is in no ring yet, and resetting its use.
theorem enter_unused {cell : Cell} (r : Rings cells unusedCells usedCells ℓ out)
    (hout : out = some c ∨ out = none ∧ c ∈ ℓ.unused) (hc : cells c = some cell) :
    ∃ ring cells₁ cells₂ unused, (if cell.next = none then secInsertCellRing unusedCells c cells
        else some (unusedCells, cells)) = some (ring, cells₁) ∧
      cells₁.update c (fun cell => { cell with tag := none, requested := 0 }) = some cells₂ ∧
      Rings cells₂ ring usedCells { ℓ with unused } none ∧ cells₂.geom = cells.geom ∧
      cells₂.use = Function.update cells.use c (some (0, none)) ∧
      ∀ x ∉ ℓ.cells, cells₂ x = cells x := by
  rcases hout with rfl | ⟨rfl, hcu⟩
  · obtain ⟨-, hn, -⟩ := r.loose c rfl
    rw [Cells.next_eq hc] at hn
    obtain ⟨ring, cells₁, cells₂, unused, he, hu, r', hg, hus, hf⟩ := r.insert_unused (by simp [hc])
    exact ⟨ring, cells₁, cells₂, unused, by simp [hn, he], hu, r', hg, hus, hf⟩
  · obtain ⟨next, -, hn⟩ := exists_next r.unused.chain hcu
    have hn := hn.left
    rw [Cells.next_eq hc] at hn
    have hv : cells.use c = some (0, none) := r.vacant hcu
    have huse : Function.update cells.use c (some (0, none)) = cells.use := by simp [← hv]
    refine ⟨unusedCells, cells, _, ℓ.unused, by simp [hn], Cells.update_eq hc _, ?_, ?_, by simp,
      fun x hx => ?_⟩
    · refine r.congr ?_ ?_ ?_ (fun _ => Iff.rfl) (by simp)
      · simp [← Cells.next_eq hc]
      · simp [← Cells.prev_eq hc]
      · simp [← hv]
    · simp [← Cells.geom_eq hc]
    · exact Function.update_of_ne (fun he : x = c => hx (he ▸ r.cells_of_unused hcu)) _ _

end Rings

namespace Shape

variable {ℓ : Layout}

theorem nodup (s : Shape h block ℓ out) : ℓ.cells.Nodup :=
  s.walk.nodup

-- The shape only depends on the metadata of the cells of the block and its memory.
theorem congr (s : Shape h block ℓ out) (hc : ∀ d ∈ ℓ.cells, h'.cells d = h.cells d)
    (hm : ∀ x, block.words ≤ x → x < block.last → h'.mem x = h.mem x) : Shape h' block ℓ out where
  base  := s.base
  walk  := s.walk.congr (fun d hd => by simp only [Cells.geom, hc d hd]) hm
  rings := by
    refine s.rings.congr ?_ ?_ ?_ (fun _ => Iff.rfl) fun d hd => ?_
    · intro d hd _
      simp only [Cells.next, hc d hd]
    · intro d hd _
      simp only [Cells.prev, hc d hd]
    · intro d hd _
      simp only [Cells.use, hc d hd]
    · obtain ⟨h₁, h₂, h₃⟩ := s.rings.loose d hd
      exact ⟨h₁, by simpa only [Cells.next, hc d h₁] using h₂,
        by simpa only [Cells.prev, hc d h₁] using h₃⟩
  fits  := by
    intro d hd w n r tag hg hu
    have hd' := s.rings.cells_of_used hd
    simp only [Cells.geom, Cells.use, hc d hd'] at hg hu
    exact s.fits d hd w n r tag hg hu

theorem length_le (s : Shape h block ℓ out) :
    ℓ.cells.length ≤ block.nWords := by
  have := s.walk.length_le
  simp only [Block.last, wordSize] at this
  omega

theorem unused_length_le (s : Shape h block ℓ out) : ℓ.unused.length ≤ block.nWords :=
  Nat.le_trans (s.rings.unused.nodup.subperm fun _ hc => s.rings.cells_of_unused hc).length_le
    s.length_le

theorem used_length_le (s : Shape h block ℓ out) : ℓ.used.length ≤ block.nWords :=
  Nat.le_trans (s.rings.used.nodup.subperm fun _ hc => s.rings.cells_of_used hc).length_le
    s.length_le

end Shape

theorem exists_cell_of_mem {ℓ : Layout} (s : Shape h block ℓ out) (hc : c ∈ ℓ.cells) :
    ∃ cell, h.cells c = some cell := by
  obtain ⟨w, n, hg⟩ := s.walk.exists_geom hc
  obtain ⟨cell, hcell, -⟩ := exists_cell_of_geom hg
  exact ⟨cell, hcell⟩

theorem Owned.item_lt {ℓ : Layout} (o : Owned host regions others h block ℓ) (hc : c ∈ ℓ.cells) :
    c < 2 ^ 64 :=
  (o.heap.item_bounds (List.mem_append_left _ hc)).right

theorem Owned.congr {ℓ ℓ' : Layout} (o : Owned host regions others h block ℓ)
    (hp : h'.pools = h.pools) (hm : h'.maps = h.maps) (hl : ℓ'.cells = ℓ.cells)
    (hs : SameRegion block block') (hd : ∀ d, d ∉ ℓ.cells → h'.cells d = h.cells d) :
    Owned host regions others h' block' ℓ' where
  heap   := by rw [hl]; exact o.heap.congr hp hm
  region := by rw [hs.words, hs.nWords]; exact o.region
  dead   := fun d h₁ h₂ => (hd d (hl ▸ h₁)).trans (o.dead d (hl ▸ h₁) h₂)

theorem Owned.others_not_mem {ℓ : Layout} (o : Owned host regions others h block ℓ)
    (hd : d ∈ others) : d ∉ ℓ.cells :=
  fun hc => (List.nodup_append.mp o.heap.nodup).right.right d hc d hd rfl

end SecureMemory
