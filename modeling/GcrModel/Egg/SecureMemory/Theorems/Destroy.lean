import GcrModel.Egg.SecureMemory.Theorems.State

open Ring

-- Creating and destroying blocks, and the memory of the fallback allocator.
namespace SecureMemory

variable {host : Host} {h h' : Heap} {p q : Block × Layout} {ps qs parts : List (Block × Layout)}
  {fallback regions : List (Nat × Nat)} {others l : List Nat} {ring : Option Nat} {fuel : Nat}
  {a r : Nat × Nat} {length : Nat}

theorem munmap_spec {live : List Nat} (i : HeapInv host (r :: regions) live h) :
    HeapInv host regions live (munmap r.1 r.2 h) where
  maps   := by
    refine (i.maps.erase r).trans ?_
    refine (List.perm_middle.erase r).trans ?_
    rw [List.erase_cons_head]
    exact .refl _
  apart  := i.apart.sublist List.erase_sublist
  bounds := fun s hs => i.bounds s (List.mem_of_mem_erase hs)
  pools  := i.pools
  owned  := i.owned
  nodup  := i.nodup

-- The cells of a ring are given back one by one.
theorem secReleaseCells_spec (fuel : Nat) (hr : IsRing h.cells.next h.cells.prev ring l)
    (i : HeapInv host regions (l ++ others) h) (hf : l.length ≤ fuel) :
    ∃ h', secReleaseCells fuel ring h = some h' ∧ h'.mem = h.mem ∧ HeapInv host regions others h' ∧
      (∀ d ∈ l, h'.cells d = none) ∧ ∀ d ∉ l, h'.cells d = h.cells d := by
  induction fuel generalizing h ring l with
  | zero =>
    rw [Nat.le_zero, List.length_eq_zero_iff] at hf
    subst hf
    cases hr.head
    exact ⟨h, by simp [secReleaseCells], rfl, i, by simp, fun _ _ => rfl⟩
  | succ fuel ih =>
    cases ring with
    | none =>
      cases hr.eq_nil
      exact ⟨h, by simp [secReleaseCells], rfl, i, by simp, fun _ _ => rfl⟩
    | some c =>
      obtain ⟨t, rfl⟩ := hr.exists_cons
      obtain ⟨ring', cells, he, hr', -, -, -, -, hframe⟩ :=
        secRemoveCellRing_spec hr (List.mem_cons_self ..)
      rw [List.erase_cons_head] at hr'
      have i₁ : HeapInv host regions ((c :: t) ++ others) { h with cells } := i.congr rfl rfl
      obtain ⟨h₁, he₁, hm₁, hc₁, i₂⟩ := poolFree_spec c i₁ (by simp)
      rw [List.cons_append, List.erase_cons_head] at i₂
      have hnd := List.nodup_cons.mp hr.nodup
      have hframe₁ : ∀ d, d ≠ c → h₁.cells d = cells d := by
        intro d hd
        rw [hc₁, Function.update_of_ne hd]
      have hr₁ : IsRing h₁.cells.next h₁.cells.prev ring' t :=
        Cells.isRing_congr hr' fun d hd => hframe₁ d fun hdc => hnd.left (hdc ▸ hd)
      obtain ⟨h', he', hm', i', hnone, hsame⟩ := ih hr₁ i₂ (Nat.le_of_succ_le_succ hf)
      refine ⟨h', ?_, hm'.trans hm₁, i', fun d hd => ?_, fun d hd => ?_⟩
      · simp only [secReleaseCells, he, he₁, he', Option.bind_eq_bind, Option.bind_some]
      · by_cases hdt : d ∈ t
        case pos => exact hnone d hdt
        case neg =>
          obtain rfl : d = c := (List.mem_cons.mp hd).resolve_right hdt
          rw [hsame d hdt, hc₁, Function.update_self]
      · rw [List.mem_cons, not_or] at hd
        rw [hsame d hd.right, hframe₁ d hd.left, hframe d (by simp [hd])]

-- A block without allocations goes away with all its metadata.
theorem secBlockDestroy_spec (i : StateInv host h (ps ++ p :: qs) fallback) (hn : p.1.nUsed = 0) :
    ∃ h', secBlockDestroy host p.1 ⟨h, (ps ++ p :: qs).map Prod.fst⟩ =
        some ⟨h', (ps ++ qs).map Prod.fst⟩ ∧
      StateInv host h' (ps ++ qs) fallback ∧ h'.mem = h.mem ∧
      allocs h' (ps ++ qs) = allocs h (ps ++ p :: qs) := by
  have b := i.blocks p (by simp)
  have hused : p.2.used = [] := List.length_eq_zero_iff.mp (b.nUsed.symm.trans hn)
  have hring : p.1.usedCells = none := by
    have := b.rings.used.head
    rwa [hused] at this
  -- All cells are unused.
  have hperm : p.2.cells.Perm p.2.unused := by
    refine (List.perm_ext_iff_of_nodup b.toShape.nodup b.rings.unused.nodup).mpr fun d => ?_
    rw [b.rings.mem_unused]
    constructor
    · intro hd
      refine ⟨hd, by simp, (b.rings.kind d hd (by simp)).resolve_right fun ho => ?_⟩
      have hdu := (b.rings.mem_used d).mpr ⟨hd, by simp, ho⟩
      simp [hused] at hdu
    · exact And.left
  have hi := i.heap.perm items_perm
  obtain ⟨h₁, he₁, hm₁, i₁, hnone₁, hsame₁⟩ := secReleaseCells_spec p.1.nWords
    b.rings.unused (hi.perm (hperm.append_right _)) b.toShape.unused_length_le
  have hregions : ((ps ++ p :: qs).map regionOf ++ fallback).Perm
      (regionOf p :: ((ps ++ qs).map regionOf ++ fallback)) := by
    simp only [List.map_append, List.map_cons, List.append_assoc]
    exact List.perm_middle
  have i₂ := munmap_spec (i₁.perm_regions hregions)
  obtain ⟨h₃, he₃, hm₃, hc₃, i₃⟩ := poolFree_spec p.1.item i₂ (List.mem_cons_self ..)
  rw [othersOf, List.erase_cons_head] at i₃
  have hmem : h₃.mem = h.mem := hm₃.trans hm₁
  have hnd := List.nodup_append.mp hi.nodup
  have hcells : ∀ d, d ∉ p.2.cells → d ≠ p.1.item → h₃.cells d = h.cells d := by
    intro d hd hdi
    rw [hc₃, Function.update_of_ne hdi]
    exact hsame₁ d fun hdu => hd (hperm.mem_iff.mpr hdu)
  have hcells' : ∀ d ∈ (ps ++ qs).flatMap itemsOf, h₃.cells d = h.cells d := by
    intro d hd
    refine hcells d (fun hdc => hnd.right.right d hdc d (List.mem_cons_of_mem _ hd) rfl) fun hdi => ?_
    exact (List.nodup_cons.mp hnd.right.left).left (hdi ▸ hd)
  have hold : ∀ q ∈ ps ++ qs, q ∈ ps ++ p :: qs := by
    intro q hq
    simp only [List.mem_append, List.mem_cons] at hq ⊢
    tauto
  have hcellsq : ∀ q ∈ ps ++ qs, ∀ d ∈ q.2.cells, h₃.cells d = h.cells d := fun q hq d hd =>
    hcells' d (List.mem_flatMap.mpr ⟨q, hq, List.mem_cons_of_mem _ hd⟩)
  refine ⟨h₃, ?_, ⟨i₃, fun d hd => ?_, fun q hq => ?_, fun q hq => ?_,
    fun q hq => i.pages q (hold q hq), fun q hq => i.small q (hold q hq), i.spare⟩, hmem, ?_⟩
  · have hmem' : p.1 ∈ (ps ++ p :: qs).map Prod.fst := List.mem_map.mpr ⟨p, by simp, rfl⟩
    have herase : ((ps ++ p :: qs).map Prod.fst).erase p.1 = (ps ++ qs).map Prod.fst := by
      have hne : p.1 ∉ ps.map Prod.fst := by
        intro hp
        obtain ⟨q, hq, he⟩ := List.mem_map.mp hp
        exact i.block_ne (List.mem_append_left _ hq) he
      rw [List.map_append, List.map_cons, List.erase_append_right _ hne, List.erase_cons_head,
        List.map_append]
    have he₃' : poolFree p.1.item (munmap p.1.words (wordSize * p.1.nWords) h₁) = some h₃ := he₃
    simp only [secBlockDestroy, guard, hn, hmem', hring, he₁, i.pages p (by simp), he₃', herase,
      if_true, Option.pure_def, Option.bind_eq_bind, Option.bind_some]
  · by_cases hdi : d = p.1.item
    case pos => rw [hc₃, hdi, Function.update_self]
    case neg =>
      by_cases hdc : d ∈ p.2.cells
      case pos =>
        rw [hc₃, Function.update_of_ne hdi]
        exact hnone₁ d (hperm.mem_iff.mp hdc)
      case neg =>
        rw [hcells d hdc hdi]
        refine i.dead d fun hd' => ?_
        have := items_perm.mem_iff.mp hd'
        simp only [othersOf, List.mem_append, List.mem_cons] at this hd
        tauto
  · exact (i.blocks q (hold q hq)).congr (hcellsq q hq) fun _ _ _ => by rw [hmem]
  · exact (i.clean q (hold q hq)).congr (i.blocks q (hold q hq)) (hcellsq q hq) fun _ _ _ => by rw [hmem]
  · have hsame : allocs h₃ (ps ++ qs) = allocs h (ps ++ qs) :=
      List.flatMap_congr fun q hq => (i.blocks q (hold q hq)).allocs_congr (hcellsq q hq)
    rw [hsame]
    simp [allocs, Layout.allocs, hused]

theorem pagesFor_bounds (host : Host) (size : Nat) :
    host.pageSize ∣ pagesFor host size ∧ size ≤ pagesFor host size ∧
      pagesFor host size < size + host.pageSize := by
  have hpos : 0 < host.pageSize := Nat.lt_of_lt_of_le (by decide) host.pageSize_ge
  refine ⟨Nat.dvd_mul_left .., ?_, ?_⟩
  · have := Nat.lt_div_mul_add hpos (a := size + host.pageSize - 1)
    simp only [pagesFor]
    omega
  · have := Nat.div_mul_le_self (size + host.pageSize - 1) host.pageSize
    simp only [pagesFor]
    omega

theorem blockSize_bounds {size : Nat} (hs : ¬insane size) :
    defaultBlockSize ≤ (if size < defaultBlockSize then defaultBlockSize else size) ∧
      (if size < defaultBlockSize then defaultBlockSize else size) < 2 ^ 31 := by
  simp only [insane] at hs
  split
  all_goals
    simp only [defaultBlockSize] at *
    omega

-- Memory and allocations that an operation outside of the blocks leaves alone.
structure Undisturbed (parts : List (Block × Layout)) (fallback : List (Nat × Nat)) (h h' : Heap) :
    Prop where
  mem      : ∀ r ∈ parts.map regionOf ++ fallback, ∀ x ∈ Memory.range r.1 r.2, h'.mem x = h.mem x
  payloads : allocs h' parts = allocs h parts

theorem Undisturbed.refl : Undisturbed parts fallback h h :=
  ⟨fun _ _ _ _ => rfl, rfl⟩

theorem Undisturbed.of_cells
    (hm : ∀ r ∈ parts.map regionOf ++ fallback, ∀ x ∈ Memory.range r.1 r.2, h'.mem x = h.mem x)
    (hc : ∀ d ∈ parts.flatMap itemsOf, h'.cells d = h.cells d) (i : StateInv host h parts fallback) :
    Undisturbed parts fallback h h' := by
  refine ⟨hm, List.flatMap_congr fun p hp => (i.blocks p hp).allocs_congr fun d hd => hc d ?_⟩
  exact List.mem_flatMap.mpr ⟨p, hp, List.mem_cons_of_mem _ hd⟩

theorem Undisturbed.preserves (u : Undisturbed parts fallback h h')
    (i : StateInv host h parts fallback) (ha : a ∈ allocs h parts ++ fallback) : Preserves h h' a := by
  intro x hx
  rcases List.mem_append.mp ha with ha | ha
  · obtain ⟨p, hp, ha⟩ := List.mem_flatMap.mp ha
    obtain ⟨h₁, h₂, h₃⟩ := (i.blocks p hp).toShape.alloc_mem ha
    refine u.mem (regionOf p) (List.mem_append_left _ (List.mem_map.mpr ⟨p, hp, rfl⟩)) x ?_
    simp only [Memory.mem_range, regionOf, Block.last, wordSize] at *
    omega
  · exact u.mem a (List.mem_append_right _ ha) x hx

theorem StateInv.unchanged (i : StateInv host h parts fallback)
    (hi : HeapInv host (parts.map regionOf ++ fallback) (parts.flatMap itemsOf) h')
    (hc : h'.cells = h.cells)
    (hm : ∀ r ∈ parts.map regionOf ++ fallback, ∀ x ∈ Memory.range r.1 r.2, h'.mem x = h.mem x) :
    StateInv host h' parts fallback ∧ Undisturbed parts fallback h h' := by
  refine ⟨i.congr hi hc fun p hp x hx hx' => ?_, .of_cells hm (fun d _ => by rw [hc]) i⟩
  exact hm (regionOf p) (List.mem_append_left _ (List.mem_map.mpr ⟨p, hp, rfl⟩)) x ⟨hx, hx'⟩

-- A fresh mapping with its first cell.
theorem newBlock_spec {c item words length : Nat} {h₂ : Heap} (i : StateInv host h parts fallback)
    (hi : HeapInv host ((words, length) :: (parts.map regionOf ++ fallback))
      (c :: item :: parts.flatMap itemsOf) h₂)
    (hc₂ : h₂.cells = Function.update (Function.update h.cells item (some {})) c (some {}))
    (hm₂ : ∀ r ∈ parts.map regionOf ++ fallback, ∀ x ∈ Memory.range r.1 r.2, h₂.mem x = h.mem x)
    (hzero : ∀ x ∈ Memory.range words length, h₂.mem x = .zero)
    (hdvd : host.pageSize ∣ words) (hdvd' : host.pageSize ∣ length) (hlen : defaultBlockSize ≤ length)
    (hsmall : length / wordSize < 2 ^ 32) :
    ∃ cells h₃ cells' p, h₂.cells.update c (fun cell => { cell with
          words, nWords := length / wordSize, requested := 0 }) = some cells ∧
      secWriteGuards c { h₂ with cells } = some h₃ ∧
      secInsertCellRing none c h₃.cells = some (some c, cells') ∧
      p = ({ item, words, nWords := length / wordSize, unusedCells := some c }, ⟨[c], [c], []⟩) ∧
      StateInv host { h₃ with cells := cells' } (p :: parts) fallback ∧
      Undisturbed parts fallback h { h₃ with cells := cells' } := by
  have hnd := hi.nodup
  simp only [List.nodup_cons, List.mem_cons, not_or] at hnd
  obtain ⟨⟨hci, hcp⟩, hip, -⟩ := hnd
  have hcell : h₂.cells c = some {} := by rw [hc₂, Function.update_self]
  obtain ⟨cells, hu, hn, hp, hus, hg, hf⟩ := update_geom hcell words (length / wordSize)
    (f := fun cell => { cell with words, nWords := length / wordSize, requested := 0 }) rfl
  have hgc : cells.geom c = some (words, length / wordSize) := by rw [hg, Function.update_self]
  have hwords : wordSize * (length / wordSize) = length :=
    Nat.mul_div_cancel' (Nat.dvd_trans host.dvd_pageSize hdvd')
  obtain ⟨mem, he, hw, hm, hs, -⟩ := secWriteGuards_spec (h := { h₂ with cells }) hgc
    (by simp only [defaultBlockSize, wordSize] at *; omega) (hi.item_bounds (by simp)).right
  obtain ⟨cells', l, hins, hperm, hr, hg', hus', hf'⟩ := secInsertCellRing_spec
    (.nil : IsRing cells.next cells.prev none []) (c := c) (by simp)
    (by rw [← Cells.isSome_geom, hgc]; rfl) (by rw [hn, Cells.next_eq hcell])
    (by rw [hp, Cells.prev_eq hcell])
  obtain rfl : l = [c] := List.perm_singleton.mp hperm
  have hframe : ∀ d, d ≠ c → cells' d = Function.update h.cells item (some {}) d := by
    intro d hd
    rw [hf' d (by simpa using hd), hf d hd, hc₂, Function.update_of_ne hd]
  have hitems : ∀ d ∈ parts.flatMap itemsOf, cells' d = h.cells d := by
    intro d hd
    rw [hframe d fun he => hcp (he ▸ hd), Function.update_of_ne fun he => hip (by rwa [← he])]
  have hmem : ∀ r ∈ parts.map regionOf ++ fallback, ∀ x ∈ Memory.range r.1 r.2, mem x = h.mem x := by
    intro r hr x hx
    refine (hm x ?_).trans (hm₂ r hr x hx)
    have := (List.pairwise_cons.mp hi.regions_apart).left r hr
    rw [hwords]
    simp only [Apart, Memory.mem_range] at *
    omega
  have hcellsq : ∀ q ∈ parts, ∀ d ∈ q.2.cells, cells' d = h.cells d := fun q hq d hd =>
    hitems d (List.mem_flatMap.mpr ⟨q, hq, List.mem_cons_of_mem _ hd⟩)
  have hmemq : ∀ q ∈ parts, ∀ x, q.1.words ≤ x → x < q.1.last → mem x = h.mem x := fun q hq x hx hx' =>
    hmem (regionOf q) (List.mem_append_left _ (List.mem_map.mpr ⟨q, hq, rfl⟩)) x ⟨hx, hx'⟩
  have huse : cells'.use c = some (0, none) := by rw [hus', hus, Cells.use_eq hcell]
  have hbounds := hi.region_bounds (List.mem_cons_self ..)
  refine ⟨cells, _, cells', _, hu, he, hins, rfl, ⟨?_, ?_, ?_, ?_, ?_, ?_, i.spare⟩,
    .of_cells hmem hitems i⟩
  · rw [List.map_cons, regionOf, hwords]
    exact (hi.perm (.swap ..)).congr rfl rfl
  · intro d hd
    simp only [List.flatMap_cons, itemsOf, List.cons_append, List.nil_append, List.mem_cons,
      not_or] at hd
    refine (hframe d hd.right.left).trans ?_
    rw [Function.update_of_ne hd.left]
    exact i.dead d hd.right.right
  · intro q hq
    rcases List.mem_cons.mp hq with rfl | hq
    · refine ⟨⟨?_, hg' ▸ hw, ⟨hr, .nil, ?_, ?_, ?_, by simp⟩, by simp⟩, rfl⟩
      · have := Nat.le_of_dvd hbounds.left (Nat.dvd_trans host.dvd_pageSize hdvd)
        exact this
      · intro d
        simp only [List.mem_singleton, ne_eq, reduceCtorEq, not_false_eq_true, true_and]
        exact ⟨fun hd => ⟨hd, hd ▸ huse⟩, And.left⟩
      · intro d
        simp only [List.mem_singleton, List.not_mem_nil, ne_eq, reduceCtorEq, not_false_eq_true,
          true_and, false_iff, not_and]
        rintro rfl ho
        exact ho.not_vacant huse
      · intro d hd _
        exact .inl (List.mem_singleton.mp hd ▸ huse)
    · exact (i.blocks q hq).congr (hcellsq q hq) (hmemq q hq)
  · intro q hq
    rcases List.mem_cons.mp hq with rfl | hq
    · intro x hx hx' hclient
      have hz := hzero x ⟨hx, by simpa only [Block.last, hwords] using hx'⟩
      refine absurd hclient (hs.not_isClient ?_)
      simp [hz, Byte.IsClient]
    · exact (i.clean q hq).congr (i.blocks q hq) (hcellsq q hq) (hmemq q hq)
  · intro q hq
    rcases List.mem_cons.mp hq with rfl | hq
    · simpa only [hwords] using hdvd'
    · exact i.pages q hq
  · intro q hq
    rcases List.mem_cons.mp hq with rfl | hq
    · exact hsmall
    · exact i.small q hq

-- A new block is one unused cell. In the other cases everything that was allocated is given back.
theorem secBlockCreate_spec {size : Nat} (i : StateInv host h parts fallback)
    (hsize : ¬insane size) :
    ∃ r h', (r = none ∧ secBlockCreate host size ⟨h, parts.map Prod.fst⟩ =
          some (none, ⟨h', parts.map Prod.fst⟩) ∧ StateInv host h' parts fallback ∨
        ∃ p : Block × Layout, r = some p.1 ∧ secBlockCreate host size ⟨h, parts.map Prod.fst⟩ =
          some (some p.1, ⟨h', p.1 :: parts.map Prod.fst⟩) ∧
          StateInv host h' (p :: parts) fallback ∧ p.2.used = []) ∧
      Undisturbed parts fallback h h' := by
  unfold secBlockCreate
  by_cases hforce : host.forceFallback
  case pos =>
    simp only [hforce, if_true]
    exact ⟨none, h, .inl ⟨rfl, rfl, i⟩, .refl⟩
  case neg =>
    simp only [hforce, Bool.false_eq_true, if_false]
    obtain ⟨r₁, h₁, he₁, hm₁, hnone₁, hsome₁⟩ := poolAlloc_spec i.heap
    simp only [he₁, Option.bind_eq_bind, Option.bind_some]
    cases r₁ with
    | none =>
      obtain ⟨hc₁, i₁⟩ := hnone₁ rfl
      obtain ⟨i', u⟩ := i.unchanged i₁ hc₁ hm₁
      exact ⟨none, h₁, .inl ⟨rfl, rfl, i'⟩, u⟩
    | some item =>
      obtain ⟨hitem, hc₁, i₁⟩ := hsome₁ item rfl
      have hback : Function.update (Function.update h.cells item (some {})) item none = h.cells := by
        rw [Function.update_idem, ← i.dead item hitem, Function.update_eq_self]
      obtain ⟨r₂, h₂, he₂, hm₂, hnone₂, hsome₂⟩ := poolAlloc_spec i₁
      have hm₂' : ∀ r ∈ parts.map regionOf ++ fallback, ∀ x ∈ Memory.range r.1 r.2,
          h₂.mem x = h.mem x := fun r hr x hx => (hm₂ r hr x hx).trans (hm₁ r hr x hx)
      simp only [he₂, Option.bind_some]
      cases r₂ with
      | none =>
        obtain ⟨hc₂, i₂⟩ := hnone₂ rfl
        obtain ⟨h₃, he₃, hm₃, hc₃, i₃⟩ := poolFree_spec item i₂ (by simp)
        rw [List.erase_cons_head] at i₃
        obtain ⟨i', u⟩ := i.unchanged i₃ (by rw [hc₃, hc₂, hc₁, hback]) fun r hr x hx => by
          rw [hm₃, hm₂' r hr x hx]
        exact ⟨none, h₃, .inl ⟨rfl, by simp [he₃], i'⟩, u⟩
      | some c =>
        obtain ⟨hc, hc₂, i₂⟩ := hsome₂ c rfl
        rw [hc₁] at hc₂
        have hsize' := blockSize_bounds hsize
        generalize (if size < defaultBlockSize then defaultBlockSize else size) = size at hsize' ⊢
        obtain ⟨hdvd, hle, hlt⟩ := pagesFor_bounds host size
        simp only [secAcquirePages]
        rcases mmap_spec host i₂ (pagesFor host size) with
          ⟨sys, hmm⟩ | ⟨words, h₃, hmm, hwdvd, hc₃, hp₃, hm₃, hapart, i₃⟩
        · have i₃ : HeapInv host (parts.map regionOf ++ fallback)
              (c :: item :: parts.flatMap itemsOf) { h₂ with sys } := i₂.sys sys
          have hci : c ≠ item := fun he => hc (he ▸ List.mem_cons_self ..)
          obtain ⟨h₄, he₄, hm₄, hc₄, i₄⟩ := poolFree_spec item i₃ (by simp)
          rw [List.erase_cons_tail (by simpa using hci), List.erase_cons_head] at i₄
          obtain ⟨h₅, he₅, hm₅, hc₅, i₅⟩ := poolFree_spec c i₄ (by simp)
          rw [List.erase_cons_head] at i₅
          have hcells : h₅.cells = h.cells := by
            have hcn := i.dead c fun hd => hc (List.mem_cons_of_mem _ hd)
            have hin := i.dead item hitem
            funext d
            simp only [hc₅, hc₄, hc₂, Function.update_apply]
            split_ifs with h₁ h₂
            · rw [h₁, hcn]
            · rw [h₂, hin]
            · rfl
          obtain ⟨i', u⟩ := i.unchanged i₅ hcells fun r hr x hx => by
            rw [hm₅, hm₄]
            exact hm₂' r hr x hx
          exact ⟨none, h₅, .inl ⟨rfl, by simp [hmm, he₄, he₅], i'⟩, u⟩
        · have hmem₃ : ∀ r ∈ parts.map regionOf ++ fallback, ∀ x ∈ Memory.range r.1 r.2,
              h₃.mem x = h.mem x := by
            intro r hr x hx
            rw [hm₃, Memory.fill_frame]
            · exact hm₂' r hr x hx
            · have := hapart r (i₂.maps.mem_iff.mpr (List.mem_append_right _ hr))
              simp only [Apart, Memory.mem_range] at *
              omega
          have hsmall : pagesFor host size / wordSize < 2 ^ 32 := by
            have := Nat.pow_le_pow_right (n := 2) (by decide) host.pageBits_le
            simp only [Host.pageSize, wordSize] at *
            omega
          obtain ⟨cells, h₄, cells', p, hu, he₄, hins, rfl, i', u⟩ := newBlock_spec i i₃ (hc₃.trans hc₂)
            hmem₃ (fun x hx => by rw [hm₃, Memory.fill_eq hx]) hwdvd hdvd
            (Nat.le_trans hsize'.left hle) hsmall
          refine ⟨_, _, .inr ⟨_, rfl, ?_, i', rfl⟩, u⟩
          simp only [hmm, hu, he₄, hins, Option.bind_some]

-- The fallback allocator fails or hands out memory that overlaps nothing.
theorem fallbackAlloc_spec (i : StateInv host h parts fallback) (hf : host.fallback) (length : Nat) :
    ∃ m h', fallbackAlloc length h = (m, h') ∧ h'.mem = h.mem ∧ h'.cells = h.cells ∧
      StateInv host h' parts (returned length m ++ fallback) ∧
      ∀ p, m = some p → ∀ r ∈ parts.map regionOf ++ fallback, Apart (p, length) r := by
  unfold fallbackAlloc
  match hs : h.sys with
  | []          => exact ⟨none, h, rfl, rfl, rfl, i, by simp⟩
  | none :: sys => exact ⟨none, _, rfl, rfl, rfl, i.congr (i.heap.sys sys) rfl fun _ _ _ _ _ => rfl, by simp⟩
  | some base :: sys =>
    by_cases hb : Free h.maps base length
    case neg =>
      simp only [hb, if_false]
      exact ⟨none, _, rfl, rfl, rfl, i.congr (i.heap.sys sys) rfl fun _ _ _ _ _ => rfl, by simp⟩
    case pos =>
      simp only [hb, if_true]
      obtain ⟨hpos, hlen, hle, ha⟩ := hb
      refine ⟨some base, _, rfl, rfl, rfl, ⟨⟨?_, ?_, ?_, i.heap.pools, i.heap.owned, i.heap.nodup⟩,
        i.dead, fun p hp => (i.blocks p hp).congr (fun _ _ => rfl) fun _ _ _ => rfl,
        fun p hp => (i.clean p hp).congr (i.blocks p hp) (fun _ _ => rfl) fun _ _ _ => rfl,
        i.pages, i.small, fun _ => hf⟩, ?_⟩
      · refine (i.heap.maps.cons _).trans ?_
        have hp := @List.perm_middle _ (base, length)
          (h.pools.map Pool.region ++ parts.map regionOf) fallback
        simpa only [returned, Option.elim_some, List.append_assoc, List.singleton_append] using hp.symm
      · exact List.pairwise_cons.mpr ⟨ha, i.heap.apart⟩
      · intro r hr
        rcases List.mem_cons.mp hr with rfl | hr
        · exact ⟨hpos, hlen, hle⟩
        · exact i.heap.bounds r hr
      · rintro p ⟨⟩ r hr
        exact ha r (i.heap.maps.mem_iff.mpr (List.mem_append_right _ hr))

-- A piece of fallback memory is found by its address.
theorem find_fallback (i : StateInv host h parts fallback) (ha : a ∈ fallback) :
    h.maps.find? (fun r => r.1 = a.1) = some a := by
  have hmem : a ∈ h.maps :=
    i.heap.maps.mem_iff.mpr (List.mem_append_right _ (List.mem_append_right _ ha))
  have hunique : ∀ r ∈ h.maps, r.1 = a.1 → r = a := by
    intro r hr he
    by_contra hne
    have hsymm : Std.Symm Apart := ⟨fun _ _ => Apart.symm⟩
    have hap := i.heap.apart.forall hr hmem hne
    have h₁ := i.heap.bounds r hr
    have h₂ := i.heap.bounds a hmem
    simp only [Apart] at hap
    omega
  cases hf : h.maps.find? fun r => r.1 = a.1 with
  | none =>
    have := List.find?_eq_none.mp hf a hmem
    simp at this
  | some r =>
    have hr := List.find?_some hf
    rw [hunique r (List.mem_of_find?_eq_some hf) (by simpa using hr)]

theorem fallbackFree_spec (i : StateInv host h parts fallback) (ha : a ∈ fallback) :
    (fallbackFree a.1 h).mem = h.mem ∧ (fallbackFree a.1 h).cells = h.cells ∧
      StateInv host (fallbackFree a.1 h) parts (fallback.erase a) := by
  simp only [fallbackFree, find_fallback i ha]
  refine ⟨rfl, rfl, ?_⟩
  have hperm : (parts.map regionOf ++ fallback).Perm
      (a :: (parts.map regionOf ++ fallback.erase a)) :=
    ((List.perm_cons_erase ha).append_left _).trans List.perm_middle
  have hi := munmap_spec (i.heap.perm_regions hperm)
  exact ⟨hi, i.dead, fun p hp => (i.blocks p hp).congr (fun _ _ => rfl) fun _ _ _ => rfl,
    fun p hp => (i.clean p hp).congr (i.blocks p hp) (fun _ _ => rfl) fun _ _ _ => rfl,
    i.pages, i.small, fun _ => i.spare (List.ne_nil_of_mem ha)⟩

end SecureMemory
