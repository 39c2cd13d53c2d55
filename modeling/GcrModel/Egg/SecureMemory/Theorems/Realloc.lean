import GcrModel.Egg.SecureMemory.Theorems.Free

open Ring

-- `sec_realloc` keeps the invariant of the block, touches no other allocation and keeps the contents
-- of the one that it resizes.
namespace SecureMemory

variable {host : Host} {regions : List (Nat × Nat)} {others : List Nat} {h : Heap} {block : Block}
  {ℓ : Layout} {c w n nWords fuel length : Nat}

theorem secGrow_done (block : Block) (nWords : Nat) {cell : Cell} (hcell : h.cells c = some cell) (hn : nWords ≤ cell.nWords)
    (hf : 0 < fuel) : secGrow c nWords fuel block h = some (block, h) := by
  obtain ⟨fuel, rfl⟩ := Nat.exists_eq_succ_of_ne_zero (Nat.ne_of_gt hf)
  simp [secGrow, hcell, Nat.not_lt.mpr hn]

-- Stealing the first words of the unused neighbor behind a used cell.
theorem shift_spec {l₁ l₂ : List Nat} {other m k : Nat} (s : Shape h block ℓ none)
    (o : Owned host regions others h block ℓ) (hl : ℓ.cells = l₁ ++ c :: other :: l₂)
    (hc : c ∈ ℓ.used) (ho : other ∈ ℓ.unused) (hg : h.cells.geom c = some (w, n))
    (hgo : h.cells.geom other = some (w + wordSize * n, m)) (hk : k + 2 < m) :
    ∃ cells₁ h₁ cells₂ h', h.cells.update other (fun other => { other with
          words := other.words + wordSize * k, nWords := other.nWords - k }) = some cells₁ ∧
      secWriteGuards other { h with cells := cells₁ } = some h₁ ∧
      h₁.cells.update c (fun cell => { cell with nWords := n + k }) = some cells₂ ∧
      secWriteGuards c { h₁ with cells := cells₂ } = some h' ∧ Shape h' block ℓ none ∧
      Owned host regions others h' block ℓ ∧
      Step regions others (ℓ.used.erase c) h block h' block ∧
      h'.cells.geom c = some (w, n + k) ∧ h'.cells.use c = h.cells.use c ∧
      ∀ x, w + wordSize ≤ x → x < w + wordSize * (n - 1) → h'.mem x = h.mem x := by
  have hcl := s.rings.cells_of_used hc
  have hol := s.rings.cells_of_unused ho
  have hne : other ≠ c := fun he => s.rings.not_used_of_unused ho (he ▸ hc)
  have hw := s.walk
  rw [hl] at hw
  obtain ⟨w', n', m', hx', hy', hn, hm, h₁, h₂⟩ := hw.neighbors
  cases hg.symm.trans hx'
  cases hgo.symm.trans hy'
  obtain ⟨cell, hcell, rfl, rfl⟩ := exists_cell_of_geom hg
  obtain ⟨after, hafter, hw', rfl⟩ := exists_cell_of_geom hgo
  obtain ⟨cells₁, hu₁, hn₁, hp₁, hus₁, hg₁, hf₁⟩ := update_geom hafter
    (after.words + wordSize * k) (after.nWords - k) (f := fun other => { other with
      words := other.words + wordSize * k, nWords := other.nWords - k }) rfl
  have hcell₁ : cells₁ c = some cell := (hf₁ c hne.symm).trans hcell
  obtain ⟨cells₂, hu₂, hn₂, hp₂, hus₂, hg₂, hf₂⟩ := update_geom (h := { h with cells := cells₁ })
    hcell₁ cell.words (cell.nWords + k)
    (f := fun cell' => { cell' with nWords := cell.nWords + k }) rfl
  simp only [] at hu₂ hn₂ hp₂ hus₂ hg₂ hf₂
  have hgeom : ∀ d, d ≠ c → d ≠ other → cells₂.geom d = h.cells.geom d := by
    intro d h₁ h₂
    rw [hg₂, Function.update_of_ne h₁, hg₁, Function.update_of_ne h₂]
  have hgc : cells₂.geom c = some (cell.words, cell.nWords + k) := by
    rw [hg₂, Function.update_self]
  have hgo₁ : cells₁.geom other = some (after.words + wordSize * k, after.nWords - k) := by
    rw [hg₁, Function.update_self]
  have hgo₂ : cells₂.geom other = some (after.words + wordSize * k, after.nWords - k) := by
    rw [hg₂, Function.update_of_ne hne, hgo₁]
  have hframe : ∀ d, d ≠ c → d ≠ other → cells₂ d = h.cells d :=
    fun d h₁ h₂ => (hf₂ d h₁).trans (hf₁ d h₂)
  have hrest := (ne_neighbors (hl ▸ s.nodup)).right
  have hstart : after.words + wordSize * k = cell.words + wordSize * (cell.nWords + k) := by
    simp only [wordSize] at *
    omega
  have hend : cell.nWords + k + (after.nWords - k) = cell.nWords + after.nWords := by
    omega
  obtain ⟨mem₁, mem, he₁, he, hwalk, hout, hs, hp⟩ := border_spec (h := { h with cells := cells₂ })
    (x := c) (y := other) (c := other) (d := c) (n := cell.nWords + k) (m := after.nWords - k)
    h₁ (hend ▸ h₂) (fun d hd => hgeom d (hrest d hd).left (hrest d hd).right) hgc
    (hstart ▸ hgo₂) (by omega) (by omega) (o.item_lt hcl) (o.item_lt hol) (.inr ⟨rfl, rfl⟩)
  -- The first guards are written before the second cell gets its new size.
  have he₁' : secWriteGuards other { h with cells := cells₁ } =
      some { h with cells := cells₁, mem := mem₁ } := by
    rw [secWriteGuards_eq hgo₂] at he₁
    rw [secWriteGuards_eq hgo₁]
    simp only [Option.some.injEq, Heap.mk.injEq, and_true] at he₁ ⊢
    exact he₁
  refine ⟨cells₁, _, cells₂, _, hu₁, he₁', hu₂, he, ⟨s.base, hl ▸ hwalk, ?_, ?_⟩,
    o.congr rfl rfl rfl .refl ?_,
    .of_range .refl (a := cell.words) (e := cell.words + wordSize * (cell.nWords + after.nWords))
      h₁.le h₂.le ?_ hs ?_ ?_, hgc, ?_, ?_⟩
  · refine s.rings.congr (fun d _ _ => ?_) (fun d _ _ => ?_) (fun d _ _ => ?_) (fun _ => Iff.rfl) (by simp)
    · rw [hn₂, hn₁]
    · rw [hp₂, hp₁]
    · rw [hus₂, hus₁]
  · intro d hd w' n' r tag hg' hu'
    rw [hus₂, hus₁] at hu'
    by_cases hdc : d = c
    case pos =>
      subst hdc
      cases hgc.symm.trans hg'
      have := s.fits d hd _ _ r tag hg hu'
      simp only [wordSize] at *
      omega
    case neg =>
      have hdo : d ≠ other := fun he => s.rings.not_used_of_unused ho (he ▸ hd)
      exact s.fits d hd w' n' r tag (hgeom d hdc hdo ▸ hg') hu'
  · exact fun d hd => hframe d (fun he => hd (he ▸ hcl)) fun he => hd (he ▸ hol)
  · rwa [hend] at hout
  · intro d hd
    have hd := o.others_not_mem hd
    exact hframe d (fun he => hd (he ▸ hcl)) fun he => hd (he ▸ hol)
  · intro d hd
    obtain ⟨hdc, hdu⟩ := s.rings.used.nodup.mem_erase_iff.mp hd
    have hdo : d ≠ other := fun he => s.rings.not_used_of_unused ho (he ▸ hdu)
    refine ⟨hgeom d hdc hdo, by rw [hus₂, hus₁], fun w' n' hg' => Walk.outside h₁ h₂ ?_ hg'⟩
    have hdl := s.rings.cells_of_used hdu
    rw [hl] at hdl
    simp only [List.mem_append, List.mem_cons] at hdl ⊢
    tauto
  · rw [hus₂, hus₁]
  · intro x hx hx'
    refine hp x hx ?_
    simp only [wordSize] at *
    omega

-- Eating the unused neighbor behind a used cell.
theorem eat_spec {l₁ l₂ : List Nat} {other m : Nat} (s : Shape h block ℓ none)
    (o : Owned host regions others h block ℓ) (hl : ℓ.cells = l₁ ++ c :: other :: l₂)
    (hc : c ∈ ℓ.used) (ho : other ∈ ℓ.unused) (hg : h.cells.geom c = some (w, n))
    (hgo : h.cells.geom other = some (w + wordSize * n, m)) :
    ∃ cells₁ h₁ ring cells₂ h' ℓ', h.cells.update c (fun cell => { cell with
          nWords := cell.nWords + m }) = some cells₁ ∧
      secWriteGuards c { h with cells := cells₁ } = some h₁ ∧
      secRemoveCellRing block.unusedCells other h₁.cells = some (ring, cells₂) ∧
      poolFree other { h₁ with cells := cells₂ } = some h' ∧
      Shape h' { block with unusedCells := ring } ℓ' none ∧
      Owned host regions others h' { block with unusedCells := ring } ℓ' ∧
      Step regions others (ℓ.used.erase c) h block h' { block with unusedCells := ring } ∧
      ℓ'.used = ℓ.used ∧ ℓ'.cells = l₁ ++ c :: l₂ ∧
      h'.cells.geom c = some (w, n + m) ∧ h'.cells.use c = h.cells.use c ∧
      ∀ x, w + wordSize ≤ x → x < w + wordSize * (n - 1) → h'.mem x = h.mem x := by
  have hcl := s.rings.cells_of_used hc
  have hne : other ≠ c := fun he => s.rings.not_used_of_unused ho (he ▸ hc)
  obtain ⟨cell, hcell, rfl, rfl⟩ := exists_cell_of_geom hg
  obtain ⟨cells₁, hu₁, hn₁, hp₁, hus₁, hg₁, hf₁⟩ := update_geom hcell cell.words (cell.nWords + m)
    (f := fun cell => { cell with nWords := cell.nWords + m }) rfl
  have r : Rings cells₁ block.unusedCells block.usedCells ℓ none := by
    refine s.rings.congr (fun d _ _ => ?_) (fun d _ _ => ?_) (fun d _ _ => ?_) (fun _ => Iff.rfl) (by simp)
    · rw [hn₁]
    · rw [hp₁]
    · rw [hus₁]
  obtain ⟨ring, cells₂, he₂, r₂, hg₂, hus₂, hf₂⟩ := r.remove_unused ho
  obtain ⟨h₁, h', he₁, he, s', o', step, hgc, huc, hp⟩ := merge_spec (k := c) (g := other)
    { block with unusedCells := ring } { ℓ with unused := ℓ.unused.erase other } s o ⟨rfl, rfl, rfl⟩ rfl
    rfl hl hg hgo (.inl ⟨rfl, rfl⟩) r₂ (hg₂.trans hg₁) (hus₂.trans hus₁)
    fun d hd => (hf₂ d hd).trans (hf₁ d fun hdc => hd (hdc ▸ hcl))
  -- The guards are written before the neighbor leaves its ring.
  have hgc₁ : cells₁.geom c = some (cell.words, cell.nWords + m) := by
    rw [hg₁, Function.update_self]
  have hguards := secWriteGuards_eq (h := { h with cells := cells₁ }) hgc₁
  rw [secWriteGuards_eq (h := { h with cells := cells₂ }) (hg₂ ▸ hgc₁)] at he₁
  cases he₁
  refine ⟨cells₁, _, ring, cells₂, h', _, hu₁, hguards, he₂, he, s', o', step _ fun d hd => ?_, rfl,
    rfl, hgc, huc, fun x hx hx' => hp x hx ?_⟩
  · obtain ⟨hdc, hdu⟩ := s.rings.used.nodup.mem_erase_iff.mp hd
    exact ⟨s.rings.cells_of_used hdu, hdc, fun he => s.rings.not_used_of_unused ho (he ▸ hdu)⟩
  · simp only [wordSize] at *
    omega

-- Growing a used cell in place, as far as that goes.
theorem secGrow_spec (nWords fuel : Nat) (s : Shape h block ℓ none) (o : Owned host regions others h block ℓ)
    (hc : c ∈ ℓ.used) (hg : h.cells.geom c = some (w, n)) (hf : ℓ.cells.length ≤ fuel) :
    ∃ block' h' ℓ' n', secGrow c nWords fuel block h = some (block', h') ∧ Shape h' block' ℓ' none ∧
      Owned host regions others h' block' ℓ' ∧
      Step regions others (ℓ.used.erase c) h block h' block' ∧ ℓ'.used = ℓ.used ∧
      block'.nUsed = block.nUsed ∧ n ≤ n' ∧ h'.cells.geom c = some (w, n') ∧
      h'.cells.use c = h.cells.use c ∧
      ∀ x, w + wordSize ≤ x → x < w + wordSize * (n - 1) → h'.mem x = h.mem x := by
  induction fuel generalizing h block ℓ n with
  | zero =>
    have hcl := s.rings.cells_of_used hc
    rw [Nat.le_zero, List.length_eq_zero_iff] at hf
    simp [hf] at hcl
  | succ fuel ih =>
    have hcl := s.rings.cells_of_used hc
    obtain ⟨cell, hcell, rfl, rfl⟩ := exists_cell_of_geom hg
    by_cases hn : cell.nWords < nWords
    case neg =>
      exact ⟨block, h, ℓ, _, secGrow_done _ _ hcell (Nat.not_lt.mp hn) (Nat.succ_pos _), s, o, .refl, rfl,
        rfl, Nat.le_refl _, hg, rfl, fun _ _ _ => rfl⟩
    case pos =>
      obtain ⟨l₁, l₂, hl⟩ := List.append_of_mem hcl
      have hafter := secNeighborAfter_spec (hl ▸ s.walk)
      unfold secGrow
      simp only [hcell, hn, if_true, hafter, Option.bind_eq_bind, Option.bind_some]
      cases l₂ with
      | nil => exact ⟨block, h, ℓ, _, rfl, s, o, .refl, rfl, rfl, Nat.le_refl _, hg, rfl, fun _ _ _ => rfl⟩
      | cons other l₂ =>
        have hol : other ∈ ℓ.cells := by simp [hl]
        obtain ⟨after, hacell, hunused⟩ := exists_neighbor s hol (by simp)
        simp only [List.head?_cons, hacell, Option.bind_some]
        by_cases hreq : after.requested = 0
        case neg =>
          simp only [hreq, ne_eq, not_false_eq_true, if_true]
          exact ⟨block, h, ℓ, _, rfl, s, o, .refl, rfl, rfl, Nat.le_refl _, hg, rfl, fun _ _ _ => rfl⟩
        case pos =>
          have hou := (hunused hreq).left
          have hgo := Cells.geom_eq hacell
          have hstart : after.words = cell.words + wordSize * cell.nWords := by
            obtain ⟨w', n', m', hx, hy, -⟩ := Walk.neighbors (hl ▸ s.walk)
            cases hg.symm.trans hx
            exact (Prod.mk.inj (Option.some.inj (hgo.symm.trans hy))).left
          rw [hstart] at hgo
          simp only [hreq, ne_eq, not_true_eq_false, if_false]
          by_cases hsmall : after.nWords ≤ nWords - cell.nWords + waste
          case pos =>
            simp only [hsmall, if_true]
            obtain ⟨cells₁, h₁, ring, cells₂, h₂, ℓ₂, hu₁, he₁, he₂, he₃, s₂, o₂, step₂, hlu, hlc, hg₂,
              hus₂, hp₂⟩ := eat_spec s o hl hc hou hg hgo
            have hlen : ℓ₂.cells.length ≤ fuel := by
              rw [hlc]
              simp only [hl, List.length_append, List.length_cons] at hf ⊢
              omega
            obtain ⟨block', h', ℓ', n', he, s', o', step, hu, hnu, hle, hg', hus', hp'⟩ :=
              ih s₂ o₂ (hlu ▸ hc) hg₂ hlen
            refine ⟨block', h', ℓ', n', ?_, s', o', step₂.trans (hlu ▸ step), hu.trans hlu, hnu, by omega,
              hg', hus'.trans hus₂, fun x hx hx' => ?_⟩
            · simp only [hu₁, he₁, he₂, he₃, he, Option.bind_some]
            · rw [hp' x hx (by simp only [wordSize] at *; omega), hp₂ x hx hx']
          case neg =>
            simp only [hsmall, if_false]
            obtain ⟨cells₁, h₁, cells₂, h₂, hu₁, he₁, hu₂, he₂, s₂, o₂, step₂, hg₂, hus₂, hp₂⟩ :=
              shift_spec (k := nWords - cell.nWords) s o hl hc hou hg hgo
                (by simp only [waste] at hsmall; omega)
            have hk : cell.nWords + (nWords - cell.nWords) = nWords := by omega
            have hfuel : 0 < fuel := by
              simp only [hl, List.length_append, List.length_cons] at hf
              omega
            obtain ⟨cell₂, hcell₂, -, hn₂⟩ := exists_cell_of_geom hg₂
            have hdone := secGrow_done block nWords hcell₂ (by omega) hfuel
            refine ⟨block, h₂, ℓ, _, ?_, s₂, o₂, step₂, rfl, rfl, by omega, hg₂, hus₂, hp₂⟩
            rw [hk] at hu₂
            simp only [hu₁, he₁, hu₂, he₂, hdone, Option.bind_some]

-- Changing the request of a used cell to what fits into it.
theorem resize_spec (length : Nat) (tag : String) (mem : Memory Byte) {f : Cell → Cell} {cell : Cell}
    (b : BlockInv h block ℓ) (o : Owned host regions others h block ℓ) (hc : c ∈ ℓ.used)
    (hcell : h.cells c = some cell) (hf : f cell = { cell with requested := length, tag := some tag })
    (hl : 0 < length) (hfit : length ≤ (cell.nWords - 2) * wordSize)
    (hm : ∀ x, x < cell.words + wordSize ∨ cell.words + wordSize * (cell.nWords - 1) ≤ x →
      mem x = h.mem x) (hs : Scrubbed h.mem mem) :
    ∃ cells, h.cells.update c f = some cells ∧ BlockInv { h with cells, mem } block ℓ ∧
      Owned host regions others { h with cells, mem } block ℓ ∧
      Step regions others (ℓ.used.erase c) h block { h with cells, mem } block ∧
      cells.geom c = some (cell.words, cell.nWords) ∧ cells.use c = some (length, some tag) := by
  have s := b.toShape
  have hcl := s.rings.cells_of_used hc
  have hg := Cells.geom_eq hcell
  obtain ⟨hb₁, hb₂, hb₃⟩ := s.walk.bounds hcl hg
  have hgeom : Cells.geom (Function.update h.cells c (some (f cell))) = h.cells.geom := by
    simp [hf, ← hg]
  have huse : Cells.use (Function.update h.cells c (some (f cell))) =
      Function.update h.cells.use c (some (length, some tag)) := by
    simp [hf]
  refine ⟨_, Cells.update_eq hcell f, ⟨⟨s.base, ?_, ?_, ?_⟩, b.nUsed⟩, o.congr rfl rfl rfl .refl ?_,
    .of_range .refl (a := cell.words) (e := cell.last) hb₁ hb₂ ?_ hs ?_ ?_, hgeom ▸ hg, ?_⟩
  · simp only [hgeom]
    exact s.walk.payload hcl hg hm
  · refine s.rings.set_use hc ?_ ?_ huse hl
    · simp [hf, ← Cells.next_eq hcell]
    · simp [hf, ← Cells.prev_eq hcell]
  · intro d hd w n r t hg' hu'
    simp only [hgeom, huse] at hg' hu'
    by_cases hdc : d = c
    case pos =>
      subst hdc
      cases hg.symm.trans hg'
      simp only [Function.update_self, Option.some.injEq, Prod.mk.injEq] at hu'
      exact hu'.left ▸ hfit
    case neg =>
      rw [Function.update_of_ne hdc] at hu'
      exact s.fits d hd w n r t hg' hu'
  · exact fun d hd => Function.update_of_ne (fun he : d = c => hd (he ▸ hcl)) _ _
  · intro x hx
    refine hm x ?_
    simp only [Cell.last, wordSize] at *
    omega
  · exact fun d hd => Function.update_of_ne (fun he : d = c => o.others_not_mem hd (he ▸ hcl)) _ _
  · intro d hd
    obtain ⟨hdc, hdu⟩ := s.rings.used.nodup.mem_erase_iff.mp hd
    refine ⟨congrFun hgeom d, by rw [huse, Function.update_of_ne hdc], fun w' n' hg' => ?_⟩
    exact s.walk.disjoint (s.rings.cells_of_used hdu) hcl hdc hg' hg
  · rw [huse, Function.update_self]

-- Copying an allocation to another one and freeing it.
theorem move_spec {d v m r : Nat} {t : Option String} (b : BlockInv h block ℓ)
    (o : Owned host regions others h block ℓ) (hc : c ∈ ℓ.used) (hd : d ∈ ℓ.used) (hne : d ≠ c)
    (hg : h.cells.geom c = some (w, n)) (hu : h.cells.use c = some (r, t))
    (hgd : h.cells.geom d = some (v, m)) (hr : r ≤ (m - 2) * wordSize) :
    ∃ block' h' ℓ', secFree block (w + wordSize)
        { h with mem := h.mem.copy (v + wordSize) (w + wordSize) r } = some (block', h') ∧
      BlockInv h' block' ℓ' ∧ Owned host regions others h' block' ℓ' ∧
      Frame regions others block h h' ∧ SameRegion block block' ∧ ℓ'.used = ℓ.used.erase c ∧
      (∀ e ∈ ℓ.used, e ≠ c → e ≠ d → Kept h h' e) ∧ h'.cells.geom d = some (v, m) ∧
      h'.cells.use d = h.cells.use d ∧
      (∀ i < r, h'.mem (v + wordSize + i) = h.mem (w + wordSize + i)) ∧
      (∀ i, r ≤ i → i < (m - 2) * wordSize → h'.mem (v + wordSize + i) = h.mem (v + wordSize + i)) ∧
      ∀ x, block.words ≤ x → x < block.last → (h'.mem x).IsClient →
        x ∈ Memory.range (v + wordSize) r ∨ h'.mem x = h.mem x ∧ x ∉ Memory.range (w + wordSize) r := by
  have s := b.toShape
  have hdl := s.rings.cells_of_used hd
  obtain ⟨hb₁, hb₂, hb₃⟩ := s.walk.bounds hdl hgd
  let mem := h.mem.copy (v + wordSize) (w + wordSize) r
  have hout : ∀ x, x ∉ Memory.range (v + wordSize) r → mem x = h.mem x :=
    fun x hx => Memory.copy_frame hx
  have s₁ : Shape { h with mem } block ℓ none := by
    refine s.payload hdl hgd fun x hx => hout x ?_
    simp only [Memory.mem_range, wordSize] at *
    omega
  have b₁ : BlockInv { h with mem } block ℓ := ⟨s₁, b.nUsed⟩
  have o₁ : Owned host regions others { h with mem } block ℓ :=
    o.congr rfl rfl rfl .refl fun _ _ => rfl
  obtain ⟨block', h', ℓ', he, b', o', step, hlu, hclear⟩ := secFree_spec b₁ o₁ hc hg hu
  have hkd := step.kept d (s.rings.used.nodup.mem_erase_iff.mpr ⟨hne, hd⟩)
  have hpay : ∀ i < (m - 2) * wordSize, h'.mem (v + wordSize + i) = mem (v + wordSize + i) := by
    intro i hi
    refine hkd.mem v m hgd _ (by omega) ?_
    simp only [wordSize] at *
    omega
  refine ⟨block', h', ℓ', he, b', o', ⟨step.frame.cells, ?_⟩, step.region, hlu, ?_, hkd.geom.trans hgd,
    hkd.use, ?_, ?_, ?_⟩
  · intro reg hreg x hx hxo
    refine (step.frame.mem reg hreg x hx hxo).trans (hout x ?_)
    simp only [Memory.mem_range, wordSize] at *
    omega
  · intro e hel hec hed
    have hk := step.kept e (s.rings.used.nodup.mem_erase_iff.mpr ⟨hec, hel⟩)
    refine ⟨hk.geom, hk.use, fun w' n' hg' x hx hx' => (hk.mem w' n' hg' x hx hx').trans (hout x ?_)⟩
    have := s.walk.disjoint (s.rings.cells_of_used hel) hdl hed hg' hgd
    simp only [Memory.mem_range, wordSize] at *
    omega
  · intro i hi
    rw [hpay i (by omega)]
    exact Memory.copy_eq hi
  · intro i hi hi'
    rw [hpay i hi']
    refine hout _ ?_
    simp only [Memory.mem_range]
    omega
  · intro x hx hx' hclient
    refine or_iff_not_imp_left.mpr fun hxd => ⟨?_, fun hxc => hclear x hxc hclient⟩
    exact ((step.scrubbed x hx hx').resolve_right fun hn => hn hclient).trans (hout x hxd)

-- The outcome of `sec_realloc`. If it is NULL the old allocation is still there. Otherwise there is a
-- new one in its place, which starts with the old contents. The bytes behind these are zero, unless the
-- cell was large enough already: then they are what they were.
theorem secRealloc_spec (tag : String) {r : Nat} {t : Option String} (b : BlockInv h block ℓ)
    (o : Owned host regions others h block ℓ) (hc : c ∈ ℓ.used)
    (hg : h.cells.geom c = some (w, n)) (hu : h.cells.use c = some (r, t)) (hl : 0 < length) :
    ∃ m block' h' ℓ', secRealloc host block tag (w + wordSize) length h = some (m, block', h') ∧
      BlockInv h' block' ℓ' ∧ Owned host regions others h' block' ℓ' ∧
      Frame regions others block h h' ∧ SameRegion block block' ∧
      (∀ d ∈ ℓ.used.erase c, Kept h h' d) ∧
      (m = none → (¬secSizeToWords length + 2 ≤ n ∧ r ≤ length) ∧ ℓ'.used = ℓ.used ∧ (∃ n', h'.cells.geom c = some (w, n')) ∧
        h'.cells.use c = some (r, t) ∧ block.Scrubbed h h' ∧
        ∀ x ∈ Memory.range (w + wordSize) r, h'.mem x = h.mem x) ∧
      ∀ p, m = some p → ∃ c' w' n' t', ℓ'.used.Perm (c' :: ℓ.used.erase c) ∧ p = w' + wordSize ∧
        h'.cells.geom c' = some (w', n') ∧ h'.cells.use c' = some (length, t') ∧
        (∀ i < min r length, h'.mem (p + i) = h.mem (w + wordSize + i)) ∧
        (∀ i, r ≤ i → i < length → h'.mem (p + i) =
          if secSizeToWords length + 2 ≤ n then h.mem (w + wordSize + i) else .zero) ∧
        ∀ x, block.words ≤ x → x < block.last → (h'.mem x).IsClient →
          x ∈ Memory.range p (min r length) ∨
          h'.mem x = h.mem x ∧ x ∉ Memory.range (w + wordSize) r := by
  have s := b.toShape
  have hcl := s.rings.cells_of_used hc
  obtain ⟨cell, hlook, hcell, rfl, rfl⟩ := secLookup_spec s o hcl hg
  obtain ⟨r', tag', hu', hpos⟩ := s.rings.occupied hc
  cases hu'.symm.trans hu
  have huc := hu
  rw [Cells.use_eq hcell] at hu
  obtain ⟨rfl, htag⟩ : cell.requested = r ∧ cell.tag = some tag' := by simpa using hu
  have hfit := s.fits c hc _ _ _ _ hg hu'
  obtain ⟨hb₁, hb₂, hb₃⟩ := s.walk.bounds hcl hg
  unfold secRealloc
  simp only [guard, hl, hlook, hpos, htag, if_true, ne_eq, reduceCtorEq, not_false_eq_true,
    Option.pure_def, Option.bind_eq_bind, Option.bind_some]
  by_cases hsame : secSizeToWords length + 2 ≤ cell.nWords
  case pos =>
    simp only [hsame, if_true]
    -- A shorter request clears what it gives up.
    obtain ⟨mem, hclear, hin, hout⟩ : ∃ mem, (∀ cells, (if length < cell.requested then
          secClear (cell.words + wordSize) length cell.requested { h with cells }
        else some { h with cells }) = some { h with cells, mem }) ∧
        (∀ i, length ≤ i → i < cell.requested → mem (cell.words + wordSize + i) = .zero) ∧
        ∀ x, ¬(cell.words + wordSize + length ≤ x ∧ x < cell.words + wordSize + cell.requested) →
          mem x = h.mem x := by
      by_cases hlt : length < cell.requested
      case pos =>
        refine ⟨h.mem.fill (cell.words + wordSize + length) (cell.requested - length) .zero, fun _ => ?_,
          fun i hi hi' => Memory.fill_eq ?_, fun x hx => Memory.fill_frame ?_⟩
        · simp [hlt, secClear, guard, Nat.le_of_lt hlt]
        · simp only [Memory.mem_range]
          omega
        · simp only [Memory.mem_range]
          omega
      case neg =>
        exact ⟨h.mem, fun _ => by simp [hlt], fun i hi hi' => absurd (Nat.lt_of_le_of_lt hi hi') hlt,
          fun _ _ => rfl⟩
    have hscrub : Scrubbed h.mem mem := by
      intro x
      by_cases hx : cell.words + wordSize + length ≤ x ∧ x < cell.words + wordSize + cell.requested
      case neg => exact .inl (hout x hx)
      case pos =>
        obtain ⟨i, rfl⟩ := Nat.exists_eq_add_of_le (Nat.le_trans (Nat.le_add_right _ length) hx.left)
        have := hin i (by omega) (by omega)
        exact .inr (by simp [this, Byte.IsClient])
    obtain ⟨cells, hup, b', o', step, hg', hus'⟩ := resize_spec length tag' mem
      (f := fun cell => { cell with requested := length }) b o hc hcell (by simp [htag]) hl
      (secSizeToWords_le_iff.mp (by omega)) (fun x hx => hout x (by simp only [wordSize] at *; omega))
      hscrub
    refine ⟨some (cell.words + wordSize), block, _, ℓ, ?_, b', o', step.frame, .refl, step.kept, by simp,
      ?_⟩
    · have hclear := hclear cells
      simp only [hup, Option.bind_some]
      by_cases hlt : length < cell.requested
      case pos =>
        rw [if_pos hlt] at hclear ⊢
        simp only [hclear, Option.bind_some]
      case neg =>
        rw [if_neg hlt] at hclear ⊢
        rw [← Option.some.inj hclear]
    rintro p ⟨⟩
    refine ⟨c, _, _, _, List.perm_cons_erase hc, rfl, hg', hus', fun i hi => ?_, fun i hi hi' => ?_, ?_⟩
    · exact hout _ (by omega)
    · exact hout _ (by omega)
    · intro x hx hx' hclient
      by_cases hxr : x ∈ Memory.range (cell.words + wordSize) cell.requested
      case neg =>
        refine .inr ⟨hout x fun hxl => hxr ?_, hxr⟩
        simp only [Memory.mem_range]
        omega
      case pos =>
        obtain ⟨i, rfl⟩ := Nat.exists_eq_add_of_le hxr.left
        refine .inl ?_
        by_contra hxp
        simp only [Memory.mem_range] at hxr hxp
        simp [hin i (by omega) (by omega), Byte.IsClient] at hclient
  case neg =>
    simp only [hsame, if_false]
    have hvalid : cell.requested ≤ length := by
      have h₁ : ¬secSizeToWords length ≤ cell.nWords - 2 := by omega
      rw [secSizeToWords_le_iff] at h₁
      omega
    obtain ⟨block₁, h₁, ℓ₁, n₁, he₁, s₁, o₁, step₁, hlu₁, hnu₁, hle₁, hg₁, hus₁, hp₁⟩ :=
      secGrow_spec (secSizeToWords length + 2) (block.nWords + 1) s o hc hg
        (Nat.le_succ_of_le s.length_le)
    have hc₁ : c ∈ ℓ₁.used := hlu₁ ▸ hc
    have b₁ : BlockInv h₁ block₁ ℓ₁ := ⟨s₁, by rw [hnu₁, hlu₁, b.nUsed]⟩
    -- The payload lies inside of the guards.
    have hpay : ∀ i < cell.requested, h₁.mem (cell.words + wordSize + i) =
        h.mem (cell.words + wordSize + i) := by
      intro i hi
      refine hp₁ _ (by omega) ?_
      simp only [wordSize] at *
      omega
    obtain ⟨cell₁, hcell₁, hw₁, hn₁⟩ := exists_cell_of_geom hg₁
    simp only [he₁, hcell₁, Option.bind_some]
    by_cases hgrown : secSizeToWords length + 2 ≤ cell₁.nWords
    case pos =>
      simp only [hgrown, if_true]
      let mem := h₁.mem.fill (cell.words + wordSize + cell.requested) (length - cell.requested) .zero
      have hfit₁ := secSizeToWords_le_iff.mp (show secSizeToWords length ≤ cell₁.nWords - 2 by omega)
      obtain ⟨cells, hup, b', o', step, hg', hus'⟩ := resize_spec length tag mem
        (f := fun cell => { cell with requested := length, tag := some tag }) b₁ o₁ hc₁
        hcell₁ rfl hl hfit₁ (fun x hx => Memory.fill_frame (by
          simp only [Memory.mem_range, wordSize] at *
          omega)) .fill
      have step := step₁.trans (hlu₁ ▸ step)
      have hclear : secClear (cell₁.words + wordSize) cell.requested length { h₁ with cells } =
          some { h₁ with cells, mem } := by
        simp [secClear, guard, hvalid, hw₁, mem]
      refine ⟨some (cell₁.words + wordSize), block₁, { h₁ with cells, mem }, ℓ₁,
        by simp only [hup, hclear, Option.bind_some], b', o', step.frame, step.region, step.kept, by simp, ?_⟩
      rintro p ⟨⟩
      rw [hw₁] at hg' ⊢
      refine ⟨c, _, _, _, hlu₁.symm ▸ List.perm_cons_erase hc, rfl, hg', hus', fun i hi => ?_,
        fun i hi hi' => ?_, ?_⟩
      · refine (Memory.fill_frame ?_).trans (hpay i (by omega))
        simp only [Memory.mem_range]
        omega
      · refine Memory.fill_eq ?_
        simp only [Memory.mem_range]
        omega
      · intro x hx hx' hclient
        have hfill : mem x = h₁.mem x := by
          refine Memory.fill_frame fun hxf => ?_
          simp [mem, Memory.fill_eq hxf, Byte.IsClient] at hclient
        have hold : h₁.mem x = h.mem x := by
          refine (step₁.scrubbed x hx hx').resolve_right fun hn => hn ?_
          rw [← hfill]
          exact hclient
        refine or_iff_not_imp_left.mpr fun hxp => ⟨hfill.trans hold, ?_⟩
        rwa [Nat.min_eq_left hvalid] at hxp
    case neg =>
      simp only [hgrown, if_false]
      obtain ⟨m, block₂, h₂, ℓ₂, he₂, b₂, o₂, step₂, hnone, hsome⟩ :=
        secAlloc_spec tag b₁ o₁ (Nat.ne_of_gt hl)
      have hk₂ := step₂.kept c hc₁
      have hg₂ := hk₂.geom.trans hg₁
      have hus₂ := (hk₂.use.trans hus₁).trans huc
      have step₁₂ := step₁.trans (hlu₁ ▸ step₂.mono fun d hd => List.mem_of_mem_erase hd)
      have hpay₂ : ∀ i < cell.requested, h₂.mem (cell.words + wordSize + i) =
          h.mem (cell.words + wordSize + i) := by
        intro i hi
        refine (hk₂.mem _ _ hg₁ _ (by omega) ?_).trans (hpay i hi)
        simp only [wordSize] at *
        omega
      simp only [he₂, Option.bind_some]
      cases m with
      | none =>
        refine ⟨none, block₂, h₂, ℓ₂, rfl, b₂, o₂, step₁₂.frame, step₁₂.region, step₁₂.kept,
          fun _ => ⟨⟨not_false, hvalid⟩, (hnone rfl).trans hlu₁, ⟨n₁, hg₂⟩, hus₂, step₁₂.scrubbed, fun x hx => ?_⟩, by simp⟩
        obtain ⟨i, rfl⟩ := Nat.exists_eq_add_of_le hx.left
        exact hpay₂ i (Nat.lt_of_add_lt_add_left hx.right)
      | some p =>
        obtain ⟨c', w', n', hperm, rfl, hg', hus', hz⟩ := hsome p rfl
        have hnd := hperm.nodup_iff.mp b₂.rings.used.nodup
        have hc'₂ : c' ∈ ℓ₂.used := hperm.mem_iff.mpr (List.mem_cons_self ..)
        have hmem₂ : ∀ d ∈ ℓ₁.used, d ∈ ℓ₂.used :=
          fun d hd => hperm.mem_iff.mpr (List.mem_cons_of_mem _ hd)
        have hne : ∀ d ∈ ℓ₁.used, d ≠ c' := fun d hd he => (List.nodup_cons.mp hnd).left (he ▸ hd)
        have hfit₂ := b₂.fits c' hc'₂ _ _ _ _ hg' hus'
        obtain ⟨block₃, h₃, ℓ₃, he₃, b₃, o₃, frame₃, region₃, hlu₃, hk₃, hg₃, hus₃, hold, hnew, hclean⟩ :=
          move_spec b₂ o₂ (hmem₂ c hc₁) hc'₂ (hne c hc₁).symm hg₂ hus₂ hg' (by omega)
        simp only [he₃, Option.bind_some]
        refine ⟨some (w' + wordSize), block₃, h₃, ℓ₃, rfl, b₃, o₃, ?_, step₁₂.region.trans region₃, ?_,
          by simp, ?_⟩
        · refine step₁₂.frame.trans ⟨frame₃.cells, fun reg hr x hx ho => frame₃.mem reg hr x hx ?_⟩
          rwa [step₁₂.region.words, step₁₂.region.last]
        · intro d hd
          obtain ⟨hdc, hdu⟩ := s.rings.used.nodup.mem_erase_iff.mp hd
          have hd₁ : d ∈ ℓ₁.used := hlu₁ ▸ hdu
          exact (step₁₂.kept d hd).trans (hk₃ d (hmem₂ d hd₁) hdc (hne d hd₁))
        rintro p ⟨⟩
        refine ⟨c', w', n', _, ?_, rfl, hg₃, hus₃.trans hus', fun i hi => ?_, fun i hi hi' => ?_, ?_⟩
        · rw [hlu₃, ← hlu₁]
          refine (hperm.erase c).trans ?_
          rw [List.erase_cons_tail (by simpa using (hne c hc₁).symm)]
        · rw [hold i (by omega), hpay₂ i (by omega)]
        · rw [hnew i hi (by omega)]
          exact hz _ ⟨by omega, by omega⟩
        · intro x hx hx' hclient
          rw [Nat.min_eq_left hvalid]
          refine (hclean x ?_ ?_ hclient).imp_right fun hx₂ => ?_
          · rwa [step₁₂.region.words]
          · rwa [step₁₂.region.last]
          · obtain ⟨heq, hxc⟩ := hx₂
            refine ⟨heq.trans ((step₁₂.scrubbed x hx hx').resolve_right fun hn => hn ?_), hxc⟩
            rw [← heq]
            exact hclient

end SecureMemory
