import GcrModel.Egg.SecureMemory.Theorems.Reshape

open Ring

-- `sec_alloc` keeps the invariant of the block and touches no allocation that is there already.
namespace SecureMemory

variable {host : Host} {regions : List (Nat × Nat)} {others : List Nat} {h h' : Heap}
  {block : Block} {ℓ : Layout} {c d w n length other : Nat} {tag : String} {out : Option Nat}

-- The search ends at a cell of the ring that is large enough, or after the whole ring.
theorem secFind_spec (nWords fuel : Nat) {cells : Cells} {head : Nat} {l l₁ l₂ : List Nat}
    (r : IsRing cells.next cells.prev (some head) l) (hs : ∀ c ∈ l, ∃ cell, cells c = some cell)
    (hl : l = l₁ ++ c :: l₂) (hf : l₂.length < fuel) :
    ∃ found, secFind cells head nWords fuel c = some found ∧
      ∀ d, found = some d → d ∈ l ∧ ∃ cell, cells d = some cell ∧ nWords ≤ cell.nWords := by
  induction fuel generalizing c l₁ l₂ with
  | zero => exact absurd hf (Nat.not_lt_zero _)
  | succ fuel ih =>
    have hc : c ∈ l := by simp [hl]
    obtain ⟨cell, hcell⟩ := hs c hc
    by_cases hn : cell.nWords < nWords
    case neg =>
      refine ⟨some c, by simp [secFind, hcell, hn], ?_⟩
      rintro d ⟨⟩
      exact ⟨hc, cell, hcell, Nat.not_lt.mp hn⟩
    case pos =>
      have hnext := r.next_append hl
      rw [Cells.next_eq hcell] at hnext
      cases l₂ with
      | nil => exact ⟨none, by simp [secFind, hcell, hn, hnext], by simp⟩
      | cons d l₂ =>
        have hne := r.ne_head hl
        obtain ⟨found, hfound, hspec⟩ := ih (show l = (l₁ ++ [c]) ++ d :: l₂ by simp [hl])
          (Nat.lt_of_succ_lt_succ hf)
        exact ⟨found, by simp [secFind, hcell, hn, hnext, hne, hfound], hspec⟩

theorem secSizeToWords_le_iff {k : Nat} : secSizeToWords length ≤ k ↔ length ≤ k * wordSize := by
  by_cases h : length % 8 = 0
  all_goals
    simp only [secSizeToWords, wordSize, h, ne_eq, not_true_eq_false, not_false_eq_true, if_true,
      if_false]
    omega

theorem secSizeToWords_le (length : Nat) : length ≤ secSizeToWords length * wordSize :=
  (secSizeToWords_le_iff).mp (Nat.le_refl _)

theorem secSizeToWords_pos (hl : length ≠ 0) : 0 < secSizeToWords length := by
  have := secSizeToWords_le length
  simp only [wordSize] at this
  omega

-- Writing into the payload of a cell does not disturb the walk.
theorem Walk.payload {geom : Nat → Option (Nat × Nat)} {mem mem' : Memory Byte} {a e : Nat}
    {l : List Nat} (hw : Walk geom mem a l e) (hc : c ∈ l) (hg : geom c = some (w, n))
    (hm : ∀ x, x < w + wordSize ∨ w + wordSize * (n - 1) ≤ x → mem' x = mem x) :
    Walk geom mem' a l e := by
  obtain ⟨l₁, l₂, p, m, rfl, h₁, h₂, h₃, h₄, h₅, h₆⟩ := hw.split hc
  cases hg.symm.trans h₂
  refine Walk.replace [c] h₁ h₆ ⟨n, hg, h₃, ?_, ?_, rfl⟩ (fun _ _ => rfl) (fun _ _ => rfl) ?_
  · refine (Walk.readWord_congr fun x hx => hm x ?_).trans h₄
    simp only [Memory.mem_range] at hx
    omega
  · refine (Walk.readWord_congr fun x hx => hm x ?_).trans h₅
    simp only [Memory.mem_range] at hx
    omega
  · intro x hx
    refine hm x ?_
    simp only [wordSize] at *
    omega

theorem Shape.payload {mem : Memory Byte} (s : Shape h block ℓ out) (hc : c ∈ ℓ.cells)
    (hg : h.cells.geom c = some (w, n))
    (hm : ∀ x, x < w + wordSize ∨ w + wordSize * (n - 1) ≤ x → mem x = h.mem x) :
    Shape { h with mem } block ℓ out :=
  ⟨s.base, s.walk.payload hc hg hm, s.rings, s.fits⟩

-- The pool may map more memory for an item, but not in the block.
theorem poolAlloc_block (s : Shape h block ℓ none) (o : Owned host regions others h block ℓ) :
    ∃ r h', poolAlloc host h = some (r, h') ∧ Shape h' block ℓ none ∧
      Step regions others ℓ.cells h block h' block ∧
      (r = none → Owned host regions others h' block ℓ) ∧
      ∀ other, r = some other → other ∉ ℓ.cells ∧ h'.cells other = some {} ∧
        ∀ ℓ' : Layout, ℓ'.cells.Perm (other :: ℓ.cells) →
          Owned host regions others h' block ℓ' := by
  obtain ⟨r, h', he, hm, hnone, hsome⟩ := poolAlloc_spec o.heap
  have hmem : ∀ x, block.words ≤ x → x < block.last → h'.mem x = h.mem x :=
    fun x hx hx' => hm _ o.region x ⟨hx, hx'⟩
  have hcells : ∀ d, d ∈ ℓ.cells ++ others → h'.cells d = h.cells d := by
    intro d hd
    cases r with
    | none => rw [(hnone rfl).left]
    | some other =>
      obtain ⟨hi, hc, -⟩ := hsome other rfl
      have hne : d ≠ other := fun he => hi (he ▸ hd)
      rw [hc, Function.update_of_ne hne]
  refine ⟨r, h', he, s.congr (fun d hd => hcells d (List.mem_append_left _ hd)) hmem,
    ⟨⟨fun d hd => hcells d (List.mem_append_right _ hd), fun reg hr x hx _ => hm reg hr x hx⟩, .refl,
      ?_, ?_⟩, ?_, ?_⟩
  · intro d hd
    have hd' := hcells d (List.mem_append_left _ hd)
    refine ⟨by simp only [Cells.geom, hd'], by simp only [Cells.use, hd'], ?_⟩
    intro w n hg x hx hx'
    obtain ⟨h₁, h₂, -⟩ := s.walk.bounds hd hg
    exact hmem x (by omega) (by omega)
  · exact fun x hx hx' => .inl (hmem x hx hx')
  · intro hr
    obtain ⟨hc, hi⟩ := hnone hr
    exact ⟨hi, o.region, fun d h₁ h₂ => hc ▸ o.dead d h₁ h₂⟩
  · intro other hr
    obtain ⟨hi, hc, hinv⟩ := hsome other hr
    rw [List.mem_append, not_or] at hi
    refine ⟨hi.left, by simp [hc], fun ℓ' hp => ⟨hinv.perm ?_, o.region, fun d h₁ h₂ => ?_⟩⟩
    · exact (hp.append_right others).symm
    · rw [hp.mem_iff, List.mem_cons, not_or] at h₁
      rw [hc, Function.update_of_ne h₁.left]
      exact o.dead d h₁.right h₂

-- Stealing the first words of an unused cell for a new one, which is in no ring yet.
theorem secSplit_spec (nWords : Nat) (s : Shape h block ℓ none) (hc : c ∈ ℓ.unused)
    (hg : h.cells.geom c = some (w, n)) (hother : other ∉ ℓ.cells)
    (hcell : h.cells other = some {}) (hk : 2 < nWords) (hkn : nWords + 2 < n)
    (hown : ∀ ℓ' : Layout, ℓ'.cells.Perm (other :: ℓ.cells) →
      Owned host regions others h block ℓ') :
    ∃ h' ℓ', secSplit c other nWords h = some h' ∧ Shape h' block ℓ' (some other) ∧
      Owned host regions others h' block ℓ' ∧ ℓ'.used = ℓ.used ∧
      Step regions others ℓ.used h block h' block ∧ h'.cells.geom other = some (w, nWords) := by
  have hcl := s.rings.cells_of_unused hc
  have hne : c ≠ other := fun he => hother (he ▸ hcl)
  have o := hown { ℓ with cells := other :: ℓ.cells } (.refl _)
  have hclt := o.item_lt (List.mem_cons_of_mem _ hcl)
  have hotherlt := o.item_lt (List.mem_cons_self ..)
  obtain ⟨l₁, l₂, hl⟩ := List.append_of_mem hcl
  obtain ⟨p, h₁, n', hgc, -, -, -, h₂⟩ := Walk.append_iff.mp (hl ▸ s.walk)
  cases hg.symm.trans hgc
  obtain ⟨cell, hcc, rfl, rfl⟩ := exists_cell_of_geom hg
  obtain ⟨cells₁, hu₁, hn₁, hp₁, hus₁, hg₁, hf₁⟩ := update_geom hcell cell.words nWords
    (f := fun other => { other with nWords, words := cell.words }) rfl
  have hcc₁ : cells₁ c = some cell := (hf₁ c hne).trans hcc
  obtain ⟨cells₂, hu₂, hn₂, hp₂, hus₂, hg₂, hf₂⟩ := update_geom (h := { h with cells := cells₁ }) hcc₁
    (cell.words + wordSize * nWords) (cell.nWords - nWords) (f := fun cell => { cell with
      nWords := cell.nWords - nWords
      words  := cell.words + wordSize * nWords }) rfl
  simp only [] at hu₂ hn₂ hp₂ hus₂ hg₂ hf₂
  have hgeom : ∀ d, d ≠ c → d ≠ other → cells₂.geom d = h.cells.geom d := by
    intro d h₁ h₂
    rw [hg₂, Function.update_of_ne h₁, hg₁, Function.update_of_ne h₂]
  have hrest : ∀ d ∈ l₁ ++ l₂, d ≠ c ∧ d ≠ other := by
    have hnd := s.nodup
    rw [hl, List.nodup_middle, List.nodup_cons] at hnd
    intro d hd
    refine ⟨fun he => hnd.left (he ▸ hd), fun he => hother (he ▸ ?_)⟩
    rw [hl, List.perm_middle.mem_iff]
    exact List.mem_cons_of_mem _ hd
  obtain ⟨mem₁, mem, he₁, he, hwalk, hm, hs, -⟩ := border_spec (h := { h with cells := cells₂ })
    (x := other) (y := c) (c := other) (d := c) (n := nWords) (m := cell.nWords - nWords)
    h₁ (by rwa [show nWords + (cell.nWords - nWords) = cell.nWords by omega])
    (fun d hd => hgeom d (hrest d hd).left (hrest d hd).right)
    (by simp [hg₂, hne.symm, hg₁]) (by simp [hg₂]) hk (by omega) hotherlt hclt (.inl ⟨rfl, rfl⟩)
  have hframe : ∀ d, d ≠ c → d ≠ other → cells₂ d = h.cells d :=
    fun d h₁ h₂ => (hf₂ d h₁).trans (hf₁ d h₂)
  have hused : ∀ d ∈ ℓ.used, d ≠ c ∧ d ≠ other := by
    intro d hd
    refine ⟨fun he => s.rings.not_used_of_unused hc (he ▸ hd), fun he => hother (he ▸ ?_)⟩
    exact s.rings.cells_of_used hd
  have hperm : (l₁ ++ other :: c :: l₂).Perm (other :: ℓ.cells) := by
    rw [hl]
    exact List.perm_middle
  refine ⟨{ h with cells := cells₂, mem }, { ℓ with cells := l₁ ++ other :: c :: l₂ }, ?_,
    ⟨s.base, hwalk, ?_, ?_⟩, ?_, rfl, .of_range .refl (a := cell.words)
      (e := cell.words + wordSize * cell.nWords) ?_ ?_ ?_ hs ?_ ?_, ?_⟩
  · simp [secSplit, hcc, hu₁, hu₂, he₁, he]
  · refine s.rings.congr ?_ ?_ ?_ ?_ ?_
    · exact fun d _ _ => by rw [hn₂, hn₁]
    · exact fun d _ _ => by rw [hp₂, hp₁]
    · exact fun d _ _ => by rw [hus₂, hus₁]
    · intro d
      rw [hperm.mem_iff, List.mem_cons, ne_eq, Option.some.injEq]
      constructor
      · rintro ⟨rfl | hd, hne⟩
        · exact absurd rfl hne
        · exact ⟨hd, by simp⟩
      · rintro ⟨hd, -⟩
        exact ⟨.inr hd, fun he => hother (he ▸ hd)⟩
    · rintro _ ⟨⟩
      refine ⟨hperm.mem_iff.mpr (List.mem_cons_self ..), ?_, ?_⟩
      · rw [hn₂, hn₁, Cells.next_eq hcell]
      · rw [hp₂, hp₁, Cells.prev_eq hcell]
  · intro d hd w n r tag hg' hu'
    rw [hgeom d (hused d hd).left (hused d hd).right] at hg'
    rw [hus₂, hus₁] at hu'
    exact s.fits d hd w n r tag hg' hu'
  · refine (hown { ℓ with cells := l₁ ++ other :: c :: l₂ } hperm).congr rfl rfl rfl .refl ?_
    intro d hd
    refine hframe d (fun he => hd ?_) fun he => hd ?_
    all_goals simp [he]
  · exact h₁.le
  · exact h₂.le
  · rwa [show nWords + (cell.nWords - nWords) = cell.nWords by omega] at hm
  · intro d hd
    have hd := o.others_not_mem hd
    simp only [List.mem_cons, not_or] at hd
    exact hframe d (fun he => hd.right (he ▸ hcl)) hd.left
  · intro d hd
    refine ⟨hgeom d (hused d hd).left (hused d hd).right, by rw [hus₂, hus₁], ?_⟩
    intro w' n' hg'
    refine Walk.outside h₁ h₂ ?_ hg'
    have hdl := s.rings.cells_of_used hd
    rw [hl, List.perm_middle.mem_iff, List.mem_cons] at hdl
    exact hdl.resolve_left (hused d hd).left
  · simp [hg₂, hne.symm, hg₁]

-- The end of `sec_alloc`: the cell becomes a used one. It is in the unused ring or in none.
theorem secTake_spec (tag : String) (s : Shape h block ℓ out) (hc : c ∈ ℓ.cells)
    (hout : out = some c ∨ out = none ∧ c ∈ ℓ.unused) (hg : h.cells.geom c = some (w, n))
    (hpos : 0 < length) (hfit : length ≤ (n - 2) * wordSize)
    (o : Owned host regions others h block ℓ) (hnUsed : block.nUsed = ℓ.used.length) :
    ∃ block' h' ℓ', secTake block tag length c h = some (w + wordSize, block', h') ∧
      BlockInv h' block' ℓ' ∧ Owned host regions others h' block' ℓ' ∧
      Step regions others ℓ.used h block h' block' ∧ ℓ'.used.Perm (c :: ℓ.used) ∧
      h'.cells.geom c = some (w, n) ∧ h'.cells.use c = some (length, some tag) ∧
      ∀ x ∈ Memory.range (w + wordSize) length, h'.mem x = .zero := by
  obtain ⟨cell, hcell, rfl, rfl⟩ := exists_cell_of_geom hg
  obtain ⟨ring, cells₁, unused, he₁, r₁, -, hg₁, hus₁, hf₁⟩ := s.rings.leave_unused hout hcell
  obtain ⟨cell₁, hcell₁⟩ : ∃ cell, cells₁ c = some cell := by
    rw [← Option.isSome_iff_exists, ← Cells.isSome_geom, hg₁, hg]
    rfl
  have hup := Cells.update_eq hcell₁ fun cell => { cell with tag := some tag, requested := length }
  have hgeq := Cells.geom_eq hcell₁
  obtain ⟨ring', cells₂, used, he₂, hperm, r₂, hg₂, hus₂, hf₂⟩ := r₁.insert_used
    (Function.update cells₁ c (some { cell₁ with tag := some tag, requested := length })) length tag
    (by simp [← Cells.next_eq hcell₁])
    (by simp [← Cells.prev_eq hcell₁]) (by simp) hpos
  have hgeom : cells₂.geom = h.cells.geom := by
    simp [hg₂, ← hgeq, hg₁]
  have huse : cells₂.use = Function.update h.cells.use c (some (length, some tag)) := by
    simp [hus₂, hus₁]
  have hframe : ∀ x ∉ ℓ.cells, cells₂ x = h.cells x := by
    intro x hx
    rw [hf₂ x hx, Function.update_of_ne fun he => hx (by rwa [he]), hf₁ x hx]
  obtain ⟨hb₁, hb₂, hb₃⟩ := s.walk.bounds hc hg
  have hmem : ∀ x, x < cell.words + wordSize ∨ cell.words + wordSize * (cell.nWords - 1) ≤ x →
      h.mem.fill (cell.words + wordSize) length .zero x = h.mem x := by
    intro x hx
    refine Memory.fill_frame ?_
    simp only [Memory.mem_range, wordSize] at *
    omega
  refine ⟨{ block with nUsed := block.nUsed + 1, unusedCells := ring, usedCells := ring' },
    { h with cells := cells₂, mem := h.mem.fill (cell.words + wordSize) length .zero },
    ⟨ℓ.cells, unused, used⟩, ?_, ⟨⟨s.base, ?_, r₂, ?_⟩, by simp [hnUsed, hperm.length_eq]⟩,
    o.congr rfl rfl rfl ⟨rfl, rfl, rfl⟩ hframe,
    .of_range ⟨rfl, rfl, rfl⟩ (a := cell.words) (e := cell.last) hb₁ hb₂ ?_ .fill ?_ ?_, hperm,
    by rw [hgeom, hg], by simp [huse], fun x hx => Memory.fill_eq hx⟩
  · simp only [secTake, hcell, Option.bind_eq_bind, Option.bind_some]
    by_cases hn : cell.next ≠ none
    case pos =>
      rw [if_pos hn] at he₁ ⊢
      simp only [he₁, Option.bind_some, hup, he₂]
    case neg =>
      rw [if_neg hn] at he₁ ⊢
      cases he₁
      simp only [Option.bind_some, hup, he₂]
  · simp only [hgeom]
    exact s.walk.payload hc hg hmem
  · intro d hd w' n' r tag' hg' hu'
    simp only [hgeom, huse] at hg' hu'
    by_cases hdc : d = c
    case pos =>
      subst hdc
      cases hg.symm.trans hg'
      simp only [Function.update_self, Option.some.injEq, Prod.mk.injEq] at hu'
      exact hu'.left ▸ hfit
    case neg =>
      rw [Function.update_of_ne hdc] at hu'
      exact s.fits d ((List.mem_cons.mp (hperm.mem_iff.mp hd)).resolve_left hdc) w' n' r tag' hg' hu'
  · intro x hx
    refine hmem x ?_
    simp only [Cell.last, wordSize] at *
    omega
  · exact fun d hd => hframe d (o.others_not_mem hd)
  · intro d hd
    have hdc : d ≠ c := by
      rintro rfl
      rcases hout with rfl | ⟨rfl, hcu⟩
      · exact s.rings.out_not_used hd
      · exact s.rings.not_used_of_unused hcu hd
    refine ⟨by rw [hgeom], by rw [huse, Function.update_of_ne hdc], fun w' n' hg' => ?_⟩
    exact s.walk.disjoint (s.rings.cells_of_used hd) hc hdc hg' hg

-- `sec_alloc` returns NULL or a zeroed allocation of a cell that was not used.
theorem secAlloc_spec (tag : String) (b : BlockInv h block ℓ) (o : Owned host regions others h block ℓ)
    (hl : length ≠ 0) :
    ∃ r block' h' ℓ', secAlloc host block tag length h = some (r, block', h') ∧
      BlockInv h' block' ℓ' ∧ Owned host regions others h' block' ℓ' ∧
      Step regions others ℓ.used h block h' block' ∧ (r = none → ℓ'.used = ℓ.used) ∧
      ∀ m, r = some m → ∃ c w n, ℓ'.used.Perm (c :: ℓ.used) ∧ m = w + wordSize ∧
        h'.cells.geom c = some (w, n) ∧ h'.cells.use c = some (length, some tag) ∧
        ∀ x ∈ Memory.range m length, h'.mem x = .zero := by
  have s := b.toShape
  have hpos := Nat.pos_of_ne_zero hl
  unfold secAlloc
  simp only [guard, hl, ne_eq, not_false_eq_true, if_true, Option.pure_def, Option.bind_eq_bind,
    Option.bind_some]
  cases hun : block.unusedCells with
  | none => exact ⟨none, block, h, ℓ, rfl, b, o, .refl, fun _ => rfl, by simp⟩
  | some head =>
    have hring := hun ▸ s.rings.unused
    obtain ⟨t, ht⟩ := hring.exists_cons
    obtain ⟨found, hfound, hspec⟩ := secFind_spec (secSizeToWords length + 2)
      (block.nWords + 1) hring
      (fun c hc => exists_cell_of_mem s (s.rings.cells_of_unused hc))
      (show ℓ.unused = [] ++ head :: t from ht)
      (by have := s.unused_length_le; simp [ht] at this; omega)
    simp only [hfound, Option.bind_some]
    cases found with
    | none => exact ⟨none, block, h, ℓ, rfl, b, o, .refl, fun _ => rfl, by simp⟩
    | some c =>
      obtain ⟨hc, cell, hcell, hn⟩ := hspec c rfl
      have hcl := s.rings.cells_of_unused hc
      have hv : h.cells.use c = some (0, none) := s.rings.vacant hc
      rw [Cells.use_eq hcell] at hv
      obtain ⟨hreq, htag⟩ : cell.requested = 0 ∧ cell.tag = none := by simpa using hv
      obtain ⟨prev, -, hprev⟩ := exists_prev s.rings.unused.chain hc
      have hprev := hprev.right
      rw [Cells.prev_eq hcell] at hprev
      have hguards := secCheckGuards_spec s.walk hcl
      have hwords := secSizeToWords_le length
      have hwpos := secSizeToWords_pos hl
      have hge := Cells.geom_eq hcell
      simp only [hcell, hreq, htag, hprev, hguards, Option.bind_some, if_true, reduceCtorEq,
        not_false_eq_true]
      by_cases hlong : secSizeToWords length + 2 + waste < cell.nWords
      case neg =>
        simp only [hlong, if_false]
        have hfit : length ≤ (cell.nWords - 2) * wordSize := by
          simp only [wordSize] at *
          omega
        obtain ⟨block', h', ℓ', he, b', o', step, hperm, hg, hu, hz⟩ := secTake_spec tag s hcl
          (.inr ⟨rfl, hc⟩) hge hpos hfit o b.nUsed
        simp only [he, Option.bind_some]
        refine ⟨_, block', h', ℓ', rfl, b', o', step, by simp, ?_⟩
        rintro m ⟨⟩
        exact ⟨c, _, _, hperm, rfl, hg, hu, hz⟩
      case pos =>
        simp only [hlong, if_true]
        obtain ⟨r, h₁, he₁, s₁, step₁, hnone, hsome⟩ := poolAlloc_block s o
        have hcells := fun d hd => (step₁.kept d hd).geom
        have step₁ := step₁.mono fun d hd => s.rings.cells_of_used hd
        cases r with
        | none =>
          exact ⟨none, block, h₁, ℓ, by simp [he₁], ⟨s₁, b.nUsed⟩, hnone rfl, step₁, fun _ => rfl,
            by simp⟩
        | some other =>
          obtain ⟨hother, hocell, hown⟩ := hsome other rfl
          have hge₁ := (hcells c hcl).trans hge
          obtain ⟨h₂, ℓ₂, he₂, s₂, o₂, hu₂, step₂, hg₂⟩ :=
            secSplit_spec (secSizeToWords length + 2) s₁ hc hge₁ hother hocell (by omega)
              (by simp only [waste] at hlong; omega) hown
          obtain ⟨block', h', ℓ', he, b', o', step, hperm, hg, hu, hz⟩ := secTake_spec tag s₂
            (s₂.rings.loose other rfl).left (.inl rfl) hg₂ hpos (by simpa using hwords)
            o₂ (hu₂ ▸ b.nUsed)
          rw [hu₂] at step hperm
          refine ⟨some (cell.words + wordSize), block', h', ℓ',
            by simp only [he₁, he₂, he, Option.bind_some], b', o',
            (step₁.trans step₂).trans step, by simp, ?_⟩
          rintro m ⟨⟩
          exact ⟨other, _, _, hperm, rfl, hg, hu, hz⟩

end SecureMemory
