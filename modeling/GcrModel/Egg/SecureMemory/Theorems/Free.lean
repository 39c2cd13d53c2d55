import GcrModel.Egg.SecureMemory.Theorems.Alloc

open Ring

-- `sec_free` keeps the invariant of the block, touches no other allocation and clears the freed one.
namespace SecureMemory

variable {host : Host} {regions : List (Nat × Nat)} {others : List Nat} {h : Heap} {block : Block}
  {ℓ : Layout} {c w n r : Nat} {tag : Option String} {out : Option Nat}

-- The metadata of a cell is found from its payload.
theorem secLookup_spec (s : Shape h block ℓ out) (o : Owned host regions others h block ℓ)
    (hc : c ∈ ℓ.cells) (hg : h.cells.geom c = some (w, n)) :
    ∃ cell, secLookup block (w + wordSize) h = some (c, cell) ∧ h.cells c = some cell ∧
      cell.words = w ∧ cell.nWords = n := by
  obtain ⟨cell, hcell, rfl, rfl⟩ := exists_cell_of_geom hg
  obtain ⟨l₁, l₂, p, n, -, -, hp, -, hr, -⟩ := s.walk.split hc
  cases hg.symm.trans hp
  obtain ⟨hb₁, hb₂, hb₃⟩ := s.walk.bounds hc hg
  have hv : secIsValidWord block cell.words := by
    simp only [secIsValidWord, wordSize] at *
    omega
  have hpool := poolValid_of_live o.heap (List.mem_append_left _ hc)
  have hsub : cell.words + wordSize - wordSize = cell.words := Nat.add_sub_cancel ..
  refine ⟨cell, ?_, hcell, rfl, rfl⟩
  simp only [secLookup, hsub, guard, hv, if_true, hr, hpool, Option.pure_def, Option.bind_eq_bind,
    Option.bind_some, hcell, secCheckGuards_spec s.walk hc]

-- A neighbor is merged if it is not used.
theorem exists_neighbor (s : Shape h block ℓ out) (hc : c ∈ ℓ.cells) (ho : out ≠ some c) :
    ∃ cell, h.cells c = some cell ∧ (cell.requested = 0 → c ∈ ℓ.unused ∧ cell.tag = none ∧
      cell.next ≠ none ∧ cell.prev ≠ none) := by
  obtain ⟨cell, hcell⟩ := exists_cell_of_mem s hc
  refine ⟨cell, hcell, fun hr => ?_⟩
  have hu := Cells.use_eq hcell
  have hv : h.cells.Vacant c := by
    refine (s.rings.kind c hc ho).resolve_right ?_
    rintro ⟨r, tag, hu', hpos⟩
    simp only [hu, hr, Option.some.injEq, Prod.mk.injEq] at hu'
    omega
  have hcu := (s.rings.mem_unused c).mpr ⟨hc, ho, hv⟩
  obtain ⟨n, -, hn⟩ := exists_next s.rings.unused.chain hcu
  obtain ⟨p, -, hp⟩ := exists_prev s.rings.unused.chain hcu
  have htag : cell.tag = none := by
    simp only [Cells.Vacant, hu, Option.some.injEq, Prod.mk.injEq] at hv
    exact hv.right
  refine ⟨hcu, htag, ?_, ?_⟩
  · rw [← Cells.next_eq hcell, hn.left]
    simp
  · rw [← Cells.prev_eq hcell, hp.right]
    simp

theorem secMergeBefore_spec (s : Shape h block ℓ (some c)) (o : Owned host regions others h block ℓ) :
    ∃ c' h' ℓ' out', secMergeBefore block c h = some (c', h') ∧ Shape h' block ℓ' out' ∧
      Owned host regions others h' block ℓ' ∧ Step regions others ℓ.used h block h' block ∧
      ℓ'.used = ℓ.used ∧ (out' = some c' ∨ out' = none ∧ c' ∈ ℓ'.unused) := by
  have hc := (s.rings.loose c rfl).left
  obtain ⟨cell, hcell⟩ := exists_cell_of_mem s hc
  obtain ⟨l₁, l₂, hl⟩ := List.append_of_mem hc
  have hbefore := secNeighborBefore_spec s.base (hl ▸ s.walk)
  unfold secMergeBefore
  simp only [hcell, hbefore, Option.bind_eq_bind, Option.bind_some]
  rcases List.eq_nil_or_concat l₁ with rfl | ⟨l, other, rfl⟩
  · exact ⟨c, h, ℓ, some c, rfl, s, o, .refl, rfl, .inl rfl⟩
  rw [List.concat_eq_append, List.append_assoc, List.singleton_append] at hl
  have hoc : other ∈ ℓ.cells := by simp [hl]
  have hne : c ≠ other := (ne_neighbors (hl ▸ s.nodup)).left.symm
  obtain ⟨before, hbcell, hunused⟩ := exists_neighbor s hoc (by simpa using hne)
  have hlast : (l.concat other).getLast? = some other := by simp
  simp only [hlast, hbcell, Option.bind_some]
  by_cases hreq : before.requested = 0
  case neg =>
    simp only [hreq, if_false]
    exact ⟨c, h, ℓ, some c, rfl, s, o, .refl, rfl, .inl rfl⟩
  case pos =>
    obtain ⟨hou, htag, hnext, hprev⟩ := hunused hreq
    obtain ⟨cells, hu, hn, hp, hus, hg, hf⟩ := update_geom hbcell before.words
      (before.nWords + cell.nWords) (f := fun other =>
        { other with nWords := other.nWords + cell.nWords }) rfl
    have r : Rings cells block.unusedCells block.usedCells ℓ (some c) := by
      refine s.rings.congr (fun d _ _ => by rw [hn]) (fun d _ _ => by rw [hp])
        (fun d _ _ => by rw [hus]) (fun _ => Iff.rfl) fun d hd => ?_
      rw [hn, hp]
      exact s.rings.loose d hd
    obtain ⟨h₁, h', he₁, he, s', o', step, -, -, -⟩ := merge_spec _ _ s o .refl rfl rfl hl
      (Cells.geom_eq hbcell) (Cells.geom_eq hcell) (.inl ⟨rfl, rfl⟩) r hg hus
      fun d hd => hf d fun hdo => hd (hdo ▸ hoc)
    refine ⟨other, h', _, none, ?_, s', o', step ℓ.used fun d hd => ⟨s.rings.cells_of_used hd, ?_, ?_⟩,
      rfl, .inr ⟨rfl, hou⟩⟩
    · simp [hreq, htag, hnext, hprev, hu, he₁, he, guard]
    · rintro rfl
      exact s.rings.not_used_of_unused hou hd
    · rintro rfl
      exact s.rings.out_not_used hd

theorem secMergeAfter_spec (s : Shape h block ℓ out) (o : Owned host regions others h block ℓ)
    (hout : out = some c ∨ out = none ∧ c ∈ ℓ.unused) :
    ∃ c' block' h' ℓ' out', secMergeAfter block c h = some (c', block', h') ∧
      Shape h' block' ℓ' out' ∧ Owned host regions others h' block' ℓ' ∧
      Step regions others ℓ.used h block h' block' ∧ ℓ'.used = ℓ.used ∧
      (out' = some c' ∨ out' = none ∧ c' ∈ ℓ'.unused) ∧ block'.nUsed = block.nUsed := by
  have hc : c ∈ ℓ.cells := by
    rcases hout with rfl | ⟨rfl, hcu⟩
    · exact (s.rings.loose c rfl).left
    · exact s.rings.cells_of_unused hcu
  have hcused : c ∉ ℓ.used := by
    rcases hout with rfl | ⟨rfl, hcu⟩
    · exact s.rings.out_not_used
    · exact s.rings.not_used_of_unused hcu
  obtain ⟨cell, hcell⟩ := exists_cell_of_mem s hc
  obtain ⟨l₁, l₂, hl⟩ := List.append_of_mem hc
  have hafter := secNeighborAfter_spec (hl ▸ s.walk)
  unfold secMergeAfter
  simp only [hcell, hafter, Option.bind_eq_bind, Option.bind_some]
  cases l₂ with
  | nil => exact ⟨c, block, h, ℓ, out, rfl, s, o, .refl, rfl, hout, rfl⟩
  | cons other l₂ =>
    have hoc : other ∈ ℓ.cells := by simp [hl]
    have hne : c ≠ other := (ne_neighbors (hl ▸ s.nodup)).left
    have hoo : out ≠ some other := by
      rcases hout with rfl | ⟨rfl, -⟩
      · simpa using hne
      · simp
    obtain ⟨after, hacell, hunused⟩ := exists_neighbor s hoc hoo
    simp only [List.head?_cons, hacell, Option.bind_some]
    by_cases hreq : after.requested = 0
    case neg =>
      simp only [hreq, if_false]
      exact ⟨c, block, h, ℓ, out, rfl, s, o, .refl, rfl, hout, rfl⟩
    case pos =>
      obtain ⟨hou, htag, hnext, hprev⟩ := hunused hreq
      obtain ⟨cells, hu, hn, hp, hus, hg, hf⟩ := update_geom hacell cell.words
        (after.nWords + cell.nWords) (f := fun other =>
          { other with nWords := other.nWords + cell.nWords, words := cell.words }) rfl
      have r : Rings cells block.unusedCells block.usedCells ℓ out := by
        refine s.rings.congr (fun d _ _ => by rw [hn]) (fun d _ _ => by rw [hp])
          (fun d _ _ => by rw [hus]) (fun _ => Iff.rfl) fun d hd => ?_
        rw [hn, hp]
        exact s.rings.loose d hd
      obtain ⟨ring, cells₁, unused, hr, r₁, hmu, hg₁, hus₁, hf₁⟩ :=
        r.leave_unused hout ((hf c hne).trans hcell)
      obtain ⟨h₁, h', he₁, he, s', o', step, -, -, -⟩ := merge_spec { block with unusedCells := ring }
        ⟨ℓ.cells, unused, ℓ.used⟩ s o ⟨rfl, rfl, rfl⟩ rfl rfl hl
        (Cells.geom_eq hcell) (Cells.geom_eq hacell) (.inr ⟨rfl, rfl⟩) r₁
        (by rw [hg₁, hg, Nat.add_comm]) (hus₁.trans hus)
        fun d hd => (hf₁ d hd).trans (hf d fun hdo => hd (hdo ▸ hoc))
      refine ⟨other, { block with unusedCells := ring }, h', _, none, ?_, s', o',
        step ℓ.used fun d hd => ⟨s.rings.cells_of_used hd, ?_, ?_⟩, rfl,
        .inr ⟨rfl, (hmu other hne.symm).mpr hou⟩, rfl⟩
      · simp only [hreq, htag, hnext, hprev, hu, guard, if_true, ne_eq, not_false_eq_true, and_self,
          Option.pure_def, Option.bind_some]
        by_cases hcn : cell.next ≠ none
        case pos =>
          rw [if_pos hcn] at hr ⊢
          simp only [hr, he₁, he, Option.bind_some]
        case neg =>
          rw [if_neg hcn] at hr ⊢
          cases hr
          simp only [he₁, he, Option.bind_some]
      · rintro rfl
        exact s.rings.not_used_of_unused hou hd
      · rintro rfl
        exact hcused hd

-- The cell of a freed allocation goes back to the unused ones, merged with its unused neighbors.
theorem secFree_spec (b : BlockInv h block ℓ) (o : Owned host regions others h block ℓ)
    (hc : c ∈ ℓ.used) (hg : h.cells.geom c = some (w, n)) (hu : h.cells.use c = some (r, tag)) :
    ∃ block' h' ℓ', secFree block (w + wordSize) h = some (block', h') ∧ BlockInv h' block' ℓ' ∧
      Owned host regions others h' block' ℓ' ∧
      Step regions others (ℓ.used.erase c) h block h' block' ∧ ℓ'.used = ℓ.used.erase c ∧
      ∀ x ∈ Memory.range (w + wordSize) r, ¬(h'.mem x).IsClient := by
  have s := b.toShape
  have hcl := s.rings.cells_of_used hc
  obtain ⟨cell, hlook, hcell, rfl, rfl⟩ := secLookup_spec s o hcl hg
  obtain ⟨r', tag', hu', hpos⟩ := s.rings.occupied hc
  cases hu'.symm.trans hu
  rw [Cells.use_eq hcell] at hu
  obtain ⟨rfl, htag⟩ : cell.requested = r ∧ cell.tag = some tag' := by simpa using hu
  have hfit := s.fits c hc _ _ _ _ hg hu'
  obtain ⟨hb₁, hb₂, hb₃⟩ := s.walk.bounds hcl hg
  -- The payload is cleared.
  let mem := h.mem.fill (cell.words + wordSize) cell.requested .zero
  have hmem : ∀ x, x < cell.words + wordSize ∨ cell.words + wordSize * (cell.nWords - 1) ≤ x →
      mem x = h.mem x := by
    intro x hx
    refine Memory.fill_frame ?_
    simp only [Memory.mem_range, wordSize] at *
    omega
  have s₁ := s.payload hcl hg hmem
  have hclear : secClear (cell.words + wordSize) 0 cell.requested h = some { h with mem } := by
    simp [secClear, guard, mem]
  -- The cell leaves the used ring.
  obtain ⟨ring, cells₂, he₂, r₂, hg₂, hus₂, hf₂⟩ := s₁.rings.remove_used hc
  have s₂ : Shape { h with cells := cells₂, mem } { block with usedCells := ring }
      { ℓ with used := ℓ.used.erase c } (some c) := by
    refine ⟨s.base, hg₂ ▸ s₁.walk, r₂, fun d hd w n r tag hg hu => ?_⟩
    exact s₁.fits d (List.mem_of_mem_erase hd) w n r tag (hg₂ ▸ hg) (hus₂ ▸ hu)
  have o₂ : Owned host regions others { h with cells := cells₂, mem } { block with usedCells := ring }
      { ℓ with used := ℓ.used.erase c } := o.congr rfl rfl rfl ⟨rfl, rfl, rfl⟩ hf₂
  have step₂ : Step regions others (ℓ.used.erase c) h block { h with cells := cells₂, mem }
      { block with usedCells := ring } := by
    refine .of_range ⟨rfl, rfl, rfl⟩ (a := cell.words) (e := cell.last) hb₁ hb₂ (fun x hx => ?_) .fill
      (fun d hd => hf₂ d (o.others_not_mem hd)) fun d hd => ⟨congrFun hg₂ d, congrFun hus₂ d, ?_⟩
    · refine hmem x ?_
      simp only [Cell.last, wordSize] at *
      omega
    · have hd := s.rings.used.nodup.mem_erase_iff.mp hd
      intro w' n' hg'
      exact s.walk.disjoint (s.rings.cells_of_used hd.right) hcl hd.left hg' hg
  -- The neighbors are merged, and the cell enters the unused ring.
  obtain ⟨c₃, h₃, ℓ₃, out₃, he₃, s₃, o₃, step₃, hu₃, hout₃⟩ := secMergeBefore_spec s₂ o₂
  obtain ⟨c₄, block₄, h₄, ℓ₄, out₄, he₄, s₄, o₄, step₄, hu₄, hout₄, hn₄⟩ :=
    secMergeAfter_spec s₃ o₃ hout₃
  rw [hu₃] at step₄
  have hu₄ : ℓ₄.used = ℓ.used.erase c := hu₄.trans hu₃
  have hc₄ : c₄ ∈ ℓ₄.cells ∧ c₄ ∉ ℓ₄.used := by
    rcases hout₄ with rfl | ⟨rfl, hcu⟩
    · exact ⟨(s₄.rings.loose c₄ rfl).left, s₄.rings.out_not_used⟩
    · exact ⟨s₄.rings.cells_of_unused hcu, s₄.rings.not_used_of_unused hcu⟩
  obtain ⟨cell₄, hcell₄⟩ := exists_cell_of_mem s₄ hc₄.left
  obtain ⟨ring₅, cells₅, cells₆, unused, he₅, hup, r₆, hg₆, hus₆, hf₆⟩ :=
    s₄.rings.enter_unused hout₄ hcell₄
  have huse : ∀ d ∈ ℓ₄.used, cells₆.use d = h₄.cells.use d := by
    intro d hd
    have hne : d ≠ c₄ := fun he => hc₄.right (he ▸ hd)
    rw [hus₆, Function.update_of_ne hne]
  have step₆ : Step regions others (ℓ.used.erase c) h₄ block₄ { h₄ with cells := cells₆ }
      { block₄ with nUsed := block₄.nUsed - 1, unusedCells := ring₅ } := by
    refine ⟨⟨fun d hd => hf₆ d (o₄.others_not_mem hd), fun _ _ _ _ _ => rfl⟩, ⟨rfl, rfl, rfl⟩,
      fun d hd => ⟨congrFun hg₆ d, huse d (hu₄ ▸ hd), fun _ _ _ _ _ _ => rfl⟩, .of_mem .refl⟩
  have steps := step₃.trans (step₄.trans step₆)
  refine ⟨{ block₄ with nUsed := block₄.nUsed - 1, unusedCells := ring₅ },
    { h₄ with cells := cells₆ }, { ℓ₄ with unused }, ?_, ⟨⟨s₄.base, hg₆ ▸ s₄.walk, r₆, ?_⟩, ?_⟩,
    o₄.congr rfl rfl rfl ⟨rfl, rfl, rfl⟩ hf₆, step₂.trans steps, hu₄, ?_⟩
  · have hguards := secCheckGuards_spec s₁.walk hcl
    simp only [secFree, hlook, hclear, hguards, guard, hpos, htag, he₂, he₃, he₄, hcell₄, if_true,
      ne_eq, reduceCtorEq, not_false_eq_true, Option.pure_def, Option.bind_eq_bind, Option.bind_some]
    by_cases hcn : cell₄.next = none
    case pos =>
      rw [if_pos hcn] at he₅ ⊢
      simp only [he₅, hup, Option.bind_some]
    case neg =>
      rw [if_neg hcn] at he₅ ⊢
      cases he₅
      simp only [hup, Option.bind_some]
  · intro d hd w n r tag hg hu
    rw [huse d hd] at hu
    exact s₄.fits d hd w n r tag (hg₆ ▸ hg) hu
  · simp only [hn₄, hu₄, List.length_erase_of_mem hc, b.nUsed]
  · intro x hx
    have hzero : ¬(mem x).IsClient := by
      simp [mem, Memory.fill_eq hx, Byte.IsClient]
    have hin : block.words ≤ x ∧ x < block.last := by
      simp only [Memory.mem_range, wordSize] at *
      omega
    rcases steps.scrubbed x hin.left hin.right with he | hne
    · exact he ▸ hzero
    · exact hne

end SecureMemory
