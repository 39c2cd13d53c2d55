import GcrModel.Egg.SecureMemory.Theorems.Realloc

-- What the client sees of a block: its allocations, their contents and that nothing of them is left
-- outside of them.
namespace SecureMemory

variable {host : Host} {regions : List (Nat × Nat)} {others keep : List Nat} {h h' h'' : Heap}
  {block block' : Block} {ℓ ℓ' : Layout} {c w n r length : Nat} {t : Option String} {tag : String}
  {l : List Nat} {a : Nat × Nat}

-- The payload of a cell: its address and its length.
def Cells.alloc (cells : Cells) (c : Nat) : Nat × Nat :=
  ((cells c).map fun cell => (cell.words + wordSize, cell.requested)).getD (0, 0)

theorem Cells.alloc_eq {cells : Cells} (hg : cells.geom c = some (w, n)) (hu : cells.use c = some (r, t)) :
    cells.alloc c = (w + wordSize, r) := by
  unfold Cells.geom at hg
  obtain ⟨cell, hcell, he⟩ := Option.map_eq_some_iff.mp hg
  cases he
  rw [Cells.use_eq hcell] at hu
  cases hu
  simp [Cells.alloc, hcell]

def Layout.allocs (ℓ : Layout) (h : Heap) : List (Nat × Nat) :=
  ℓ.used.map h.cells.alloc

def Preserves (h h' : Heap) (a : Nat × Nat) : Prop :=
  ∀ x ∈ Memory.range a.1 a.2, h'.mem x = h.mem x

theorem Preserves.refl : Preserves h h a :=
  fun _ _ => rfl

theorem Preserves.trans (h₁ : Preserves h h' a) (h₂ : Preserves h' h'' a) : Preserves h h'' a :=
  fun x hx => (h₂ x hx).trans (h₁ x hx)

-- The allocation that a function returns, unless it returns NULL.
def returned (length : Nat) (memory : Option Nat) : List (Nat × Nat) :=
  memory.elim [] fun p => [(p, length)]

def Zeroed (h : Heap) (length : Nat) (memory : Option Nat) : Prop :=
  ∀ p, memory = some p → ∀ x ∈ Memory.range p length, h.mem x = .zero

theorem Zeroed.none {length : Nat} : Zeroed h length none := by
  simp [Zeroed]

-- The client's bytes in a block are those of its allocations.
def Clean (h : Heap) (block : Block) (ℓ : Layout) : Prop :=
  ∀ x, block.words ≤ x → x < block.last → (h.mem x).IsClient →
    ∃ a ∈ ℓ.allocs h, x ∈ Memory.range a.1 a.2

-- A used cell with its place and its allocation.
theorem Shape.exists_alloc (s : Shape h block ℓ none) (hc : c ∈ ℓ.used) :
    ∃ w n r t, h.cells.geom c = some (w, n) ∧ h.cells.use c = some (r, some t) ∧ 0 < r ∧
      r ≤ (n - 2) * wordSize ∧ h.cells.alloc c = (w + wordSize, r) ∧ block.words ≤ w ∧
      w + wordSize * n ≤ block.last ∧ 2 < n := by
  obtain ⟨w, n, hg⟩ := s.walk.exists_geom (s.rings.cells_of_used hc)
  obtain ⟨r, t, hu, hpos⟩ := s.rings.occupied hc
  have ⟨h₁, h₂, h₃⟩ := s.walk.bounds (s.rings.cells_of_used hc) hg
  exact ⟨w, n, r, t, hg, hu, hpos, s.fits c hc w n r (some t) hg hu, Cells.alloc_eq hg hu, h₁, h₂, h₃⟩

-- The payload of a cell lies in its block.
theorem Shape.alloc_mem (s : Shape h block ℓ none) (ha : a ∈ ℓ.allocs h) :
    block.words + wordSize ≤ a.1 ∧ a.1 + a.2 + wordSize ≤ block.last ∧ 0 < a.2 := by
  obtain ⟨c, hc, rfl⟩ := List.mem_map.mp ha
  obtain ⟨w, n, r, t, -, -, hpos, hfit, he, h₁, h₂, h₃⟩ := s.exists_alloc hc
  rw [he]
  simp only [wordSize] at *
  omega

-- The payloads of different cells do not overlap.
theorem Shape.allocs_apart (s : Shape h block ℓ none) : (ℓ.allocs h).Pairwise Apart := by
  refine List.pairwise_map.mpr (s.rings.used.nodup.imp_of_mem fun {c d} hc hd hne => ?_)
  obtain ⟨w, n, r, t, hg, hu, -, hfit, he, -, -, hn⟩ := s.exists_alloc hc
  obtain ⟨w', n', r', t', hg', hu', -, hfit', he', -, -, hn'⟩ := s.exists_alloc hd
  have := s.walk.disjoint (s.rings.cells_of_used hc) (s.rings.cells_of_used hd) hne hg hg'
  rw [he, he']
  simp only [Apart, wordSize] at *
  omega

-- A cell that is kept has the same allocation with the same contents.
theorem Kept.alloc (s : Shape h block ℓ none) (hk : Kept h h' c) (hc : c ∈ ℓ.used) :
    h'.cells.alloc c = h.cells.alloc c ∧ Preserves h h' (h.cells.alloc c) := by
  obtain ⟨w, n, r, t, hg, hu, -, hfit, he, -, -, hn⟩ := s.exists_alloc hc
  refine ⟨he ▸ Cells.alloc_eq (hk.geom.trans hg) (hk.use.trans hu), fun x hx => ?_⟩
  rw [he] at hx
  simp only [Memory.mem_range, wordSize] at hx hfit
  exact hk.mem w n hg x (by omega) (by simp only [wordSize]; omega)

theorem allocs_of_kept (s : Shape h block ℓ none) (hl : ∀ d ∈ l, d ∈ ℓ.used)
    (hk : ∀ d ∈ l, Kept h h' d) :
    l.map h'.cells.alloc = l.map h.cells.alloc ∧ ∀ a ∈ l.map h.cells.alloc, Preserves h h' a := by
  refine ⟨List.map_congr_left fun d hd => ((hk d hd).alloc s (hl d hd)).left, fun a ha => ?_⟩
  obtain ⟨d, hd, rfl⟩ := List.mem_map.mp ha
  exact ((hk d hd).alloc s (hl d hd)).right

theorem exists_of_mem_allocs (ha : a ∈ ℓ.allocs h) (s : Shape h block ℓ none) :
    ∃ c w n r t, c ∈ ℓ.used ∧ h.cells.geom c = some (w, n) ∧ h.cells.use c = some (r, t) ∧
      a = (w + wordSize, r) := by
  obtain ⟨c, hc, rfl⟩ := List.mem_map.mp ha
  obtain ⟨w, n, r, t, hg, hu, -, -, he, -⟩ := s.exists_alloc hc
  exact ⟨c, w, n, r, some t, hc, hg, hu, he⟩

-- `sec_alloc` for the client of the block.
theorem secAlloc_client (tag : String) (b : BlockInv h block ℓ) (o : Owned host regions others h block ℓ)
    (hcl : Clean h block ℓ) (hl : length ≠ 0) :
    ∃ m block' h' ℓ', secAlloc host block tag length h = some (m, block', h') ∧
      BlockInv h' block' ℓ' ∧ Owned host regions others h' block' ℓ' ∧
      Frame regions others block h h' ∧ SameRegion block block' ∧ Clean h' block' ℓ' ∧
      (ℓ'.allocs h').Perm (returned length m ++ ℓ.allocs h) ∧
      (∀ a ∈ ℓ.allocs h, Preserves h h' a) ∧ Zeroed h' length m := by
  obtain ⟨m, block', h', ℓ', he, b', o', step, hnone, hsome⟩ :=
    secAlloc_spec tag b o hl
  obtain ⟨hall, hpres⟩ := allocs_of_kept b.toShape (fun _ hd => hd) step.kept
  have hperm : (ℓ'.allocs h').Perm (returned length m ++ ℓ.allocs h) := by
    cases m with
    | none =>
      simp only [returned, Option.elim_none, List.nil_append, Layout.allocs, hnone rfl, hall]
      exact .refl _
    | some p =>
      obtain ⟨c, w, n, hp, rfl, hg, hu, -⟩ := hsome p rfl
      refine (hp.map _).trans ?_
      simp only [returned, List.map_cons, Cells.alloc_eq hg hu, hall, Option.elim_some,
        List.singleton_append]
      exact .refl _
  refine ⟨m, block', h', ℓ', he, b', o', step.frame, step.region, ?_, hperm, hpres, ?_⟩
  · intro x hx hx' hclient
    rw [step.region.words] at hx
    rw [step.region.last] at hx'
    have hsame := (step.scrubbed x hx hx').resolve_right fun hn => hn hclient
    obtain ⟨a, ha, hxa⟩ := hcl x hx hx' (hsame ▸ hclient)
    exact ⟨a, hperm.mem_iff.mpr (List.mem_append_right _ ha), hxa⟩
  · rintro p rfl
    obtain ⟨c, w, n, -, rfl, -, -, hz⟩ := hsome p rfl
    exact hz

-- `sec_free` for the client of the block.
theorem secFree_client (b : BlockInv h block ℓ) (o : Owned host regions others h block ℓ)
    (hcl : Clean h block ℓ) (ha : a ∈ ℓ.allocs h) :
    ∃ block' h' ℓ', secFree block a.1 h = some (block', h') ∧ BlockInv h' block' ℓ' ∧
      Owned host regions others h' block' ℓ' ∧ Frame regions others block h h' ∧
      SameRegion block block' ∧ Clean h' block' ℓ' ∧ (a :: ℓ'.allocs h').Perm (ℓ.allocs h) ∧
      ∀ a ∈ ℓ'.allocs h', Preserves h h' a := by
  have s := b.toShape
  obtain ⟨c, w, n, r, t, hc, hg, hu, rfl⟩ := exists_of_mem_allocs ha s
  obtain ⟨block', h', ℓ', he, b', o', step, hlu, hclear⟩ := secFree_spec b o hc hg hu
  obtain ⟨hall, hpres⟩ := allocs_of_kept s (fun _ hd => List.mem_of_mem_erase hd) step.kept
  have hall' : ℓ'.allocs h' = (ℓ.used.erase c).map h.cells.alloc := by
    rw [Layout.allocs, hlu, hall]
  have hperm : ((w + wordSize, r) :: ℓ'.allocs h').Perm (ℓ.allocs h) := by
    rw [hall', ← Cells.alloc_eq hg hu, ← List.map_cons]
    exact ((List.perm_cons_erase hc).map _).symm
  refine ⟨block', h', ℓ', he, b', o', step.frame, step.region, ?_, hperm, hall' ▸ hpres⟩
  intro x hx hx' hclient
  rw [step.region.words] at hx
  rw [step.region.last] at hx'
  have hsame := (step.scrubbed x hx hx').resolve_right fun hn => hn hclient
  obtain ⟨a, ha, hxa⟩ := hcl x hx hx' (hsame ▸ hclient)
  rcases List.mem_cons.mp (hperm.mem_iff.mpr ha) with rfl | ha
  · exact absurd hclient (hclear x hxa)
  · exact ⟨a, ha, hxa⟩

-- `sec_realloc` for the client of the block. The bytes that an allocation grows by are zero, unless its
-- cell is large enough already.
theorem secRealloc_client (tag : String) (b : BlockInv h block ℓ) (o : Owned host regions others h block ℓ)
    (hcl : Clean h block ℓ) (ha : a ∈ ℓ.allocs h) (hl : 0 < length) :
    ∃ m block' h' ℓ' c cell, secRealloc host block tag a.1 length h = some (m, block', h') ∧
      BlockInv h' block' ℓ' ∧ Owned host regions others h' block' ℓ' ∧
      Frame regions others block h h' ∧ SameRegion block block' ∧ Clean h' block' ℓ' ∧
      secLookup block a.1 h = some (c, cell) ∧ 0 < cell.requested ∧ cell.tag ≠ none ∧
      cell.requested = a.2 ∧
      (∀ a' ∈ (ℓ.allocs h).erase a, Preserves h h' a') ∧
      (m = none → (¬secSizeToWords length + 2 ≤ cell.nWords ∧ a.2 ≤ length) ∧
        (ℓ'.allocs h').Perm (ℓ.allocs h) ∧ Preserves h h' a) ∧
      ∀ p, m = some p → (ℓ'.allocs h').Perm ((p, length) :: (ℓ.allocs h).erase a) ∧
        (∀ i < min a.2 length, h'.mem (p + i) = h.mem (a.1 + i)) ∧
        ∀ i, a.2 ≤ i → i < length → h'.mem (p + i) =
          if secSizeToWords length + 2 ≤ cell.nWords then h.mem (a.1 + i) else .zero := by
  have s := b.toShape
  obtain ⟨c, w, n, r, t, hc, hg, hu, rfl⟩ := exists_of_mem_allocs ha s
  obtain ⟨cell, hlook, hcell, rfl, rfl⟩ := secLookup_spec s o (s.rings.cells_of_used hc) hg
  obtain ⟨r', t', hu', hpos⟩ := s.rings.occupied hc
  cases hu'.symm.trans hu
  have huse := hu
  rw [Cells.use_eq hcell] at hu
  obtain ⟨rfl, htag⟩ : cell.requested = r ∧ cell.tag = some t' := by simpa using hu
  obtain ⟨m, block', h', ℓ', he, b', o', frame, region, hkept, hnone, hsome⟩ :=
    secRealloc_spec tag b o hc hg huse hl
  have herase : ((ℓ.used.erase c).map h.cells.alloc).Perm
      ((ℓ.allocs h).erase (cell.words + wordSize, cell.requested)) := by
    have hp := ((List.perm_cons_erase hc).map h.cells.alloc).erase
      (cell.words + wordSize, cell.requested)
    rw [List.map_cons, Cells.alloc_eq hg huse, List.erase_cons_head] at hp
    exact hp.symm
  obtain ⟨hall, hpres⟩ := allocs_of_kept s (fun _ hd => List.mem_of_mem_erase hd) hkept
  have hallocs : m = none → (ℓ'.allocs h').Perm (ℓ.allocs h) := by
    intro hm
    obtain ⟨-, hlu, ⟨n', hg'⟩, hu', -⟩ := hnone hm
    have : (ℓ.used.map h'.cells.alloc).Perm (ℓ.used.map h.cells.alloc) := by
      refine ((List.perm_cons_erase hc).map _).trans ?_
      refine .trans ?_ ((List.perm_cons_erase hc).map _).symm
      rw [List.map_cons, List.map_cons, hall, Cells.alloc_eq hg' hu', Cells.alloc_eq hg huse]
    rw [Layout.allocs, hlu]
    exact this
  have hallocs' : ∀ p, m = some p → (ℓ'.allocs h').Perm
      ((p, length) :: (ℓ.used.erase c).map h.cells.alloc) := by
    intro p hm
    obtain ⟨c', w', n', t'', hperm, rfl, hg', hu', -⟩ := hsome p hm
    refine (hperm.map _).trans ?_
    rw [List.map_cons, hall, Cells.alloc_eq hg' hu']
  refine ⟨m, block', h', ℓ', c, cell, he, b', o', frame, region, ?_, hlook, hpos, by simp [htag], rfl,
    fun a' ha' => hpres a' (herase.mem_iff.mpr ha'), fun hm => ⟨(hnone hm).left, hallocs hm, ?_⟩, fun p hm => ⟨?_, ?_, ?_⟩⟩
  · intro x hx hx' hclient
    rw [region.words] at hx
    rw [region.last] at hx'
    cases m with
    | none =>
      obtain ⟨-, -, -, -, hscrub, -⟩ := hnone rfl
      have hsame := (hscrub x hx hx').resolve_right fun hn => hn hclient
      obtain ⟨a, ha, hxa⟩ := hcl x hx hx' (hsame ▸ hclient)
      exact ⟨a, (hallocs rfl).mem_iff.mpr ha, hxa⟩
    | some p =>
      obtain ⟨-, -, -, -, -, -, -, -, -, -, hclean⟩ := hsome p rfl
      rcases hclean x hx hx' hclient with hxp | ⟨hsame, hxo⟩
      · refine ⟨(p, length), (hallocs' p rfl).mem_iff.mpr (List.mem_cons_self ..), ?_⟩
        simp only [Memory.mem_range] at hxp ⊢
        omega
      · obtain ⟨a, ha, hxa⟩ := hcl x hx hx' (hsame ▸ hclient)
        refine ⟨a, (hallocs' p rfl).mem_iff.mpr (List.mem_cons_of_mem _ ?_), hxa⟩
        have ha' := ((List.perm_cons_erase hc).map h.cells.alloc).mem_iff.mp ha
        rw [List.map_cons, Cells.alloc_eq hg huse, List.mem_cons] at ha'
        refine ha'.resolve_left ?_
        rintro rfl
        exact hxo hxa
  · exact (hnone hm).right.right.right.right.right
  · exact (hallocs' p hm).trans (.cons _ herase)
  · obtain ⟨-, -, -, -, -, -, -, -, hold, -, -⟩ := hsome p hm
    exact hold
  · obtain ⟨-, -, -, -, -, -, -, -, -, hnew, -⟩ := hsome p hm
    exact hnew

end SecureMemory
