import GcrModel.Egg.SecureMemory.Pool
import GcrModel.Library.Ring

open Ring

-- What the functions on rings do, in terms of the views `geom`, `next`, `prev` and `use` of the
-- metadata: they change the links of the nodes of the ring and nothing else.
namespace SecureMemory

variable {cells cells' : Cells} {cell : Cell} {c d : Nat} {ring : Option Nat} {l : List Nat}

namespace Cells

theorem isSome_of_next (h : cells.next c = some d) : (cells c).isSome := by
  unfold next at h
  cases hc : cells c <;> simp_all

theorem isSome_of_prev (h : cells.prev c = some d) : (cells c).isSome := by
  unfold prev at h
  cases hc : cells c <;> simp_all

theorem isSome_geom : (cells.geom c).isSome = (cells c).isSome := by
  simp [geom]

theorem isSome_use : (cells.use c).isSome = (cells c).isSome := by
  simp [use]

@[simp]
theorem geom_update_some : geom (Function.update cells c (some cell)) =
    Function.update cells.geom c (some (cell.words, cell.nWords)) := by
  funext x
  by_cases h : x = c
  · subst h; simp [geom]
  · simp [geom, h]

@[simp]
theorem use_update_some : use (Function.update cells c (some cell)) =
    Function.update cells.use c (some (cell.requested, cell.tag)) := by
  funext x
  by_cases h : x = c
  · subst h; simp [use]
  · simp [use, h]

@[simp]
theorem next_update_some : next (Function.update cells c (some cell)) =
    Function.update cells.next c cell.next := by
  funext x
  by_cases h : x = c
  · subst h; simp [next]
  · simp [next, h]

@[simp]
theorem prev_update_some : prev (Function.update cells c (some cell)) =
    Function.update cells.prev c cell.prev := by
  funext x
  by_cases h : x = c
  · subst h; simp [prev]
  · simp [prev, h]

theorem geom_eq (h : cells c = some cell) : cells.geom c = some (cell.words, cell.nWords) := by
  simp [geom, h]

theorem use_eq (h : cells c = some cell) : cells.use c = some (cell.requested, cell.tag) := by
  simp [use, h]

theorem next_eq (h : cells c = some cell) : cells.next c = cell.next := by
  simp [next, h]

theorem prev_eq (h : cells c = some cell) : cells.prev c = cell.prev := by
  simp [prev, h]

theorem update_eq (h : cells c = some cell) (f : Cell → Cell) :
    cells.update c f = some (Function.update cells c (some (f cell))) := by
  simp [update, h]

-- Metadata that differs from `cells` in the links of `c` at most.
structure Relinked (c : Nat) (cells cells' : Cells) : Prop where
  geom  : cells'.geom = cells.geom
  use   : cells'.use = cells.use
  frame : ∀ x, x ≠ c → cells' x = cells x

theorem update_links (h : (cells c).isSome) (f : Cell → Cell)
    (hf : ∀ x, (f x).words = x.words ∧ (f x).nWords = x.nWords ∧ (f x).requested = x.requested ∧
      (f x).tag = x.tag) :
    ∃ cell cells', cells c = some cell ∧ cells.update c f = some cells' ∧
      cells'.next = Function.update cells.next c (f cell).next ∧
      cells'.prev = Function.update cells.prev c (f cell).prev ∧ Relinked c cells cells' := by
  obtain ⟨cell, hc⟩ := Option.isSome_iff_exists.mp h
  have ⟨h₁, h₂, h₃, h₄⟩ := hf cell
  refine ⟨cell, _, hc, update_eq hc f, by simp, by simp, ?_, ?_, ?_⟩
  · simp [h₁, h₂, ← geom_eq hc]
  · simp [h₃, h₄, ← use_eq hc]
  · exact fun x hx => Function.update_of_ne hx _ _

theorem update_next (h : (cells c).isSome) (n : Option Nat) :
    ∃ cells', cells.update c (fun cell => { cell with next := n }) = some cells' ∧
      cells'.next = Function.update cells.next c n ∧ cells'.prev = cells.prev ∧
      Relinked c cells cells' := by
  obtain ⟨cell, cells', hc, hu, hn, hp, hr⟩ := update_links h (fun cell => { cell with next := n })
    fun _ => ⟨rfl, rfl, rfl, rfl⟩
  exact ⟨cells', hu, hn, by simp [hp, ← prev_eq hc], hr⟩

theorem update_prev (h : (cells c).isSome) (p : Option Nat) :
    ∃ cells', cells.update c (fun cell => { cell with prev := p }) = some cells' ∧
      cells'.next = cells.next ∧ cells'.prev = Function.update cells.prev c p ∧
      Relinked c cells cells' := by
  obtain ⟨cell, cells', hc, hu, hn, hp, hr⟩ := update_links h (fun cell => { cell with prev := p })
    fun _ => ⟨rfl, rfl, rfl, rfl⟩
  exact ⟨cells', hu, by simp [hn, ← next_eq hc], hp, hr⟩

theorem update_next_prev (h : (cells c).isSome) (n p : Option Nat) :
    ∃ cells', cells.update c (fun cell => { cell with next := n, prev := p }) = some cells' ∧
      cells'.next = Function.update cells.next c n ∧
      cells'.prev = Function.update cells.prev c p ∧ Relinked c cells cells' := by
  obtain ⟨cell, cells', hc, hu, hn, hp, hr⟩ := update_links h
    (fun cell => { cell with next := n, prev := p }) fun _ => ⟨rfl, rfl, rfl, rfl⟩
  exact ⟨cells', hu, hn, hp, hr⟩

theorem Relinked.isSome (r : Relinked c cells cells') (h : (cells d).isSome) :
    (cells' d).isSome := by
  rwa [← isSome_geom, r.geom, isSome_geom]

-- A ring does not depend on the metadata of other cells.
theorem isRing_congr (r : IsRing cells.next cells.prev ring l) (h : ∀ x ∈ l, cells' x = cells x) :
    IsRing cells'.next cells'.prev ring l := by
  refine r.congr (fun x hx => ?_) fun x hx => ?_
  all_goals simp only [next, prev, h x hx]

end Cells

-- `sec_insert_cell_ring` adds a node that is in no ring.
theorem secInsertCellRing_spec (r : IsRing cells.next cells.prev ring l) (hc : c ∉ l)
    (hsome : (cells c).isSome) (hn : cells.next c = none) (hp : cells.prev c = none) :
    ∃ cells' l', secInsertCellRing ring c cells = some (some c, cells') ∧ l'.Perm (c :: l) ∧
      IsRing cells'.next cells'.prev (some c) l' ∧ cells'.geom = cells.geom ∧
      cells'.use = cells.use ∧ ∀ x ∉ c :: l, cells' x = cells x := by
  obtain ⟨cell, hcell⟩ := Option.isSome_iff_exists.mp hsome
  rw [Cells.next_eq hcell] at hn
  rw [Cells.prev_eq hcell] at hp
  unfold secInsertCellRing
  cases ring with
  | none =>
    cases r.eq_nil
    obtain ⟨cells', hu, hn', hp', hr⟩ := Cells.update_next_prev hsome (some c) (some c)
    refine ⟨cells', [c], ?_, .refl _, .singleton (by simp [hn']) (by simp [hp']), hr.geom, hr.use,
      fun x hx => hr.frame x (by simpa using hx)⟩
    simp [hcell, hn, hp, hu, hn', hp']
  | some head =>
    obtain ⟨t, rfl⟩ := r.exists_cons
    obtain ⟨n, hnl, hlink⟩ := exists_next r.chain (List.mem_cons_self ..)
    have hch : c ≠ head := fun he => hc (by simp [he])
    have hcn : c ≠ n := fun he => hc (he ▸ hnl)
    have hhead := Cells.isSome_of_next hlink.left
    have hsn := Cells.isSome_of_prev hlink.right
    obtain ⟨cells₁, hu₁, hn₁, hp₁, hr₁⟩ := Cells.update_next_prev hsome (some n) (some head)
    obtain ⟨cells₂, hu₂, hn₂, hp₂, hr₂⟩ := Cells.update_prev (hr₁.isSome hsn) (some c)
    obtain ⟨cells₃, hu₃, hn₃, hp₃, hr₃⟩ :=
      Cells.update_next (hr₂.isSome (hr₁.isSome hhead)) (some c)
    have hnext : ∀ x, cells₃.next x =
        if x = head then some c else if x = c then some n else cells.next x := by
      intro x
      simp only [hn₃, hn₂, hn₁, Function.update_apply]
    have hprev : ∀ x, cells₃.prev x =
        if x = n then some c else if x = c then some head else cells.prev x := by
      intro x
      simp only [hp₃, hp₂, hp₁, Function.update_apply]
    refine ⟨cells₃, c :: (t ++ [head]), ?_, ?_, r.insert hc hlink.left hnext hprev, ?_, ?_, ?_⟩
    · have h₁ : cells₃.next c = some n := by simp [hnext, hch]
      have h₂ : cells₃.prev c = some head := by simp [hprev, hcn]
      simp [hcell, hn, hp, hlink.left, hu₁, hu₂, hu₃, h₁, h₂, hnext, hprev, hch.symm]
    · exact .cons _ (List.perm_append_singleton head t)
    · rw [hr₃.geom, hr₂.geom, hr₁.geom]
    · rw [hr₃.use, hr₂.use, hr₁.use]
    · intro x hx
      simp only [List.mem_cons, not_or] at hx hnl
      have hxn : x ≠ n := by
        rintro rfl
        exact hnl.elim hx.right.left hx.right.right
      rw [hr₃.frame x hx.right.left, hr₂.frame x hxn, hr₁.frame x hx.left]

-- `sec_remove_cell_ring` takes a node out, which is in no ring then.
theorem secRemoveCellRing_spec (r : IsRing cells.next cells.prev ring l) (hc : c ∈ l) :
    ∃ ring' cells', secRemoveCellRing ring c cells = some (ring', cells') ∧
      IsRing cells'.next cells'.prev ring' (l.erase c) ∧ cells'.next c = none ∧
      cells'.prev c = none ∧ cells'.geom = cells.geom ∧ cells'.use = cells.use ∧
      ∀ x ∉ l, cells' x = cells x := by
  obtain ⟨n, hnl, hn⟩ := exists_next r.chain hc
  obtain ⟨p, hpl, hp⟩ := exists_prev r.chain hc
  obtain ⟨head, hhead⟩ : ∃ head, ring = some head := by
    rw [r.head]
    cases l with
    | nil      => simp at hc
    | cons a t => exact ⟨a, rfl⟩
  obtain ⟨cells₁, hu₁, hn₁, hp₁, hr₁⟩ :=
    Cells.update_prev (Cells.isSome_of_prev hn.right) (some p)
  obtain ⟨cells₂, hu₂, hn₂, hp₂, hr₂⟩ :=
    Cells.update_next (hr₁.isSome (Cells.isSome_of_next hp.left)) (some n)
  obtain ⟨cells₃, hu₃, hn₃, hp₃, hr₃⟩ :=
    Cells.update_next_prev (hr₂.isSome (hr₁.isSome (Cells.isSome_of_next hn.left))) none none
  have hr : IsRing cells₃.next cells₃.prev (l.erase c).head? (l.erase c) := by
    refine r.remove hc hp hn ?_ ?_
    · intro x hx
      simp [hn₃, hn₂, hn₁, Function.update_apply, hx]
    · intro x hx
      simp [hp₃, hp₂, hp₁, Function.update_apply, hx]
  have hring := r.head?_erase hc hn.left
  refine ⟨_, cells₃, ?_, hr, by simp [hn₃], by simp [hp₃], ?_, ?_, ?_⟩
  · have hne : (l.erase c).head? ≠ some c := by
      intro he
      exact r.nodup.not_mem_erase (List.mem_of_mem_head? he)
    have hcn : n = c ↔ p = c := by
      constructor
      · rintro rfl
        exact Option.some.inj (hp.right.symm.trans hn.right)
      · rintro rfl
        exact Option.some.inj (hn.left.symm.trans hp.left)
    rw [hring] at hne ⊢
    simp only [hhead, Option.some.injEq] at hne ⊢
    unfold secRemoveCellRing
    by_cases hch : c = head
    case neg =>
      have hch' : head ≠ c := fun he => hch he.symm
      simp [hn.left, hp.right, hn.right, hp.left, hu₁, hu₂, hu₃, hch, hch']
    case pos =>
      subst hch
      by_cases hnc : n = c
      case pos =>
        cases hcn.mp hnc
        subst hnc
        simp [hn.left, hn.right, hu₁, hu₂, hu₃]
      case neg =>
        have hpc : p ≠ c := mt hcn.mpr hnc
        simp [hn.left, hp.right, hn.right, hp.left, hu₁, hu₂, hu₃, hnc, hpc]
  · rw [hr₃.geom, hr₂.geom, hr₁.geom]
  · rw [hr₃.use, hr₂.use, hr₁.use]
  · intro x hx
    rw [hr₃.frame x fun he => hx (he ▸ hc), hr₂.frame x fun he => hx (he ▸ hpl),
      hr₁.frame x fun he => hx (he ▸ hnl)]

end SecureMemory

-- Walking over the cells of a block, with the guards as the pointers to follow.
namespace SecureMemory

variable {geom geom' : Nat → Option (Nat × Nat)} {mem mem' : Memory Byte} {a b c d e p q w n : Nat}
  {l l₁ l₂ : List Nat} {h h' : Heap} {block : Block}

-- The list of the cells from the address `a` on: the word at `a` points to the metadata of the next
-- cell, which lies there, and so does its last word. The cells end at the address `e`.
def Walk (geom : Nat → Option (Nat × Nat)) (mem : Memory Byte) : Nat → List Nat → Nat → Prop
  | a, [], e => a = e
  | a, c :: l, e => ∃ n, geom c = some (a, n) ∧ 2 < n ∧ readWord mem a = c ∧
    readWord mem (a + wordSize * (n - 1)) = c ∧ Walk geom mem (a + wordSize * n) l e

namespace Walk

theorem le (h : Walk geom mem a l e) : a ≤ e := by
  induction l generalizing a with
  | nil => exact Nat.le_of_eq h
  | cons c l ih =>
    obtain ⟨n, -, -, -, -, h⟩ := h
    exact Nat.le_trans (Nat.le_add_right ..) (ih h)

theorem append_iff : Walk geom mem a (l₁ ++ l₂) e ↔ ∃ p, Walk geom mem a l₁ p ∧ Walk geom mem p l₂ e := by
  induction l₁ generalizing a with
  | nil => exact ⟨fun h => ⟨a, rfl, h⟩, fun ⟨p, hp, h⟩ => hp ▸ h⟩
  | cons c l ih =>
    simp only [List.cons_append, Walk, ih]
    constructor
    · rintro ⟨n, h₁, h₂, h₃, h₄, p, h₅, h₆⟩
      exact ⟨p, ⟨n, h₁, h₂, h₃, h₄, h₅⟩, h₆⟩
    · rintro ⟨p, ⟨n, h₁, h₂, h₃, h₄, h₅⟩, h₆⟩
      exact ⟨n, h₁, h₂, h₃, h₄, p, h₅, h₆⟩

theorem readWord_congr (hm : Set.EqOn mem mem' (Memory.range a wordSize)) :
    readWord mem a = readWord mem' a :=
  Memory.load_congr hm

-- A walk only depends on the cells in it and the memory between its ends.
theorem congr (h : Walk geom mem a l e) (hg : ∀ c ∈ l, geom' c = geom c)
    (hm : ∀ x, a ≤ x → x < e → mem' x = mem x) : Walk geom' mem' a l e := by
  induction l generalizing a with
  | nil => exact h
  | cons c l ih =>
    obtain ⟨n, h₁, h₂, h₃, h₄, h₅⟩ := h
    have hle := h₅.le
    simp only [wordSize] at *
    refine ⟨n, hg c (by simp) ▸ h₁, h₂, ?_, ?_, ih h₅ (fun d hd => hg d (by simp [hd])) ?_⟩
    · rw [← h₃]
      refine readWord_congr fun x hx => hm x hx.left ?_
      simp only [Memory.mem_range, wordSize] at hx
      omega
    · rw [← h₄]
      refine readWord_congr fun x hx => ?_
      simp only [Memory.mem_range, wordSize] at hx
      exact hm x (by omega) (by omega)
    · intro x hx
      exact hm x (by omega)

-- The surroundings of a cell in a walk.
theorem split (h : Walk geom mem a l e) (hc : c ∈ l) :
    ∃ l₁ l₂ p n, l = l₁ ++ c :: l₂ ∧ Walk geom mem a l₁ p ∧ geom c = some (p, n) ∧ 2 < n ∧
      readWord mem p = c ∧ readWord mem (p + wordSize * (n - 1)) = c ∧
      Walk geom mem (p + wordSize * n) l₂ e := by
  obtain ⟨l₁, l₂, rfl⟩ := List.append_of_mem hc
  obtain ⟨p, h₁, n, h₂, h₃, h₄, h₅, h₆⟩ := (append_iff).mp h
  exact ⟨l₁, l₂, p, n, rfl, h₁, h₂, h₃, h₄, h₅, h₆⟩

theorem bounds (h : Walk geom mem a l e) (hc : c ∈ l) (hg : geom c = some (w, n)) :
    a ≤ w ∧ w + wordSize * n ≤ e ∧ 2 < n := by
  obtain ⟨l₁, l₂, p, n', -, h₁, h₂, h₃, -, -, h₄⟩ := h.split hc
  cases hg.symm.trans h₂
  exact ⟨h₁.le, h₄.le, h₃⟩

theorem exists_geom (h : Walk geom mem a l e) (hc : c ∈ l) : ∃ w n, geom c = some (w, n) := by
  obtain ⟨-, -, p, n, -, -, h, -⟩ := h.split hc
  exact ⟨p, n, h⟩

-- The starts of the cells increase.
theorem not_mem_of_lt (h : Walk geom mem a l e) (hg : geom c = some (w, n)) (hw : w < a) : c ∉ l :=
  fun hc => absurd (h.bounds hc hg).left (Nat.not_le.mpr hw)

theorem nodup (h : Walk geom mem a l e) : l.Nodup := by
  induction l generalizing a with
  | nil => exact List.nodup_nil
  | cons c l ih =>
    obtain ⟨n, h₁, h₂, -, -, h₅⟩ := h
    refine List.nodup_cons.mpr ⟨h₅.not_mem_of_lt h₁ ?_, ih h₅⟩
    simp only [wordSize]
    omega

-- Two cells of a walk do not overlap.
theorem disjoint {w' n' : Nat} (h : Walk geom mem a l e) (hc : c ∈ l) (hd : d ∈ l) (hne : c ≠ d)
    (hgc : geom c = some (w, n)) (hgd : geom d = some (w', n')) :
    w + wordSize * n ≤ w' ∨ w' + wordSize * n' ≤ w := by
  obtain ⟨l₁, l₂, p, m, rfl, h₁, h₂, -, -, -, h₃⟩ := h.split hc
  cases hgc.symm.trans h₂
  simp only [List.mem_append, List.mem_cons] at hd
  rcases hd with hd | rfl | hd
  · exact .inr (h₁.bounds hd hgd).right.left
  · exact absurd rfl hne
  · exact .inl (h₃.bounds hd hgd).left

theorem length_le (h : Walk geom mem a l e) : a + wordSize * l.length ≤ e := by
  induction l generalizing a with
  | nil => exact Nat.le_of_eq h
  | cons c l ih =>
    obtain ⟨n, -, h₂, -, -, h₅⟩ := h
    have := ih h₅
    simp only [wordSize, List.length_cons] at *
    omega

-- The cells of a part of the walk are replaced by others in the same place.
theorem replace (mid : List Nat) (h₁ : Walk geom mem a l₁ p) (h₂ : Walk geom mem q l₂ e)
    (hm : Walk geom' mem' p mid q) (hg₁ : ∀ c ∈ l₁, geom' c = geom c)
    (hg₂ : ∀ c ∈ l₂, geom' c = geom c)
    (hmem : ∀ x, x < p ∨ q ≤ x → mem' x = mem x) :
    Walk geom' mem' a (l₁ ++ (mid ++ l₂)) e := by
  refine (append_iff).mpr ⟨p, h₁.congr hg₁ fun x _ hx => hmem x (.inl hx), ?_⟩
  exact (append_iff).mpr ⟨q, hm, h₂.congr hg₂ fun x hx _ => hmem x (.inr hx)⟩

end Walk

theorem readWord_writeGuard (hc : c < 2 ^ 64) : readWord (writeGuard mem a c) a = c := by
  refine Memory.load_store (Nat.lt_of_lt_of_eq hc (by norm_num [wordSize])) fun i => ?_
  simp [guardByte, Byte.val]

theorem readWord_writeGuard_of_disjoint (hd : a + wordSize ≤ b ∨ b + wordSize ≤ a) :
    readWord (writeGuard mem a c) b = readWord mem b := by
  refine Walk.readWord_congr fun x hx => Memory.store_frame ?_
  simp only [Memory.mem_range] at hx ⊢
  omega

-- Memory in which the client's bytes are where they were, or gone.
def Scrubbed (mem mem' : Memory Byte) : Prop :=
  ∀ x, mem' x = mem x ∨ ¬(mem' x).IsClient

theorem Scrubbed.refl : Scrubbed mem mem :=
  fun _ => .inl rfl

theorem Scrubbed.trans {mem'' : Memory Byte} (h₁ : Scrubbed mem mem') (h₂ : Scrubbed mem' mem'') :
    Scrubbed mem mem'' := by
  intro x
  rcases h₂ x with h | h
  · exact (h₁ x).imp h.trans fun hc => h ▸ hc
  · exact .inr h

theorem Scrubbed.fill : Scrubbed mem (mem.fill a n .zero) := by
  intro x
  by_cases hx : x ∈ Memory.range a n
  · exact .inr (by simp [Memory.fill_eq hx, Byte.IsClient])
  · exact .inl (Memory.fill_frame hx)

theorem Scrubbed.writeGuard : Scrubbed mem (writeGuard mem a c) := by
  intro x
  by_cases hx : x ∈ Memory.range a wordSize
  · obtain ⟨i, rfl⟩ := Nat.exists_eq_add_of_le hx.left
    exact .inr (by
      rw [SecureMemory.writeGuard, Memory.store_eq (Nat.lt_of_add_lt_add_left hx.right)]
      simp [guardByte, Byte.IsClient])
  · exact .inl (Memory.store_frame hx)

theorem Scrubbed.not_isClient {x : Nat} (h : Scrubbed mem mem') (hx : ¬(mem x).IsClient) :
    ¬(mem' x).IsClient := by
  rcases h x with he | hn
  · exact he ▸ hx
  · exact hn

-- The links and uses of the cells do not matter for `sec_write_guards`.
theorem secWriteGuards_eq (hg : h.cells.geom c = some (w, n)) :
    secWriteGuards c h = some { h with
      mem := writeGuard (writeGuard h.mem w c) (w + wordSize * (n - 1)) c } := by
  unfold Cells.geom at hg
  obtain ⟨cell, hcell, he⟩ := Option.map_eq_some_iff.mp hg
  cases he
  simp [secWriteGuards, hcell]

-- `sec_write_guards` makes a cell a walk of its own.
theorem secWriteGuards_spec (hg : h.cells.geom c = some (w, n)) (hn : 2 < n) (hc : c < 2 ^ 64) :
    ∃ mem, secWriteGuards c h = some { h with mem } ∧
      Walk h.cells.geom mem w [c] (w + wordSize * n) ∧
      (∀ x, x < w ∨ w + wordSize * n ≤ x → mem x = h.mem x) ∧ Scrubbed h.mem mem ∧
      (∀ x, w + wordSize ≤ x → x < w + wordSize * (n - 1) → mem x = h.mem x) := by
  unfold Cells.geom at hg
  obtain ⟨cell, hcell, he⟩ := Option.map_eq_some_iff.mp hg
  cases he
  refine ⟨_, by simp only [secWriteGuards, hcell]; rfl, ?_, ?_, .trans .writeGuard .writeGuard, ?_⟩
  · refine ⟨cell.nWords, Cells.geom_eq hcell, hn, ?_, readWord_writeGuard hc, rfl⟩
    rw [readWord_writeGuard_of_disjoint, readWord_writeGuard hc]
    simp only [wordSize]
    omega
  · intro x hx
    rw [writeGuard, Memory.store_frame, writeGuard, Memory.store_frame]
    all_goals
      simp only [Memory.mem_range, wordSize] at *
      omega
  · intro x hx hx'
    rw [writeGuard, Memory.store_frame, writeGuard, Memory.store_frame]
    all_goals
      simp only [Memory.mem_range, wordSize] at *
      omega

theorem secCheckGuards_spec (hw : Walk h.cells.geom h.mem a l e) (hc : c ∈ l) :
    secCheckGuards c h = some () := by
  obtain ⟨-, -, p, n, -, -, hg, -, h₁, h₂, -⟩ := hw.split hc
  unfold Cells.geom at hg
  obtain ⟨cell, hcell, he⟩ := Option.map_eq_some_iff.mp hg
  cases he
  simp [secCheckGuards, hcell, h₁, h₂]

theorem exists_cell_of_geom (hg : h.cells.geom c = some (w, n)) :
    ∃ cell, h.cells c = some cell ∧ cell.words = w ∧ cell.nWords = n := by
  unfold Cells.geom at hg
  obtain ⟨cell, hcell, he⟩ := Option.map_eq_some_iff.mp hg
  cases he
  exact ⟨cell, hcell, rfl, rfl⟩

-- The neighbors found through the guards are those in the walk.
theorem secNeighborAfter_spec (hw : Walk h.cells.geom h.mem block.words (l₁ ++ c :: l₂) block.last) :
    secNeighborAfter block c h = some l₂.head? := by
  obtain ⟨p, h₁, n, hg, hn, -, -, h₂⟩ := Walk.append_iff.mp hw
  obtain ⟨cell, hcell, rfl, rfl⟩ := exists_cell_of_geom hg
  have hle := h₁.le
  cases l₂ with
  | nil =>
    have hlast : ¬secIsValidWord block cell.last := by
      simp only [secIsValidWord, Cell.last]
      exact fun hv => absurd hv.right (by rw [show _ = _ from h₂]; exact Nat.lt_irrefl _)
    simp [secNeighborAfter, hcell, hlast]
  | cons d l =>
    have hd : d ∈ l₁ ++ c :: d :: l := by simp
    obtain ⟨m, -, hm, hr, -, h₃⟩ := h₂
    have hlast : secIsValidWord block cell.last := by
      have := h₃.le
      simp only [secIsValidWord, Cell.last, wordSize] at *
      omega
    have hr' : readWord h.mem cell.last = d := hr
    simp [secNeighborAfter, hcell, hlast, hr', secCheckGuards_spec hw hd]

theorem secNeighborBefore_spec (hb : wordSize ≤ block.words)
    (hw : Walk h.cells.geom h.mem block.words (l₁ ++ c :: l₂) block.last) :
    secNeighborBefore block c h = some l₁.getLast? := by
  obtain ⟨p, h₁, n, hg, hn, -, -, h₂⟩ := Walk.append_iff.mp hw
  obtain ⟨cell, hcell, rfl, rfl⟩ := exists_cell_of_geom hg
  rcases List.eq_nil_or_concat l₁ with rfl | ⟨l, d, rfl⟩
  · have hstart : ¬secIsValidWord block (cell.words - wordSize) := by
      have : block.words = cell.words := h₁
      simp only [secIsValidWord, wordSize] at *
      omega
    simp [secNeighborBefore, hcell, hstart]
  · rw [List.concat_eq_append] at *
    have hd : d ∈ l ++ [d] ++ c :: l₂ := by simp
    obtain ⟨q, h₃, m, hgd, hm, -, hr, he⟩ := Walk.append_iff.mp h₁
    have he : q + wordSize * m = cell.words := he
    have hstart : secIsValidWord block (cell.words - wordSize) := by
      have := h₃.le
      have := h₂.le
      simp only [secIsValidWord, wordSize] at *
      omega
    have hr' : readWord h.mem (cell.words - wordSize) = d := by
      rw [← hr]
      congr 1
      simp only [wordSize] at *
      omega
    simp [secNeighborBefore, hcell, hstart, hr', secCheckGuards_spec hw hd]

end SecureMemory
