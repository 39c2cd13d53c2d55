import GcrModel.Egg.SecureMemory.Theorems.Block

-- Cutting a cell in two, joining two cells and moving the border between them. In all of these the
-- guards of the cells are written anew.
namespace SecureMemory

variable {host : Host} {regions : List (Nat × Nat)} {others keep : List Nat} {h h' h'' : Heap}
  {block block' : Block} {ℓ : Layout} {geom : Nat → Option (Nat × Nat)} {mem : Memory Byte}
  {a c d e g w n m k x y : Nat} {l l₁ l₂ s s' : List Nat}

-- Writing the geometry of a cell.
theorem update_geom {cell : Cell} (hc : h.cells c = some cell) (w n : Nat) {f : Cell → Cell}
    (hf : f cell = { cell with words := w, nWords := n }) :
    ∃ cells, h.cells.update c f = some cells ∧ cells.next = h.cells.next ∧
      cells.prev = h.cells.prev ∧ cells.use = h.cells.use ∧
      cells.geom = Function.update h.cells.geom c (some (w, n)) ∧
      ∀ d, d ≠ c → cells d = h.cells d := by
  refine ⟨_, Cells.update_eq hc f, ?_, ?_, ?_, by simp [hf], fun d hd => ?_⟩
  · simp [hf, ← Cells.next_eq hc]
  · simp [hf, ← Cells.prev_eq hc]
  · simp [hf, ← Cells.use_eq hc]
  · exact Function.update_of_ne hd _ _

-- The cells before and behind a part of a walk lie outside of it.
theorem Walk.outside {w' n' : Nat} (h₁ : Walk geom mem a l₁ w) (h₂ : Walk geom mem e l₂ d)
    (hc : c ∈ l₁ ++ l₂) (hg : geom c = some (w', n')) :
    w' + wordSize * n' ≤ w ∨ e ≤ w' := by
  rcases List.mem_append.mp hc with hc | hc
  · exact .inl (h₁.bounds hc hg).right.left
  · exact .inr (h₂.bounds hc hg).left

-- Two neighbors in a walk.
theorem Walk.neighbors (hw : Walk geom mem a (l₁ ++ x :: y :: l₂) e) :
    ∃ w n m, geom x = some (w, n) ∧ geom y = some (w + wordSize * n, m) ∧ 2 < n ∧ 2 < m ∧
      Walk geom mem a l₁ w ∧ Walk geom mem (w + wordSize * (n + m)) l₂ e := by
  obtain ⟨w, h₁, n, hx, hn, -, -, m, hy, hm, -, -, h₂⟩ := append_iff.mp hw
  refine ⟨w, n, m, hx, hy, hn, hm, h₁, ?_⟩
  rwa [Nat.mul_add, ← Nat.add_assoc]

-- Writing the guards of a cell that takes the place of two.
theorem join_spec (h₁ : Walk geom h.mem a l₁ w) (h₂ : Walk geom h.mem (w + wordSize * n) l₂ e)
    (hg : ∀ d ∈ l₁ ++ l₂, h.cells.geom d = geom d) (hk : h.cells.geom k = some (w, n))
    (hn : 2 < n) (hlt : k < 2 ^ 64) :
    ∃ mem, secWriteGuards k h = some { h with mem } ∧
      Walk h.cells.geom mem a (l₁ ++ k :: l₂) e ∧
      (∀ x, x < w ∨ w + wordSize * n ≤ x → mem x = h.mem x) ∧ Scrubbed h.mem mem ∧
      (∀ x, w + wordSize ≤ x → x < w + wordSize * (n - 1) → mem x = h.mem x) := by
  obtain ⟨mem, he, hw, hm, hs, hp⟩ := secWriteGuards_spec hk hn hlt
  refine ⟨mem, he, ?_, hm, hs, hp⟩
  exact Walk.replace [k] h₁ h₂ hw (fun d hd => hg d (List.mem_append_left _ hd))
    (fun d hd => hg d (List.mem_append_right _ hd)) hm

-- Writing the guards of two cells one behind the other, in this order or the other one.
theorem border_spec (h₁ : Walk geom h.mem a l₁ w)
    (h₂ : Walk geom h.mem (w + wordSize * (n + m)) l₂ e)
    (hg : ∀ d ∈ l₁ ++ l₂, h.cells.geom d = geom d) (hx : h.cells.geom x = some (w, n))
    (hy : h.cells.geom y = some (w + wordSize * n, m)) (hn : 2 < n) (hm : 2 < m)
    (hxlt : x < 2 ^ 64) (hylt : y < 2 ^ 64) (hc : c = x ∧ d = y ∨ c = y ∧ d = x) :
    ∃ mem₁ mem, secWriteGuards c h = some { h with mem := mem₁ } ∧
      secWriteGuards d { h with mem := mem₁ } = some { h with mem } ∧
      Walk h.cells.geom mem a (l₁ ++ x :: y :: l₂) e ∧
      (∀ x, x < w ∨ w + wordSize * (n + m) ≤ x → mem x = h.mem x) ∧ Scrubbed h.mem mem ∧
      (∀ x, w + wordSize ≤ x → x < w + wordSize * (n - 1) → mem x = h.mem x) := by
  have hwalk : ∀ mem, Walk h.cells.geom mem w [x] (w + wordSize * n) →
      Walk h.cells.geom mem (w + wordSize * n) [y] (w + wordSize * n + wordSize * m) →
      (∀ x, x < w ∨ w + wordSize * (n + m) ≤ x → mem x = h.mem x) →
      Walk h.cells.geom mem a (l₁ ++ x :: y :: l₂) e := by
    intro mem hwx hwy hm
    refine Walk.replace [x, y] h₁ h₂ (Walk.append_iff.mpr ⟨_, hwx, ?_⟩)
      (fun d hd => hg d (List.mem_append_left _ hd))
      (fun d hd => hg d (List.mem_append_right _ hd)) hm
    rwa [Nat.mul_add, ← Nat.add_assoc]
  rcases hc with ⟨rfl, rfl⟩ | ⟨rfl, rfl⟩
  · obtain ⟨mem₁, he₁, hw₁, hm₁, hs₁, hp₁⟩ := secWriteGuards_spec hx hn hxlt
    obtain ⟨mem, he, hw, hm₂, hs₂, hp₂⟩ := secWriteGuards_spec (h := { h with mem := mem₁ }) hy hm hylt
    have hout : ∀ x, x < w ∨ w + wordSize * (n + m) ≤ x → mem x = h.mem x := by
      intro x hx
      simp only [wordSize] at *
      rw [hm₂ x (by omega), hm₁ x (by omega)]
    refine ⟨mem₁, mem, he₁, he, hwalk mem ?_ hw hout, hout, hs₁.trans hs₂, ?_⟩
    · exact hw₁.congr (fun _ _ => rfl) fun x _ hx => hm₂ x (.inl hx)
    · intro x hx hx'
      simp only [wordSize] at *
      rw [hm₂ x (by omega), hp₁ x hx hx']
  · obtain ⟨mem₁, he₁, hw₁, hm₁, hs₁, hp₁⟩ := secWriteGuards_spec hy hm hylt
    obtain ⟨mem, he, hw, hm₂, hs₂, hp₂⟩ := secWriteGuards_spec (h := { h with mem := mem₁ }) hx hn hxlt
    have hout : ∀ x, x < w ∨ w + wordSize * (n + m) ≤ x → mem x = h.mem x := by
      intro x hx
      simp only [wordSize] at *
      rw [hm₂ x (by omega), hm₁ x (by omega)]
    refine ⟨mem₁, mem, he₁, he, hwalk mem hw ?_ hout, hout, hs₁.trans hs₂, ?_⟩
    · exact hw₁.congr (fun _ _ => rfl) fun x hx _ => hm₂ x (.inr hx)
    · intro x hx hx'
      rw [hp₂ x hx hx']
      simp only [wordSize] at *
      exact hm₁ x (by omega)

-- Giving back the metadata of the cell in neither ring.
theorem drop_spec (block : Block) (hb : wordSize ≤ block.words)
    (hw : Walk h.cells.geom h.mem block.words l block.last) (r : Rings h.cells block.unusedCells block.usedCells ℓ (some g))
    (hl : ∀ d, d ∈ l ↔ d ∈ ℓ.cells ∧ d ≠ g) (o : Owned host regions others h block ℓ)
    (hf : ∀ c ∈ ℓ.used, ∀ w n r tag, h.cells.geom c = some (w, n) →
      h.cells.use c = some (r, tag) → r ≤ (n - 2) * wordSize) :
    ∃ h', poolFree g h = some h' ∧ h'.mem = h.mem ∧ h'.cells = Function.update h.cells g none ∧
      Shape h' block { ℓ with cells := l } none ∧
      Owned host regions others h' block { ℓ with cells := l } := by
  have hg := (r.loose g rfl).left
  obtain ⟨h', he, hm, hc, hi⟩ := poolFree_spec _ o.heap (List.mem_append_left _ hg)
  have hframe : ∀ d, d ≠ g → h'.cells d = h.cells d := by
    intro d hd
    rw [hc, Function.update_of_ne hd]
  refine ⟨h', he, hm, hc, ⟨hb, ?_, ?_, ?_⟩, ?_, o.region, ?_⟩
  · rw [hm]
    refine hw.congr (fun d hd => ?_) fun _ _ _ => rfl
    simp only [Cells.geom, hframe d ((hl d).mp hd).right]
  · have hne : ∀ d, some g ≠ some d → d ≠ g := fun d hd he => hd (he ▸ rfl)
    refine r.congr ?_ ?_ ?_ ?_ (by simp)
    · intro d _ hd
      simp only [Cells.next, hframe d (hne d hd)]
    · intro d _ hd
      simp only [Cells.prev, hframe d (hne d hd)]
    · intro d _ hd
      simp only [Cells.use, hframe d (hne d hd)]
    · intro d
      simp [hl, eq_comm]
  · intro d hd w n r' tag hg' hu
    have hdg : d ≠ g := fun he => r.out_not_used (he ▸ hd)
    simp only [Cells.geom, Cells.use, hframe d hdg] at hg' hu
    exact hf d hd w n r' tag hg' hu
  · refine hi.perm ?_
    have hd := o.heap.nodup
    have hd' := List.nodup_append.mp hd
    refine (List.perm_ext_iff_of_nodup (hd.erase g) ?_).mpr fun d => ?_
    · refine List.nodup_append.mpr ⟨hw.nodup, hd'.right.left, fun b hb c hc => ?_⟩
      exact hd'.right.right b ((hl b).mp hb).left c hc
    · have hgo : g ∉ others := fun ho => hd'.right.right g hg g ho rfl
      rw [hd.mem_erase_iff, List.mem_append, List.mem_append, hl]
      constructor
      · rintro ⟨h₁, h₂ | h₂⟩
        · exact .inl ⟨h₂, h₁⟩
        · exact .inr h₂
      · rintro (⟨h₁, h₂⟩ | h₁)
        · exact ⟨h₂, .inl h₁⟩
        · exact ⟨fun he => hgo (he ▸ h₁), .inr h₁⟩
  · intro d hd ho
    by_cases hdg : d = g
    case pos => simp [hdg, hc]
    case neg =>
      rw [hframe d hdg]
      exact o.dead d (fun hd' => hd ((hl d).mpr ⟨hd', hdg⟩)) ho

-- An operation that only writes guards or zeros between two addresses of a block.
theorem Step.of_range (hb : SameRegion block block') (hw : block.words ≤ a) (he : e ≤ block.last)
    (hm : ∀ x, x < a ∨ e ≤ x → h'.mem x = h.mem x) (hs : Scrubbed h.mem h'.mem)
    (ho : ∀ d ∈ others, h'.cells d = h.cells d)
    (hk : ∀ d ∈ keep, h'.cells.geom d = h.cells.geom d ∧ h'.cells.use d = h.cells.use d ∧
      ∀ w n, h.cells.geom d = some (w, n) → w + wordSize * n ≤ a ∨ e ≤ w) :
    Step regions others keep h block h' block' where
  frame    := ⟨ho, fun _ _ x _ hx => hm x (by omega)⟩
  region   := hb
  kept     := by
    intro d hd
    obtain ⟨h₁, h₂, h₃⟩ := hk d hd
    refine ⟨h₁, h₂, fun w n hg x hx hx' => hm x ?_⟩
    have := h₃ w n hg
    omega
  scrubbed := .of_mem hs

theorem ne_neighbors (hnd : (l₁ ++ x :: y :: l₂).Nodup) :
    x ≠ y ∧ ∀ d ∈ l₁ ++ l₂, d ≠ x ∧ d ≠ y := by
  rw [List.nodup_middle, List.nodup_cons, List.nodup_middle, List.nodup_cons] at hnd
  refine ⟨fun he => hnd.left (by simp [he]), fun d hd => ⟨fun he => hnd.left ?_, ?_⟩⟩
  · rw [← he, List.perm_middle.mem_iff]
    exact List.mem_cons_of_mem _ hd
  · exact fun he => hnd.right.left (he ▸ hd)

-- Two neighbors become one. The metadata of `k` is kept and that of `g`, which is in neither ring
-- by now, given back.
theorem merge_spec (block : Block) (ℓ : Layout) {cells : Cells} {block₀ : Block} {ℓ₀ : Layout} {v : Nat} {out : Option Nat}
    (s : Shape h block₀ ℓ₀ out) (o : Owned host regions others h block₀ ℓ₀)
    (hb : SameRegion block₀ block) (hℓ : ℓ.cells = ℓ₀.cells) (hℓu : ℓ.used = ℓ₀.used)
    (hl : ℓ₀.cells = l₁ ++ x :: y :: l₂) (hx : h.cells.geom x = some (w, n))
    (hy : h.cells.geom y = some (v, m)) (hkg : k = x ∧ g = y ∨ k = y ∧ g = x)
    (r : Rings cells block.unusedCells block.usedCells ℓ (some g))
    (hgeom : cells.geom = Function.update h.cells.geom k (some (w, n + m)))
    (huse : cells.use = h.cells.use) (hframe : ∀ d ∉ ℓ.cells, cells d = h.cells d) :
    ∃ h₁ h', secWriteGuards k { h with cells } = some h₁ ∧ poolFree g h₁ = some h' ∧
      Shape h' block { ℓ with cells := l₁ ++ k :: l₂ } none ∧
      Owned host regions others h' block { ℓ with cells := l₁ ++ k :: l₂ } ∧
      (∀ keep, (∀ d ∈ keep, d ∈ ℓ.cells ∧ d ≠ k ∧ d ≠ g) →
        Step regions others keep h block₀ h' block) ∧
      h'.cells.geom k = some (w, n + m) ∧ h'.cells.use k = h.cells.use k ∧
      ∀ x, w + wordSize ≤ x → x < w + wordSize * (n + m - 1) → h'.mem x = h.mem x := by
  have hw := s.walk
  rw [hl] at hw
  obtain ⟨w', n', m', hx', hy', hn, hm, h₁, h₂⟩ := hw.neighbors
  cases hx.symm.trans hx'
  cases hy.symm.trans hy'
  have hmem : ∀ d, d ∈ ℓ.cells ↔ d ∈ l₁ ++ l₂ ∨ d = x ∨ d = y := by
    intro d
    rw [hℓ, hl]
    simp only [List.mem_append, List.mem_cons]
    tauto
  obtain ⟨hne, hxy⟩ := ne_neighbors (hl ▸ s.nodup)
  have hrest : ∀ d ∈ l₁ ++ l₂, d ≠ k ∧ d ≠ g := by
    rcases hkg with ⟨rfl, rfl⟩ | ⟨rfl, rfl⟩
    · exact hxy
    · exact fun d hd => (hxy d hd).symm
  have hkg' : k ≠ g := by
    rcases hkg with ⟨rfl, rfl⟩ | ⟨rfl, rfl⟩
    · exact hne
    · exact hne.symm
  have hcells : ∀ d, d ∈ ℓ.cells ↔ d ∈ l₁ ++ l₂ ∨ d = k ∨ d = g := by
    intro d
    rw [hmem]
    rcases hkg with ⟨rfl, rfl⟩ | ⟨rfl, rfl⟩
    · rfl
    · rw [or_comm (a := d = k)]
  have hgeom' : ∀ d, d ≠ k → cells.geom d = h.cells.geom d := by
    intro d hd
    rw [hgeom, Function.update_of_ne hd]
  have hgk : cells.geom k = some (w, n + m) := by
    rw [hgeom, Function.update_self]
  obtain ⟨mem, he, hw, hout, hs, hp⟩ := join_spec (h := { h with cells }) (k := k) h₁ h₂
    (fun d hd => hgeom' d (hrest d hd).left) hgk (by omega)
    (o.item_lt (hℓ ▸ (hcells k).mpr (.inr (.inl rfl))))
  have o₁ : Owned host regions others { h with cells, mem } block ℓ :=
    o.congr rfl rfl hℓ hb fun d hd => hframe d (hℓ ▸ hd)
  have hl' : ∀ d, d ∈ l₁ ++ k :: l₂ ↔ d ∈ ℓ.cells ∧ d ≠ g := by
    intro d
    rw [hcells, List.perm_middle.mem_iff, List.mem_cons]
    constructor
    · rintro (rfl | hd)
      · exact ⟨.inr (.inl rfl), hkg'⟩
      · exact ⟨.inl hd, (hrest d hd).right⟩
    · rintro ⟨hd | rfl | rfl, hdg⟩
      · exact .inr hd
      · exact .inl rfl
      · exact absurd rfl hdg
  have hfits : ∀ c ∈ ℓ.used, ∀ w n r tag, cells.geom c = some (w, n) →
      cells.use c = some (r, tag) → r ≤ (n - 2) * wordSize := by
    intro c hc w₁ n₁ r₁ tag hg hu
    rw [huse] at hu
    rw [hℓu] at hc
    by_cases hck : c = k
    case neg => exact s.fits c hc w₁ n₁ r₁ tag (hgeom' c hck ▸ hg) hu
    case pos =>
      subst hck
      cases hgk.symm.trans hg
      rcases hkg with ⟨rfl, -⟩ | ⟨rfl, -⟩
      · have := s.fits _ hc _ _ r₁ tag hx hu
        simp only [wordSize] at *
        omega
      · have := s.fits _ hc _ _ r₁ tag hy hu
        simp only [wordSize] at *
        omega
  obtain ⟨h', hfree, hm', hc', s', o'⟩ := drop_spec (h := { h with cells, mem }) block
    (by rw [hb.words]; exact s.base) (by rw [hb.words, hb.last]; exact hw) r hl' o₁ hfits
  have hframe' : ∀ d, d ≠ g → h'.cells d = cells d := by
    intro d hd
    rw [hc', Function.update_of_ne hd]
  refine ⟨_, h', he, hfree, s', o', ?_, ?_, ?_, ?_⟩
  · intro keep hk
    refine .of_range hb h₁.le h₂.le (hm' ▸ hout) (hm' ▸ hs) ?_ ?_
    · intro d hd
      have hd' := o.others_not_mem hd
      have hdg : d ≠ g := fun he => hd' (hℓ ▸ (hcells d).mpr (.inr (.inr he)))
      exact (hframe' d hdg).trans (hframe d (hℓ ▸ hd'))
    · intro d hd
      obtain ⟨hdc, hdk, hdg⟩ := hk d hd
      simp only [Cells.geom, Cells.use, hframe' d hdg]
      refine ⟨hgeom' d hdk, congrFun huse d, fun w' n' hg => ?_⟩
      refine Walk.outside h₁ h₂ (((hcells d).mp hdc).resolve_right ?_) hg
      rintro (rfl | rfl)
      · exact hdk rfl
      · exact hdg rfl
  · simpa only [Cells.geom, hframe' k hkg'] using hgk
  · simpa only [Cells.use, hframe' k hkg'] using congrFun huse k
  · intro x hx hx'
    rw [hm']
    exact hp x hx hx'

end SecureMemory
