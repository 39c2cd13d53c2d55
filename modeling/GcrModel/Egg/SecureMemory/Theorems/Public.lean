import GcrModel.Egg.SecureMemory.Theorems.Destroy

-- The public functions for a client that has the allocations in `live`.
namespace SecureMemory

variable {host : Host} {h h' : Heap} {s s' : State} {p : Block × Layout}
  {ps qs parts : List (Block × Layout)} {fallback live live' : List (Nat × Nat)} {a : Nat × Nat}
  {length memory : Nat} {tag : String} {flags : Bool}

-- The blocks and the fallback memory hold exactly the live allocations.
def Inv (host : Host) (s : State) (live : List (Nat × Nat)) : Prop :=
  ∃ parts fallback, s.blocks = parts.map Prod.fst ∧ StateInv host s.heap parts fallback ∧
    live.Perm (allocs s.heap parts ++ fallback)

theorem Inv.perm (i : Inv host s live) (hl : live.Perm live') : Inv host s live' :=
  have ⟨parts, fallback, hb, i, hp⟩ := i
  ⟨parts, fallback, hb, i, hl.symm.trans hp⟩

theorem Inv.apart (i : Inv host s live) : live.Pairwise Apart := by
  obtain ⟨parts, fallback, -, i, hp⟩ := i
  exact (hp.pairwise_iff Apart.symm).mpr i.allocs_apart

theorem Inv.apart_erase {b : Nat × Nat} (i : Inv host s live) (ha : a ∈ live)
    (hb : b ∈ live.erase a) : Apart a b :=
  (List.pairwise_cons.mp (((List.perm_cons_erase ha).pairwise_iff Apart.symm).mp i.apart)).left b hb

theorem Inv.write (mem : Memory Byte) (i : Inv host s live) (ha : a ∈ live)
    (hm : ∀ x, x ∉ Memory.range a.1 a.2 → mem x = s.heap.mem x) :
    Inv host { s with heap := { s.heap with mem } } live ∧
      ∀ b ∈ live.erase a, Preserves s.heap { s.heap with mem } b := by
  constructor
  · obtain ⟨parts, fallback, hb, i, hp⟩ := i
    exact ⟨parts, fallback, hb, i.write mem (hp.mem_iff.mp ha) hm, hp⟩
  · intro b hb x hx
    have := i.apart_erase ha hb
    refine hm x ?_
    simp only [Apart, Memory.mem_range] at *
    omega

theorem allocFromBlocks_spec (tag : String) (ps : List (Block × Layout)) (i : StateInv host h (ps ++ qs) fallback) (hl : length ≠ 0) :
    ∃ m h' qs', allocFromBlocks host tag length (qs.map Prod.fst) h =
        some (m, qs'.map Prod.fst, h') ∧ StateInv host h' (ps ++ qs') fallback ∧
      (allocs h' (ps ++ qs')).Perm (returned length m ++ allocs h (ps ++ qs)) ∧
      (∀ a ∈ allocs h (ps ++ qs) ++ fallback, Preserves h h' a) ∧ Zeroed h' length m := by
  induction qs generalizing ps h with
  | nil => exact ⟨none, h, [], rfl, i, .refl _, fun _ _ => .refl, .none⟩
  | cons p qs ih =>
    obtain ⟨m, block', h₁, ℓ', he, b', o', f, r, hcl, hperm, hpres, hz⟩ :=
      secAlloc_client tag (i.blocks p (by simp)) i.owned (i.clean p (by simp)) hl
    have i₁ := i.update b' o' f r hcl
    have hperm₁ : (allocs h₁ (ps ++ (block', ℓ') :: qs)).Perm
        (returned length m ++ allocs h (ps ++ p :: qs)) := by
      refine (i.update_allocs f).trans ((hperm.append_right _).trans ?_)
      rw [List.append_assoc]
      exact allocs_perm.symm.append_left _
    have hpres₁ : ∀ a ∈ allocs h (ps ++ p :: qs) ++ fallback, Preserves h h₁ a :=
      fun a ha => i.update_preserves f ha (hpres a)
    simp only [allocFromBlocks, List.map_cons, he, Option.bind_eq_bind, Option.bind_some]
    cases m with
    | some m => exact ⟨some m, h₁, (block', ℓ') :: qs, rfl, i₁, hperm₁, hpres₁, hz⟩
    | none =>
      rw [List.append_cons] at i₁
      obtain ⟨m, h', qs', he', i', hperm', hpres', hz'⟩ := ih _ i₁
      refine ⟨m, h', (block', ℓ') :: qs', by simp [he'], by rwa [List.append_cons], ?_, ?_, hz'⟩
      · rw [List.append_cons]
        refine hperm'.trans (.append_left _ ?_)
        rw [← List.append_cons]
        exact hperm₁
      · intro a ha
        refine (hpres₁ a ha).trans (hpres' a ?_)
        rw [← List.append_cons]
        rcases List.mem_append.mp ha with ha | ha
        · exact List.mem_append_left _ (hperm₁.mem_iff.mpr ha)
        · exact List.mem_append_right _ ha

theorem secureAlloc_spec (tag : String) (i : StateInv host h parts fallback) (hl : length ≠ 0)
    (hs : ¬insane length) :
    ∃ m h' parts', secureAlloc host tag length ⟨h, parts.map Prod.fst⟩ =
        some (m, ⟨h', parts'.map Prod.fst⟩) ∧ StateInv host h' parts' fallback ∧
      (allocs h' parts').Perm (returned length m ++ allocs h parts) ∧
      (∀ a ∈ allocs h parts ++ fallback, Preserves h h' a) ∧ Zeroed h' length m := by
  obtain ⟨m, h₁, parts₁, he₁, i₁, hperm₁, hpres₁, hz₁⟩ :=
    allocFromBlocks_spec tag [] i hl
  rw [List.nil_append] at i₁ hperm₁ hpres₁
  simp only [secureAlloc, he₁, Option.bind_eq_bind, Option.bind_some]
  cases m with
  | some m => exact ⟨some m, h₁, parts₁, rfl, i₁, hperm₁, hpres₁, hz₁⟩
  | none =>
    obtain ⟨r, h₂, hcases, u⟩ := secBlockCreate_spec i₁ hs
    have hpres₂ : ∀ a ∈ allocs h parts ++ fallback, Preserves h h₂ a := by
      intro a ha
      refine (hpres₁ a ha).trans (u.preserves i₁ ?_)
      rwa [List.mem_append, hperm₁.mem_iff, ← List.mem_append]
    rcases hcases with ⟨rfl, he₂, i₂⟩ | ⟨p, rfl, he₂, i₂, hu⟩
    · refine ⟨none, h₂, parts₁, by simp [he₂], i₂, ?_, hpres₂, .none⟩
      rw [u.payloads]
      exact hperm₁
    · have i₂ : StateInv host h₂ ([] ++ p :: parts₁) fallback := i₂
      obtain ⟨m, block', h₃, ℓ', he, b', o', f, r, hcl, hperm, hpres, hz⟩ :=
        secAlloc_client tag (i₂.blocks p (by simp)) i₂.owned (i₂.clean p (by simp)) hl
      have i₃ := i₂.update b' o' f r hcl
      refine ⟨m, h₃, (block', ℓ') :: parts₁, by simp [he₂, he], i₃, ?_, ?_, hz⟩
      · have hp : p.2.allocs h₂ = [] := by simp [Layout.allocs, hu]
        rw [hp, List.append_nil] at hperm
        refine (i₂.update_allocs f).trans (hperm.append ?_)
        rw [List.nil_append, u.payloads]
        exact hperm₁
      · intro a ha
        refine (hpres₂ a ha).trans (i₂.update_preserves f ?_ (hpres a))
        rw [List.nil_append, allocs, List.flatMap_cons, ← allocs, u.payloads, List.append_assoc]
        refine List.mem_append_right _ ?_
        rwa [List.mem_append, hperm₁.mem_iff, ← List.mem_append]

-- `egg_secure_alloc_full` returns NULL or a new zeroed allocation, in a block or not.
theorem eggSecureAllocFull_state (tag : Option String) (length : Nat) (flags : Bool)
    (i : StateInv host h parts fallback) :
    ∃ m h' parts' fallback', eggSecureAllocFull host tag length flags ⟨h, parts.map Prod.fst⟩ =
        some (m, ⟨h', parts'.map Prod.fst⟩) ∧ StateInv host h' parts' fallback' ∧
      (allocs h' parts' ++ fallback').Perm (returned length m ++ (allocs h parts ++ fallback)) ∧
      (∀ a ∈ allocs h parts, a ∈ allocs h' parts') ∧
      (∀ a ∈ allocs h parts ++ fallback, Preserves h h' a) ∧ Zeroed h' length m := by
  unfold eggSecureAllocFull
  by_cases hs : insane length
  case pos =>
    simp only [hs, if_true]
    exact ⟨none, h, parts, fallback, rfl, i, .refl _, fun _ ha => ha, fun _ _ => .refl, .none⟩
  by_cases hl : length = 0
  case pos =>
    simp only [hl, if_true, ite_self]
    exact ⟨none, h, parts, fallback, rfl, i, .refl _, fun _ ha => ha, fun _ _ => .refl, .none⟩
  obtain ⟨m, h₁, parts₁, he₁, i₁, hperm₁, hpres₁, hz₁⟩ :=
    secureAlloc_spec (tag.getD "?") i hl hs
  have hmem₁ : ∀ a ∈ allocs h parts, a ∈ allocs h₁ parts₁ :=
    fun a ha => hperm₁.mem_iff.mpr (List.mem_append_right _ ha)
  have hperm₁' := hperm₁.append_right fallback
  rw [List.append_assoc] at hperm₁'
  simp only [hs, hl, if_false, he₁, Option.bind_eq_bind, Option.bind_some]
  cases m with
  | some m => exact ⟨some m, h₁, parts₁, fallback, rfl, i₁, hperm₁', hmem₁, hpres₁, hz₁⟩
  | none =>
    by_cases hf : flags ∧ host.fallback
    case neg =>
      simp only [hf, if_false]
      exact ⟨none, h₁, parts₁, fallback, rfl, i₁, hperm₁', hmem₁, hpres₁, .none⟩
    case pos =>
      simp only [hf, and_self, if_true]
      obtain ⟨m, h₂, he₂, hm₂, hc₂, i₂, hapart⟩ := fallbackAlloc_spec i₁ hf.right length
      have hsame : allocs h₂ parts₁ = allocs h₁ parts₁ := by simp only [allocs, Layout.allocs, hc₂]
      have hperm₂ : (allocs h₂ parts₁ ++ (returned length m ++ fallback)).Perm
          (returned length m ++ (allocs h parts ++ fallback)) := by
        refine .trans ?_ (hperm₁'.append_left _)
        rw [hsame, ← List.append_assoc, ← List.append_assoc]
        exact List.perm_append_comm.append_right _
      simp only [he₂]
      cases m with
      | none =>
        refine ⟨none, h₂, parts₁, _, rfl, i₂, hperm₂, hsame ▸ hmem₁, fun a ha x hx => ?_, .none⟩
        rw [hm₂]
        exact hpres₁ a ha x hx
      | some p =>
        have hnew : (p, length) ∈ allocs h₂ parts₁ ++ (returned length (some p) ++ fallback) :=
          hperm₂.mem_iff.mpr (List.mem_cons_self ..)
        have i₃ := i₂.write (h₂.mem.fill p length .zero) hnew fun x hx => Memory.fill_frame hx
        refine ⟨some p, _, parts₁, _, rfl, i₃, hperm₂, hsame ▸ hmem₁, fun a ha x hx => ?_, ?_⟩
        · refine (Memory.fill_frame fun hxp => ?_).trans (hm₂ ▸ hpres₁ a ha x hx)
          have hapart := (hperm₂.pairwise_iff Apart.symm).mp i₂.allocs_apart
          have := (List.pairwise_cons.mp hapart).left a ha
          simp only [Apart, Memory.mem_range] at *
          omega
        · rintro _ ⟨⟩ x hx
          exact Memory.fill_eq hx

theorem eggSecureAllocFull_spec (tag : Option String) (length : Nat) (flags : Bool) (i : Inv host s live) :
    ∃ m s', eggSecureAllocFull host tag length flags s = some (m, s') ∧
      Inv host s' (returned length m ++ live) ∧ (∀ a ∈ live, Preserves s.heap s'.heap a) ∧
      Zeroed s'.heap length m := by
  obtain ⟨parts, fallback, hb, i, hp⟩ := i
  obtain ⟨h, blocks⟩ := s
  subst hb
  obtain ⟨m, h', parts', fallback', he, i', hperm, -, hpres, hz⟩ :=
    eggSecureAllocFull_state tag length flags i
  exact ⟨m, _, he, ⟨parts', fallback', rfl, i', (hp.append_left _).trans hperm.symm⟩,
    fun a ha => hpres a (hp.mem_iff.mp ha), hz⟩

-- The block of an allocation is found by the address of the payload.
theorem findBlock_alloc (i : StateInv host h parts fallback) (ha : a ∈ allocs h parts) :
    ∃ ps p qs, parts = ps ++ p :: qs ∧ a ∈ p.2.allocs h ∧
      findBlock a.1 (parts.map Prod.fst) = some p.1 := by
  obtain ⟨p, hp, ha⟩ := List.mem_flatMap.mp ha
  obtain ⟨ps, qs, hs⟩ := List.append_of_mem hp
  refine ⟨ps, p, qs, hs, ha, ?_⟩
  obtain ⟨h₁, h₂, h₃⟩ := (i.blocks p hp).toShape.alloc_mem ha
  subst hs
  have hno : (ps.map Prod.fst).find? (fun block => secIsValidWord block a.1) = none := by
    refine List.find?_eq_none.mpr fun block hb => ?_
    obtain ⟨q, hq, rfl⟩ := List.mem_map.mp hb
    have := i.apart (List.mem_append_left qs hq)
    rw [decide_eq_true_eq]
    simp only [Apart, regionOf, secIsValidWord, Block.last, wordSize] at *
    omega
  have hyes : secIsValidWord p.1 a.1 := by
    simp only [secIsValidWord, wordSize] at *
    omega
  rw [findBlock, List.map_append, List.find?_append, hno, List.map_cons,
    List.find?_cons_of_pos (by simpa using hyes)]
  rfl

theorem findBlock_fallback (i : StateInv host h parts fallback) (ha : a ∈ fallback) :
    findBlock a.1 (parts.map Prod.fst) = none := by
  refine List.find?_eq_none.mpr fun block hb => ?_
  obtain ⟨q, hq, rfl⟩ := List.mem_map.mp hb
  have := i.apart_fallback hq ha
  have := i.heap.region_bounds (List.mem_append_right _ ha)
  rw [decide_eq_true_eq]
  simp only [Apart, regionOf, secIsValidWord, Block.last] at *
  omega

theorem putBlock_eq (i : StateInv host h (ps ++ p :: qs) fallback) (block : Block) (ℓ : Layout) :
    putBlock p.1 block ((ps ++ p :: qs).map Prod.fst) = (ps ++ (block, ℓ) :: qs).map Prod.fst := by
  have hne : ∀ q ∈ ps ++ qs, (if q.1 = p.1 then block else q.1) = q.1 :=
    fun q hq => if_neg (i.block_ne hq)
  simp only [putBlock, List.map_append, List.map_cons, List.map_map, if_true]
  congr 1
  · exact List.map_congr_left fun q hq => hne q (List.mem_append_left _ hq)
  · congr 1
    exact List.map_congr_left fun q hq => hne q (List.mem_append_right _ hq)

-- A block is destroyed when its last allocation is gone.
theorem destroy_unused (i : StateInv host h (ps ++ p :: qs) fallback) :
    ∃ h' parts', (if p.1.nUsed = 0 then secBlockDestroy host p.1 ⟨h, (ps ++ p :: qs).map Prod.fst⟩
        else some ⟨h, (ps ++ p :: qs).map Prod.fst⟩) = some ⟨h', parts'.map Prod.fst⟩ ∧
      StateInv host h' parts' fallback ∧ h'.mem = h.mem ∧
      allocs h' parts' = allocs h (ps ++ p :: qs) := by
  by_cases hn : p.1.nUsed = 0
  case pos =>
    obtain ⟨h', he, i', hm, hall⟩ := secBlockDestroy_spec i hn
    exact ⟨h', ps ++ qs, by rw [if_pos hn, he], i', hm, hall⟩
  case neg => exact ⟨h, ps ++ p :: qs, if_neg hn, i, rfl, rfl⟩

-- `egg_secure_free_full` frees a live allocation. Fallback memory needs the flag.
theorem eggSecureFreeFull_spec (flags : Bool) (i : Inv host s live) (ha : a ∈ live)
    (hflags : findBlock a.1 s.blocks = none → flags) :
    ∃ s', eggSecureFreeFull host a.1 flags s = some s' ∧ Inv host s' (live.erase a) ∧
      ∀ b ∈ live.erase a, Preserves s.heap s'.heap b := by
  obtain ⟨parts, fallback, hb, i, hp⟩ := i
  obtain ⟨h, blocks⟩ := s
  subst hb
  have hpos := i.alloc_pos (hp.mem_iff.mp ha)
  unfold eggSecureFreeFull
  simp only [hpos, if_false]
  rcases List.mem_append.mp (hp.mem_iff.mp ha) with ha' | ha'
  · obtain ⟨ps, p, qs, rfl, hap, hfind⟩ := findBlock_alloc i ha'
    obtain ⟨block', h₁, ℓ', he, b', o', f, r, hcl, hperm, hpres⟩ :=
      secFree_client (i.blocks p (by simp)) i.owned (i.clean p (by simp)) hap
    have i₁ := i.update b' o' f r hcl
    obtain ⟨h₂, parts₂, he₂, i₂, hm₂, hall₂⟩ := destroy_unused i₁
    simp only [hfind, he, Option.bind_eq_bind, Option.bind_some, putBlock_eq i block' ℓ', he₂]
    have hrest : (live.erase a).Perm (ℓ'.allocs h₁ ++ allocs h (ps ++ qs) ++ fallback) := by
      have hsplit := (allocs_perm (h := h) (p := p)).trans (hperm.symm.append_right (allocs h (ps ++ qs)))
      have := (hp.trans (hsplit.append_right fallback)).erase a
      rwa [List.cons_append, List.cons_append, List.erase_cons_head] at this
    refine ⟨_, rfl, ⟨parts₂, fallback, rfl, i₂, ?_⟩, fun b hb x hx => ?_⟩
    · rw [hall₂]
      exact hrest.trans ((i.update_allocs f).symm.append_right _)
    · rw [hm₂]
      have hb := hrest.mem_iff.mp hb
      rw [List.append_assoc, List.mem_append] at hb
      rcases hb with hb | hb
      · exact hpres b hb x hx
      · exact (i.allocs_frame f).right b hb x hx
  · simp only [findBlock_fallback i ha', hflags (findBlock_fallback i ha'), guard,
      i.spare (List.ne_nil_of_mem ha'), and_self, if_true, Option.pure_def, Option.bind_eq_bind,
      Option.bind_some]
    obtain ⟨hm, hc, i'⟩ := fallbackFree_spec i ha'
    refine ⟨_, rfl, ⟨parts, _, rfl, i', ?_⟩, fun b hb x hx => by simp only [hm]⟩
    have hsame : allocs (fallbackFree a.1 h) parts = allocs h parts := by
      simp only [allocs, Layout.allocs, hc]
    have hperm := (hp.trans ((List.perm_cons_erase ha').append_left _)).trans List.perm_middle
    rw [hsame]
    have := hperm.erase a
    rwa [List.erase_cons_head] at this

-- Whether `sec_realloc` finds the cell of an allocation large enough already.
def fitsCell (memory length : Nat) (s : State) : Prop :=
  match (findBlock memory s.blocks).bind fun block => secLookup block memory s.heap with
  | some (_, cell) => secSizeToWords length + 2 ≤ cell.nWords
  | none           => False

instance (memory length : Nat) (s : State) : Decidable (fitsCell memory length s) := by
  unfold fitsCell
  split <;> infer_instance

-- What a successful `egg_secure_realloc_full` does to the contents of the allocation `a`, which is
-- now at `p`. Nothing is said of what is behind the contents of fallback memory.
structure Resized (s s' : State) (a : Nat × Nat) (length p : Nat) : Prop where
  old : ∀ i < min a.2 length, s'.heap.mem (p + i) = s.heap.mem (a.1 + i)
  new : findBlock a.1 s.blocks ≠ none → ∀ i, a.2 ≤ i → i < length →
    s'.heap.mem (p + i) = if fitsCell a.1 length s then s.heap.mem (a.1 + i) else .zero

theorem fallbackRealloc_spec (length : Nat) (i : StateInv host h parts fallback) (ha : a ∈ fallback) :
    ∃ m h', fallbackRealloc a.1 length h = (m, h') ∧
      Inv host ⟨h', parts.map Prod.fst⟩
        (m.elim (allocs h parts ++ fallback) fun p => (p, length) :: (allocs h parts ++ fallback).erase a) ∧
      (∀ b ∈ (allocs h parts ++ fallback).erase a, Preserves h h' b) ∧
      (m = none → Preserves h h' a) ∧
      ∀ p, m = some p → ∀ i < min a.2 length, h'.mem (p + i) = h.mem (a.1 + i) := by
  obtain ⟨m, h₁, he₁, hm₁, hc₁, i₁, hapart⟩ :=
    fallbackAlloc_spec i (i.spare (List.ne_nil_of_mem ha)) length
  have hsame : allocs h₁ parts = allocs h parts := by simp only [allocs, Layout.allocs, hc₁]
  unfold fallbackRealloc
  simp only [he₁]
  cases m with
  | none =>
    refine ⟨none, h₁, rfl, ⟨parts, fallback, rfl, i₁, by rw [hsame]; exact .refl _⟩, fun b _ x _ => ?_,
      fun _ x _ => ?_, by simp⟩
    · rw [hm₁]
    · rw [hm₁]
  | some p =>
    have ha₁ : a ∈ returned length (some p) ++ fallback := List.mem_append_right _ ha
    simp only [find_fallback i₁ ha₁]
    let h₂ : Heap := { h₁ with mem := h₁.mem.copy p a.1 (min a.2 length) }
    have hrange : ∀ x, x ∉ Memory.range p length → h₂.mem x = h₁.mem x := by
      intro x hx
      refine Memory.copy_frame fun hx' => hx ?_
      simp only [Memory.mem_range] at *
      omega
    have i₂ : StateInv host h₂ parts (returned length (some p) ++ fallback) :=
      i₁.write (a := (p, length)) _ (by simp [returned]) hrange
    obtain ⟨hm₃, hc₃, i₃⟩ := fallbackFree_spec i₂ ha₁
    have hne : (p, length) ≠ a := by
      rintro rfl
      have := hapart p rfl _ (List.mem_append_right _ ha)
      have := i.heap.region_bounds (List.mem_append_right _ ha)
      simp only [Apart] at *
      omega
    have hsame₃ : allocs (fallbackFree a.1 h₂) parts = allocs h parts := by
      rw [← hsame]
      simp only [allocs, Layout.allocs, hc₃, h₂]
    have hfree : ∀ b ∈ allocs h parts ++ fallback, Apart (p, length) b := by
      have hap := i₁.allocs_apart
      rw [hsame, (List.perm_append_comm_assoc ..).pairwise_iff Apart.symm] at hap
      exact fun b hb => (List.pairwise_cons.mp hap).left b hb
    refine ⟨some p, _, rfl, ⟨parts, _, rfl, i₃, ?_⟩, fun b hb x hx => ?_, by simp, ?_⟩
    · have herase : ((allocs h parts ++ fallback).erase a).Perm (allocs h parts ++ fallback.erase a) := by
        have hp := (((List.perm_cons_erase ha).append_left (allocs h parts)).trans
          List.perm_middle).erase a
        rwa [List.erase_cons_head] at hp
      have hfirst : (returned length (some p) ++ fallback).erase a =
          (p, length) :: fallback.erase a := List.erase_cons_tail (by simpa using hne)
      rw [hfirst, show allocs _ parts = _ from hsame₃]
      exact (herase.cons _).trans List.perm_middle.symm
    · rw [hm₃, hrange, hm₁]
      have := hfree b (List.mem_of_mem_erase hb)
      simp only [Apart, Memory.mem_range] at *
      omega
    · rintro _ ⟨⟩ i hi
      rw [hm₃, ← hm₁]
      exact Memory.copy_eq hi

-- Resizing within the blocks.
theorem secureRealloc_spec (tag : String) (i : StateInv host h parts fallback) (ha : a ∈ allocs h parts)
    (hl : 0 < length) :
    ∃ block m h' parts' , findBlock a.1 (parts.map Prod.fst) = some block ∧
      secureRealloc host tag block a.1 length ⟨h, parts.map Prod.fst⟩ =
        some (m, a.2, ⟨h', parts'.map Prod.fst⟩) ∧ StateInv host h' parts' fallback ∧
      (∀ b ∈ (allocs h parts ++ fallback).erase a, Preserves h h' b) ∧
      (m = none → (¬fitsCell a.1 length ⟨h, parts.map Prod.fst⟩ ∧ a.2 ≤ length) ∧
        (allocs h' parts').Perm (allocs h parts) ∧ Preserves h h' a) ∧
      ∀ p, m = some p → (allocs h' parts').Perm ((p, length) :: (allocs h parts).erase a) ∧
        Resized ⟨h, parts.map Prod.fst⟩ ⟨h', parts'.map Prod.fst⟩ a length p := by
  obtain ⟨ps, q, qs, rfl, haq, hfind⟩ := findBlock_alloc i ha
  obtain ⟨m, block', h₁, ℓ', c, cell, he, b', o', f, r, hcl, hlook, hpos, htag, hreq, hpres, hnone, hsome⟩ :=
    secRealloc_client tag (i.blocks q (by simp)) i.owned (i.clean q (by simp)) haq hl
  have i₁ := i.update b' o' f r hcl
  obtain ⟨h₂, parts₂, he₂, i₂, hm₂, hall₂⟩ := destroy_unused i₁
  have hallocated : secAllocated q.1 a.1 h = some a.2 := by
    rw [← hreq]
    simp [secAllocated, hlook, guard, hpos, htag]
  have herase : ((allocs h (ps ++ q :: qs)).erase a).Perm
      ((q.2.allocs h).erase a ++ allocs h (ps ++ qs)) := by
    have : ((allocs h (ps ++ q :: qs)).erase a).Perm ((q.2.allocs h ++ allocs h (ps ++ qs)).erase a) :=
      allocs_perm.erase a
    rwa [List.erase_append_left _ haq] at this
  have hfits : fitsCell a.1 length ⟨h, (ps ++ q :: qs).map Prod.fst⟩ ↔
      secSizeToWords length + 2 ≤ cell.nWords := by
    simp only [fitsCell, hfind, hlook, Option.bind_some]
  refine ⟨q.1, m, h₂, parts₂, hfind, ?_, i₂, fun b hb x hx => ?_, fun hm => ?_, fun p hm => ⟨?_, ?_, ?_⟩⟩
  · simp only [secureRealloc, hallocated, he, putBlock_eq i block' ℓ', Option.bind_eq_bind,
      Option.bind_some]
    by_cases hn : block'.nUsed = 0
    case pos =>
      rw [if_pos hn] at he₂ ⊢
      simp only [he₂, Option.bind_some]
    case neg =>
      rw [if_neg hn] at he₂ ⊢
      rw [Option.some.inj he₂]
  · rw [hm₂]
    rw [List.erase_append_left _ ha, List.mem_append, herase.mem_iff, List.mem_append, or_assoc] at hb
    rcases hb with hb | hb
    · exact hpres b hb x hx
    · exact (i.allocs_frame f).right b (List.mem_append.mpr hb) x hx
  · obtain ⟨hle, hperm, hold⟩ := hnone hm
    refine ⟨⟨mt hfits.mp hle.left, hle.right⟩, ?_, fun x hx => by rw [hm₂, hold x hx]⟩
    rw [hall₂]
    exact (i.update_allocs f).trans ((hperm.append_right _).trans allocs_perm.symm)
  · rw [hall₂]
    refine (i.update_allocs f).trans (((hsome p hm).left.append_right _).trans ?_)
    exact herase.symm.cons _
  · intro j hj
    simp only [hm₂]
    exact (hsome p hm).right.left j hj
  · intro _ j hj hj'
    simp only [hm₂, hfits]
    exact (hsome p hm).right.right j hj hj'

-- `egg_secure_realloc_full` resizes a live allocation or leaves everything as it is.
theorem eggSecureReallocFull_spec (tag : Option String) (flags : Bool) (i : Inv host s live) (ha : a ∈ live)
    (hl : length ≠ 0) (hflags : findBlock a.1 s.blocks = none → flags) :
    ∃ m s', eggSecureReallocFull host tag a.1 length flags s = some (m, s') ∧
      Inv host s' (m.elim live fun p => (p, length) :: live.erase a) ∧
      (∀ b ∈ live.erase a, Preserves s.heap s'.heap b) ∧
      (m = none → Preserves s.heap s'.heap a ∧ (fitsCell a.1 length s → insane length)) ∧
      ∀ p, m = some p → Resized s s' a length p := by
  obtain ⟨parts, fallback, hb, i, hp⟩ := i
  obtain ⟨h, blocks⟩ := s
  subst hb
  unfold eggSecureReallocFull
  by_cases hs : insane length
  case pos =>
    simp only [hs, if_true]
    exact ⟨none, _, rfl, ⟨parts, fallback, rfl, i, hp⟩, fun _ _ => .refl, fun _ => ⟨.refl, fun _ => trivial⟩,
      by simp⟩
  simp only [hs, i.alloc_pos (hp.mem_iff.mp ha), hl, if_false]
  rcases List.mem_append.mp (hp.mem_iff.mp ha) with ha' | ha'
  · obtain ⟨block, m, h₁, parts₁, hfind, he₁, i₁, hpres₁, hnone₁, hsome₁⟩ :=
      secureRealloc_spec (tag.getD "?") i ha' (Nat.pos_of_ne_zero hl)
    simp only [hfind, he₁, Option.bind_eq_bind, Option.bind_some]
    have herase : (live.erase a).Perm ((allocs h parts).erase a ++ fallback) := by
      have := hp.erase a
      rwa [List.erase_append_left _ ha'] at this
    have hpres : ∀ b ∈ live.erase a, Preserves h h₁ b :=
      fun b hb => hpres₁ b ((hp.erase a).mem_iff.mp hb)
    cases m with
    | some p =>
      obtain ⟨hperm, hresized⟩ := hsome₁ p rfl
      refine ⟨some p, _, rfl, ⟨parts₁, fallback, rfl, i₁, ?_⟩, hpres, by simp, ?_⟩
      · exact (herase.cons _).trans (hperm.symm.append_right _)
      · rintro _ ⟨⟩
        exact hresized
    | none =>
      obtain ⟨⟨hfits, hle⟩, hperm₁, hold₁⟩ := hnone₁ rfl
      obtain ⟨m, h₂, parts₂, fallback₂, he₂, i₂, hperm₂, hmem₂, hpres₂, hz₂⟩ :=
        eggSecureAllocFull_state tag length flags i₁
      have hlive : (returned length m ++ live).Perm (allocs h₂ parts₂ ++ fallback₂) := by
        refine .trans (.append_left _ ?_) hperm₂.symm
        exact hp.trans (hperm₁.symm.append_right _)
      have hpres₂' : ∀ b ∈ live, Preserves h₁ h₂ b := by
        intro b hb
        refine hpres₂ b ?_
        rw [List.mem_append, hperm₁.mem_iff, ← List.mem_append]
        exact hp.mem_iff.mp hb
      simp only [he₂]
      cases m with
      | none =>
        exact ⟨none, _, rfl, ⟨parts₂, fallback₂, rfl, i₂, hlive⟩,
          fun b hb => (hpres b hb).trans (hpres₂' b (List.mem_of_mem_erase hb)),
          fun _ => ⟨hold₁.trans (hpres₂' a ha), fun hf => absurd hf hfits⟩, by simp⟩
      | some p =>
        -- The old allocation is copied to another block or to fallback memory, and freed.
        let h₃ : Heap := { h₂ with mem := h₂.mem.copy p a.1 a.2 }
        have hout : ∀ x, x ∉ Memory.range p a.2 → h₃.mem x = h₂.mem x :=
          fun x hx => Memory.copy_frame hx
        have i₃ : Inv host ⟨h₃, parts₂.map Prod.fst⟩ ((p, length) :: live) := by
          refine ⟨parts₂, fallback₂, rfl, i₂.write (a := (p, length)) _ (hlive.mem_iff.mp ?_) ?_, hlive⟩
          · exact List.mem_cons_self ..
          · intro x hx
            refine hout x fun hx' => hx ?_
            simp only [Memory.mem_range] at *
            omega
        have ha₂ : a ∈ allocs h₂ parts₂ := hmem₂ a (hperm₁.mem_iff.mpr ha')
        obtain ⟨-, q, -, -, -, hfind₂⟩ := findBlock_alloc i₂ ha₂
        have hfree : ∀ b ∈ live, Apart (p, length) b := (List.pairwise_cons.mp i₃.apart).left
        have hne : (p, length) ≠ a := by
          rintro rfl
          have := hfree _ ha
          simp only [Apart] at this
          omega
        obtain ⟨s₄, he₄, i₄, hpres₄⟩ := eggSecureFreeFull_spec flags i₃
          (List.mem_cons_of_mem _ ha) fun hnone => absurd (hnone.symm.trans hfind₂) (by simp)
        rw [List.erase_cons_tail (by simpa using hne)] at i₄ hpres₄
        have hpres₃ : ∀ b ∈ live, Preserves h₂ h₃ b := by
          intro b hb x hx
          have := hfree b hb
          refine hout x fun hx' => ?_
          simp only [Apart, Memory.mem_range] at *
          omega
        have hnew := hpres₄ _ (List.mem_cons_self ..)
        simp only [h₃] at he₄
        simp only [he₄, Option.bind_some]
        refine ⟨some p, s₄, rfl, i₄, fun b hb => ?_, by simp, ?_⟩
        · have hb' := List.mem_of_mem_erase hb
          refine (hpres b hb).trans ((hpres₂' b hb').trans ((hpres₃ b hb').trans ?_))
          exact hpres₄ b (List.mem_cons_of_mem _ hb)
        · rintro _ ⟨⟩
          refine ⟨fun j hj => ?_, fun _ j hj hj' => ?_⟩
          · rw [Nat.min_eq_left hle] at hj
            have hin : a.1 + j ∈ Memory.range a.1 a.2 := ⟨by omega, by omega⟩
            rw [hnew (p + j) ⟨by omega, by simp only; omega⟩]
            exact (Memory.copy_eq hj).trans ((hpres₂' a ha _ hin).trans (hold₁ _ hin))
          · rw [if_neg hfits, hnew (p + j) ⟨by omega, by simp only; omega⟩]
            refine (hout _ fun hx => ?_).trans (hz₂ p rfl _ ⟨by omega, by omega⟩)
            simp only [Memory.mem_range] at hx
            omega
  · simp only [findBlock_fallback i ha', hflags (findBlock_fallback i ha'), guard,
      i.spare (List.ne_nil_of_mem ha'), and_self, if_true, Option.pure_def, Option.bind_eq_bind,
      Option.bind_some]
    obtain ⟨m, h₁, he₁, i₁, hpres₁, hnone₁, hsome₁⟩ := fallbackRealloc_spec length i ha'
    simp only [he₁]
    have hfits : ¬fitsCell a.1 length ⟨h, parts.map Prod.fst⟩ := by
      simp [fitsCell, findBlock_fallback i ha']
    refine ⟨m, _, rfl, i₁.perm ?_, fun b hb => hpres₁ b ((hp.erase a).mem_iff.mp hb),
      fun hm => ⟨hnone₁ hm, fun hf => absurd hf hfits⟩,
      fun p hm => ⟨hsome₁ p hm, fun hne => absurd (findBlock_fallback i ha') hne⟩⟩
    cases m with
    | none   => exact hp.symm
    | some p => exact ((hp.erase a).symm).cons _

end SecureMemory
