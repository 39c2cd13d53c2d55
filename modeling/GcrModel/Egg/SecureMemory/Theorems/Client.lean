import GcrModel.Egg.SecureMemory.Theorems.Public

-- The main results on the allocator, for all runs of a client.
namespace SecureMemory

variable {host : Host} {client client' : Client} {s s' : State} {call : Call} {result : Option Nat}
  {live : List (Nat × Nat)} {a b : Nat × Nat} {event : Event} {memory length n : Nat}

theorem Client.Step.of_after (h : client.after host event = some client') :
    Client.Step host client event client' := by
  cases event with
  | call call result =>
    by_cases hc : call.Allowed client
    case neg => simp [Client.after, hc] at h
    case pos =>
      simp only [Client.after, hc, guard, if_true, Option.bind_eq_bind, Option.bind_eq_some_iff] at h
      obtain ⟨_, _, ⟨result', s⟩, he, h⟩ := h
      by_cases hr : result' = result
      case neg => simp [hr] at h
      case pos =>
        subst hr
        simp only [if_true, Option.pure_def, Option.some.injEq] at h
        obtain ⟨-, -, rfl⟩ := h
        exact .call hc he
  | write address val =>
    by_cases ha : ∃ a ∈ client.live, a.1 ≤ address ∧ address < a.1 + a.2
    case neg => simp [Client.after, guard, ha] at h
    case pos =>
      simp only [Client.after, guard, ha, if_true, Option.pure_def, Option.bind_eq_bind,
        Option.bind_some, Option.some.injEq] at h
      obtain ⟨a, ha, hx⟩ := ha
      exact h ▸ .write ha hx

theorem Client.Run.replay {ts : List (Client × Event × Client)} {events : List Event}
    (r : Client.Run host ts client) (h : events.foldlM (Client.after host) client = some client') :
    ∃ ts, Client.Run host ts client' := by
  induction events generalizing client ts with
  | nil =>
    cases h
    exact ⟨ts, r⟩
  | cons event events ih =>
    rw [List.foldlM_cons, Option.bind_eq_bind, Option.bind_eq_some_iff] at h
    obtain ⟨client₁, he, h⟩ := h
    exact ih (.step r (.of_after he)) h

theorem Inv.pos (i : Inv host s live) (ha : a ∈ live) : 0 < a.1 ∧ 0 < a.2 := by
  obtain ⟨parts, fallback, -, i, hp⟩ := i
  rcases List.mem_append.mp (hp.mem_iff.mp ha) with ha | ha
  · obtain ⟨p, hp, ha⟩ := List.mem_flatMap.mp ha
    have := (i.blocks p hp).toShape.alloc_mem ha
    simp only [wordSize] at this
    omega
  · have := i.heap.region_bounds (List.mem_append_right _ ha)
    omega

-- An allocation is the only one at its address.
theorem Inv.ne_address (i : Inv host s live) (ha : a ∈ live) (hb : b ∈ live.erase a) : b.1 ≠ a.1 := by
  have := i.apart_erase ha hb
  have := i.pos ha
  have := i.pos (List.mem_of_mem_erase hb)
  simp only [Apart] at *
  omega

theorem Inv.filter_perm (i : Inv host s live) (ha : a ∈ live) :
    (live.filter fun b => b.1 ≠ a.1).Perm (live.erase a) := by
  refine ((List.perm_cons_erase ha).filter _).trans ?_
  rw [List.filter_cons_of_neg (by simp), List.filter_eq_self.mpr]
  intro b hb
  simpa using i.ne_address ha hb

theorem Inv.filter_zero (i : Inv host s live) : live.filter (fun b => b.1 ≠ 0) = live :=
  List.filter_eq_self.mpr fun b hb => by simpa using Nat.ne_of_gt (i.pos hb).left

theorem mem_erase_of_ne_address (hb : b ∈ live) (hne : b.1 ≠ a.1) : b ∈ live.erase a :=
  (List.mem_erase_of_ne fun he => hne (congrArg Prod.fst he)).mpr hb

theorem eggSecureFreeFull_null (host : Host) (flags : Bool) (s : State) :
    eggSecureFreeFull host 0 flags s = some s :=
  if_pos rfl

theorem eggSecureReallocFull_null {tag : Option String} {flags : Bool} (s : State) :
    eggSecureReallocFull host tag 0 length flags s = eggSecureAllocFull host tag length flags s := by
  unfold eggSecureReallocFull
  by_cases hs : insane length
  case pos => simp [eggSecureAllocFull, hs]
  case neg => simp [hs]

theorem eggSecureReallocFull_zero {tag : Option String} {flags : Bool} (hm : memory ≠ 0) :
    eggSecureReallocFull host tag memory 0 flags s =
      (eggSecureFreeFull host memory flags s).map fun s => (none, s) := by
  have hs : ¬insane 0 := by decide
  simp only [eggSecureReallocFull, hs, hm, if_false, if_true]
  cases eggSecureFreeFull host memory flags s <;> rfl

-- All calls that a client may make succeed, and the allocations are what the client thinks.
theorem Call.run_spec (i : Inv host client.state client.live) (hc : call.Allowed client) :
    ∃ result s', call.run host client.state = some (result, s') ∧
      Inv host s' (call.live result client.live) := by
  cases call with
  | alloc tag length flags =>
    obtain ⟨m, s', he, i', -, -⟩ := eggSecureAllocFull_spec tag length flags i
    exact ⟨m, s', he, by cases m <;> exact i'⟩
  | free memory flags =>
    rcases hc with rfl | ⟨⟨n, hn⟩, hflags⟩
    · refine ⟨none, client.state, by simp [run, eggSecureFreeFull_null], ?_⟩
      simpa only [Call.live, i.filter_zero] using i
    · obtain ⟨s', he, i', -⟩ := eggSecureFreeFull_spec flags i hn hflags
      exact ⟨none, s', by simp [run, he], i'.perm (i.filter_perm hn).symm⟩
  | realloc tag memory length flags =>
    rcases hc with rfl | ⟨⟨n, hn⟩, hflags⟩
    · obtain ⟨m, s', he, i', -, -⟩ := eggSecureAllocFull_spec tag length flags i
      refine ⟨m, s', by rw [run, eggSecureReallocFull_null, he], i'.perm ?_⟩
      cases m with
      | none   => simp only [Call.live, i.filter_zero, ite_self]; exact .refl _
      | some p => simp only [Call.live, i.filter_zero]; exact .refl _
    · by_cases hl : length = 0
      case pos =>
        subst hl
        obtain ⟨s', he, i', -⟩ := eggSecureFreeFull_spec flags i hn hflags
        refine ⟨none, s', ?_, i'.perm (i.filter_perm hn).symm⟩
        rw [run, eggSecureReallocFull_zero (Nat.ne_of_gt (i.pos hn).left), he, Option.map_some]
      case neg =>
        obtain ⟨m, s', he, i', -⟩ := eggSecureReallocFull_spec tag flags i hn hl hflags
        refine ⟨m, s', he, i'.perm ?_⟩
        cases m with
        | none   => simp only [Call.live, hl, if_false]; exact .refl _
        | some p => exact (i.filter_perm hn).symm.cons _

theorem Client.Step.inv (st : Client.Step host client event client')
    (i : Inv host client.state client.live) : Inv host client'.state client'.live := by
  cases st with
  | call hc he =>
    obtain ⟨result, s', he', i'⟩ := Call.run_spec i hc
    cases he.symm.trans he'
    exact i'
  | write ha hx =>
    refine (i.write _ ha fun x hx' => ?_).left
    exact Function.update_of_ne (fun he => hx' (by rwa [he])) _ _

theorem Client.Reachable.inv (r : client.Reachable host) : Inv host client.state client.live :=
  Transition.Reachable.invariant (p := fun client => Inv host client.state client.live) r
    (fun _ ⟨sys, he⟩ => he ▸ ⟨[], [], rfl, .initial host sys, .refl _⟩) fun _ _ _ i st => st.inv i

theorem forM_eq_some {α : Type} {l : List α} {f : α → Option Unit} (h : ∀ a ∈ l, f a = some ()) :
    l.forM f = some () := by
  induction l with
  | nil => rfl
  | cons a l ih =>
    change (f a >>= fun _ => l.forM f) = some ()
    rw [h a (List.mem_cons_self ..)]
    exact ih fun b hb => h b (List.mem_cons_of_mem _ hb)

theorem StateInv.validate {h : Heap} {parts : List (Block × Layout)} {fallback : List (Nat × Nat)}
    (i : StateInv host h parts fallback) : eggSecureValidate ⟨h, parts.map Prod.fst⟩ = some () := by
  refine forM_eq_some fun block hb => ?_
  obtain ⟨p, hp, rfl⟩ := List.mem_map.mp hb
  obtain ⟨regions, others, o⟩ := i.exists_owned hp
  exact secValidate_spec (i.blocks p hp) o

theorem StateInv.records {h : Heap} {parts : List (Block × Layout)} {fallback : List (Nat × Nat)}
    (i : StateInv host h parts fallback) :
    (eggSecureRecords ⟨h, parts.map Prod.fst⟩).isSome := by
  unfold eggSecureRecords
  generalize ([] : List Record) = records
  have hblocks := i.blocks
  have hsmall := i.small
  clear i
  induction parts generalizing records with
  | nil => simp
  | cons p parts ih =>
    have b := hblocks p (List.mem_cons_self ..)
    have s := b.toShape
    obtain ⟨unused, hu⟩ := recordsForRing_head (p.1.nWords + 1) s.rings.unused
      (fun c hc => exists_cell_of_mem s (s.rings.cells_of_unused hc)) (Nat.le_succ_of_le s.unused_length_le)
    obtain ⟨used, hu'⟩ := recordsForRing_head (p.1.nWords + 1) s.rings.used
      (fun c hc => exists_cell_of_mem s (s.rings.cells_of_used hc)) (Nat.le_succ_of_le s.used_length_le)
    have htotal : ((p.2.unused.map h.cells.nWords).sum + (p.2.used.map h.cells.nWords).sum) % 2 ^ 32 =
        p.1.nWords := by
      rw [records_total b]
      exact Nat.mod_eq_of_lt (hsmall p (List.mem_cons_self ..))
    simp only [List.map_cons, List.foldlM_cons, hu, hu', htotal, guard, if_true, Option.pure_def,
      Option.bind_eq_bind, Option.bind_some]
    exact ih _ (fun q hq => hblocks q (List.mem_cons_of_mem _ hq))
      fun q hq => hsmall q (List.mem_cons_of_mem _ hq)

-- In every reachable state all blocks are well-formed and hold exactly the allocations of the client,
-- which do not overlap, and neither the checks of the code nor any call fails an assertion.
theorem Client.Reachable.wellFormed (r : client.Reachable host) :
    ∃ parts fallback, client.state.blocks = parts.map Prod.fst ∧
      (∀ p ∈ parts, BlockInv client.state.heap p.1 p.2) ∧
      client.live.Perm (allocs client.state.heap parts ++ fallback) ∧
      client.live.Pairwise Apart ∧ eggSecureValidate client.state = some () ∧
      (eggSecureRecords client.state).isSome ∧
      ∀ call : Call, call.Allowed client → (call.run host client.state).isSome := by
  have i := r.inv
  have hapart := i.apart
  have hrun : ∀ call : Call, call.Allowed client → (call.run host client.state).isSome := by
    intro call hc
    obtain ⟨result, s', he, -⟩ := Call.run_spec i hc
    simp [he]
  obtain ⟨parts, fallback, hb, i, hp⟩ := i
  have hs : client.state = ⟨client.state.heap, parts.map Prod.fst⟩ := by rw [← hb]
  refine ⟨parts, fallback, hb, i.blocks, hp, hapart, ?_, ?_, hrun⟩
  · rw [hs]
    exact i.validate
  · rw [hs]
    exact i.records

-- A machine with pages of 4096 bytes, and a client of it that gets a page for the pool and a block.
def Host.small : Host := ⟨12, by decide, by decide, true, false, true⟩

def Client.start : Client := ⟨.initial [some 0x10000, some 0x20000], []⟩

-- Three allocations, of which the first two are freed and allocated again as a single cell.
def Client.merge : List Event := [
  .call (.alloc (some "a") 8 false) (some 0x20008),
  .call (.alloc (some "b") 8 false) (some 0x20020),
  .call (.alloc (some "c") 8 false) (some 0x20038),
  .write 0x20008 42,
  .call (.free 0x20008 false) none,
  .call (.free 0x20020 false) none,
  .call (.alloc (some "d") 8 false) (some 0x20008)
]

def Client.grow : Event :=
  .call (.realloc none 0x20008 32 false) (some 0x20008)

-- After these events, growing the merged cell shows the old guard word behind its first 8 bytes.
theorem Client.exists_merge : ∃ ts client, Client.Run .small ts client ∧
    client.live = [(0x20008, 8), (0x20038, 8)] ∧
    (∃ block ∈ client.state.blocks, block.words ≤ 0x20020 ∧ 0x20020 < block.last) ∧
    findBlock 0x20008 client.state.blocks ≠ none ∧
    ∃ client', client.after .small grow = some client' ∧ (client'.state.heap.mem 0x20010).val ≠ 0 := by
  have h : (merge.foldlM (after .small) start).any fun client =>
      client.live = [(0x20008, 8), (0x20038, 8)] ∧
      (∃ block ∈ client.state.blocks, block.words ≤ 0x20020 ∧ 0x20020 < block.last) ∧
      findBlock 0x20008 client.state.blocks ≠ none ∧
      (client.after .small grow).any fun client' => (client'.state.heap.mem 0x20010).val ≠ 0 := by
    decide +kernel
  obtain ⟨client, hc, h⟩ := Option.any_eq_true _ _ |>.mp h
  have ⟨ts, r⟩ := Client.Run.replay (.start ⟨_, rfl⟩) hc
  obtain ⟨hlive, hb, hf, h⟩ := of_decide_eq_true h
  obtain ⟨client', he, h⟩ := Option.any_eq_true _ _ |>.mp h
  exact ⟨ts, client, r, hlive, hb, hf, client', he, of_decide_eq_true h⟩

theorem Client.Reachable.wellFormed_merge : ∃ client : Client,
    client.live = [(0x20008, 8), (0x20038, 8)] ∧ eggSecureValidate client.state = some () ∧
    client.live.Pairwise Apart := by
  obtain ⟨ts, client, r, hlive, -⟩ := Client.exists_merge
  have ⟨_, _, _, _, _, hapart, hvalid, _⟩ := Client.Reachable.wellFormed ⟨ts, r⟩
  exact ⟨client, hlive, hvalid, hapart⟩

-- What the client wrote into a block is nowhere but in its allocations.
theorem Client.Reachable.clean (r : client.Reachable host) :
    ∀ block ∈ client.state.blocks, ∀ x, block.words ≤ x → x < block.last →
      (∀ a ∈ client.live, x ∉ Memory.range a.1 a.2) →
      client.state.heap.mem x = .zero ∨ ∃ val, client.state.heap.mem x = .guard val := by
  obtain ⟨parts, fallback, hb, i, hp⟩ := r.inv
  intro block hblock x hx hx' hfree
  rw [hb] at hblock
  obtain ⟨p, hpart, rfl⟩ := List.mem_map.mp hblock
  cases hbyte : client.state.heap.mem x with
  | zero      => exact .inl rfl
  | guard val => exact .inr ⟨val, rfl⟩
  | client val =>
    have hclient : (client.state.heap.mem x).IsClient := by simp [hbyte, Byte.IsClient]
    obtain ⟨a, ha, hxa⟩ := i.clean p hpart x hx hx' hclient
    refine absurd hxa (hfree a (hp.mem_iff.mpr (List.mem_append_left _ ?_)))
    exact List.mem_flatMap.mpr ⟨p, hpart, ha⟩

theorem Client.Reachable.clean_merge : ∃ client : Client,
    client.live = [(0x20008, 8), (0x20038, 8)] ∧
    (client.state.heap.mem 0x20020 = .zero ∨ ∃ val, client.state.heap.mem 0x20020 = .guard val) := by
  obtain ⟨ts, client, r, hlive, ⟨block, hb, hx, hx'⟩, -⟩ := Client.exists_merge
  refine ⟨client, hlive, Client.Reachable.clean ⟨ts, r⟩ block hb _ hx hx' ?_⟩
  simp [hlive, Memory.range]

-- What a step of the client is to do with the contents of its allocations: those of the others stay
-- as they are, new ones are zeroed, and resizing keeps the old contents and adds zeros.
def ContentsOk (client : Client) (event : Event) (client' : Client) : Prop :=
  match event with
  | .write address _ => ∀ a ∈ client.live, address ∉ Memory.range a.1 a.2 →
    Preserves client.state.heap client'.state.heap a
  | .call (.alloc _ length _) result =>
    (∀ a ∈ client.live, Preserves client.state.heap client'.state.heap a) ∧
      Zeroed client'.state.heap length result
  | .call (.free memory _) _ => ∀ a ∈ client.live, a.1 ≠ memory →
    Preserves client.state.heap client'.state.heap a
  | .call (.realloc _ memory length _) result =>
    (∀ a ∈ client.live, a.1 ≠ memory → Preserves client.state.heap client'.state.heap a) ∧
      (memory = 0 → Zeroed client'.state.heap length result) ∧
      ∀ n, (memory, n) ∈ client.live →
        (result = none → 0 < length → (memory, n) ∈ client'.live ∧
          Preserves client.state.heap client'.state.heap (memory, n)) ∧
        ∀ p, result = some p →
          (∀ i < min n length, client'.state.heap.mem (p + i) = client.state.heap.mem (memory + i)) ∧
          (findBlock memory client.state.blocks ≠ none → ∀ i, n ≤ i → i < length →
            (client'.state.heap.mem (p + i)).val = 0)

-- The bytes that an allocation is going to grow by inside of its cell are zero. They may hold an old
-- guard word if the cell was merged from several ones.
def SlackZero (client : Client) (event : Event) (_ : Client) : Prop :=
  match event with
  | .call (.realloc _ memory length _) _ => ¬insane length → fitsCell memory length client.state →
    ∀ n, (memory, n) ∈ client.live → ∀ i, n ≤ i → i < length →
      (client.state.heap.mem (memory + i)).val = 0
  | _ => True

theorem contentsOk_iff (i : Inv host client.state client.live)
    (st : Client.Step host client event client') :
    ContentsOk client event client' ↔ SlackZero client event client' := by
  cases st with
  | write _ _ =>
    refine iff_of_true (fun a _ hxa x hx => ?_) trivial
    exact Function.update_of_ne (fun he => hxa (by rwa [← he])) _ _
  | @call call result s' hc he =>
    cases call with
    | alloc tag length flags =>
      obtain ⟨m, s'', he', -, hpres, hz⟩ := eggSecureAllocFull_spec tag length flags i
      cases he.symm.trans he'
      exact iff_of_true ⟨hpres, hz⟩ trivial
    | free memory flags =>
      refine iff_of_true (fun a ha hne => ?_) trivial
      rcases hc with rfl | ⟨⟨n, hn⟩, hflags⟩
      · simp only [Call.run, eggSecureFreeFull_null, Option.bind_eq_bind, Option.bind_some,
          Option.some.injEq, Prod.mk.injEq] at he
        rw [← he.right]
        exact .refl
      · obtain ⟨s'', he', -, hpres⟩ := eggSecureFreeFull_spec flags i hn hflags
        simp only [Call.run, he', Option.bind_eq_bind, Option.bind_some, Option.some.injEq,
          Prod.mk.injEq] at he
        rw [← he.right]
        exact hpres a (mem_erase_of_ne_address ha hne)
    | realloc tag memory length flags =>
      rcases hc with rfl | ⟨⟨n, hn⟩, hflags⟩
      · obtain ⟨m, s'', he', -, hpres, hz⟩ := eggSecureAllocFull_spec tag length flags i
        rw [Call.run, eggSecureReallocFull_null] at he
        cases he.symm.trans he'
        have hnot : ∀ n, (0, n) ∉ client.live := fun n hn => absurd (i.pos hn).left (Nat.lt_irrefl 0)
        exact iff_of_true ⟨fun a ha _ => hpres a ha, fun _ => hz, fun n hn => absurd hn (hnot n)⟩
          fun _ _ n hn => absurd hn (hnot n)
      · have hpos := Nat.ne_of_gt (i.pos hn).left
        by_cases hl : length = 0
        case pos =>
          subst hl
          obtain ⟨s'', he', -, hpres⟩ := eggSecureFreeFull_spec flags i hn hflags
          rw [Call.run, eggSecureReallocFull_zero hpos, he', Option.map_some] at he
          cases he
          refine iff_of_true ⟨fun a ha hne => hpres a (mem_erase_of_ne_address ha hne),
            fun hz => absurd hz hpos, fun _ _ => ⟨fun _ h => absurd h (Nat.lt_irrefl 0), by simp⟩⟩ ?_
          exact fun _ _ _ _ j _ hj => absurd hj (Nat.not_lt_zero j)
        case neg =>
          obtain ⟨m, s'', he', -, hpres, hnone, hsome⟩ :=
            eggSecureReallocFull_spec tag flags i hn hl hflags
          cases he.symm.trans he'
          have hunique : ∀ k, (memory, k) ∈ client.live → k = n := by
            intro k hk
            by_contra hne
            refine i.ne_address hn ((List.mem_erase_of_ne ?_).mpr hk) rfl
            simpa using hne
          constructor
          · rintro ⟨-, -, hgrow⟩ hsane hfits k hk j hj hj'
            obtain rfl := hunique k hk
            cases result with
            | none   => exact absurd ((hnone rfl).right hfits) hsane
            | some p =>
              have hblock : findBlock memory client.state.blocks ≠ none := by
                intro hb
                simp [fitsCell, hb] at hfits
              have := ((hgrow k hk).right p rfl).right hblock j hj hj'
              rwa [(hsome p rfl).new hblock j hj hj', if_pos hfits] at this
          · intro hslack
            refine ⟨fun a ha hne => hpres a (mem_erase_of_ne_address ha hne),
              fun hz => absurd hz hpos, fun k hk => ?_⟩
            obtain rfl := hunique k hk
            refine ⟨?_, fun p hm => ⟨(hsome p hm).old, fun hblock j hj hj' => ?_⟩⟩
            · rintro rfl _
              refine ⟨?_, (hnone rfl).left⟩
              simpa only [Call.live, hl, if_false] using hk
            · have hsane : ¬insane length := by
                intro hs
                rw [eggSecureReallocFull, if_pos hs, hm] at he'
                cases he'
              rw [(hsome p hm).new hblock j hj hj']
              by_cases hfits : fitsCell memory length client.state
              case pos =>
                rw [if_pos hfits]
                exact hslack hsane hfits k hk j hj hj'
              case neg =>
                rw [if_neg hfits]
                rfl

-- The contents are right in a run if and only if no step of it grows an allocation in its cell over an
-- old guard word.
theorem Client.Run.contents {ts : List (Client × Event × Client)} (r : Client.Run host ts client) :
    (∀ t ∈ ts, ContentsOk t.1 t.2.1 t.2.2) ↔ ∀ t ∈ ts, SlackZero t.1 t.2.1 t.2.2 :=
  Transition.Run.forall_congr (p := fun client => Inv host client.state client.live) r
    (fun _ ⟨sys, he⟩ => he ▸ ⟨[], [], rfl, .initial host sys, .refl _⟩) (fun _ _ _ i st => st.inv i)
    fun _ _ _ i st => contentsOk_iff i st

theorem Client.Run.contents_merge : ∃ ts client, Client.Run .small ts client ∧
    client.live = [(0x20008, 8), (0x20038, 8)] ∧
    ((∀ t ∈ ts, ContentsOk t.1 t.2.1 t.2.2) ↔ ∀ t ∈ ts, SlackZero t.1 t.2.1 t.2.2) := by
  obtain ⟨ts, client, r, hlive, -⟩ := Client.exists_merge
  exact ⟨ts, client, r, hlive, Client.Run.contents r⟩

theorem Client.Run.not_contentsOk :
    ¬∀ host ts client, Client.Run host ts client → ∀ t ∈ ts, ContentsOk t.1 t.2.1 t.2.2 := by
  intro h
  obtain ⟨ts, client, r, hlive, -, hblock, client', he, hval⟩ := Client.exists_merge
  have ⟨_, _, hgrow⟩ := h _ _ _ (.step r (.of_after he)) _ (List.mem_cons_self ..)
  have hlive : (0x20008, 8) ∈ client.live := by simp [hlive]
  exact hval (((hgrow 8 hlive).right 0x20008 rfl).right hblock 8 (le_refl 8) (by decide))

end SecureMemory
