import GcrModel.Egg.SecureMemory.Pool
import Mathlib.Data.List.Nodup
import Mathlib.Data.List.Pairwise
import Mathlib.Data.List.Perm.Basic

-- What the pool guarantees: it hands out items that nobody holds, and takes back those in use.
namespace SecureMemory

variable {host : Host} {h h' : Heap} {regions : List (Nat × Nat)} {live live' : List Nat}
  {pool pool' : Pool} {pools pools' : List Pool} {item : Nat}

def Apart (r s : Nat × Nat) : Prop :=
  r.1 + r.2 ≤ s.1 ∨ s.1 + s.2 ≤ r.1

theorem Apart.symm {r s : Nat × Nat} : Apart r s → Apart s r :=
  Or.symm

def Pool.region (pool : Pool) : Nat × Nat :=
  (pool.base, pool.length)

-- The state of a pool of which exactly the items in `live` are in use.
structure PoolOk (live : List Nat) (pool : Pool) : Prop where
  room       : poolHeader + itemSize * pool.nItems ≤ pool.length
  nodup      : pool.unused.Nodup
  mem_unused : ∀ i, i ∈ pool.unused ↔ i ∈ pool.itemList ∧ i ∉ live
  used       : pool.used = (live.filter (· ∈ pool.itemList)).length

-- The pools and the mappings of the process. The mappings are those of the pools and `regions`.
structure HeapInv (host : Host) (regions : List (Nat × Nat)) (live : List Nat) (h : Heap) : Prop where
  maps   : h.maps.Perm (h.pools.map Pool.region ++ regions)
  apart  : h.maps.Pairwise Apart
  bounds : ∀ r ∈ h.maps, 0 < r.1 ∧ 0 < r.2 ∧ r.1 + r.2 ≤ 2 ^ 64
  pools  : ∀ pool ∈ h.pools, PoolOk live pool
  owned  : ∀ i ∈ live, ∃ pool ∈ h.pools, i ∈ pool.itemList
  nodup  : live.Nodup

theorem PoolOk.perm (p : PoolOk live pool) (hl : live.Perm live') : PoolOk live' pool where
  room       := p.room
  nodup      := p.nodup
  mem_unused := fun i => by rw [p.mem_unused, hl.mem_iff]
  used       := p.used.trans (hl.filter _).length_eq

theorem HeapInv.perm (i : HeapInv host regions live h) (hl : live.Perm live') :
    HeapInv host regions live' h where
  maps   := i.maps
  apart  := i.apart
  bounds := i.bounds
  pools  := fun pool hp => (i.pools pool hp).perm hl
  owned  := fun j hj => i.owned j (hl.mem_iff.mpr hj)
  nodup  := hl.nodup_iff.mp i.nodup

theorem HeapInv.perm_regions {regions' : List (Nat × Nat)} (i : HeapInv host regions live h)
    (hr : regions.Perm regions') : HeapInv host regions' live h where
  maps   := i.maps.trans (hr.append_left _)
  apart  := i.apart
  bounds := i.bounds
  pools  := i.pools
  owned  := i.owned
  nodup  := i.nodup

-- Only the pools and the mappings matter.
theorem HeapInv.congr (i : HeapInv host regions live h) (hp : h'.pools = h.pools)
    (hm : h'.maps = h.maps) : HeapInv host regions live h' where
  maps   := by rw [hp, hm]; exact i.maps
  apart  := by rw [hm]; exact i.apart
  bounds := by rw [hm]; exact i.bounds
  pools  := by rw [hp]; exact i.pools
  owned  := by rw [hp]; exact i.owned
  nodup  := i.nodup

theorem mem_itemList : item ∈ pool.itemList ↔ ∃ n < pool.nItems, pool.items + itemSize * n = item := by
  simp [Pool.itemList]

theorem PoolOk.owns (p : PoolOk live pool) (hi : item ∈ pool.itemList) : pool.Owns item := by
  obtain ⟨n, hn, rfl⟩ := (mem_itemList).mp hi
  have := p.room
  simp only [Pool.Owns, Pool.items, itemSize, poolHeader] at *
  omega

theorem PoolOk.dvd (hi : item ∈ pool.itemList) : itemSize ∣ item - pool.items := by
  obtain ⟨n, -, rfl⟩ := (mem_itemList).mp hi
  exact ⟨n, by omega⟩

theorem PoolOk.used_pos (p : PoolOk live pool) (hi : item ∈ pool.itemList) (hl : item ∈ live) :
    0 < pool.used := by
  rw [p.used]
  exact List.length_pos_of_mem (List.mem_filter.mpr ⟨hl, by simpa using hi⟩)

theorem HeapInv.pools_apart (i : HeapInv host regions live h) :
    h.pools.Pairwise fun p q => Apart p.region q.region := by
  have hp := (i.maps.pairwise_iff Apart.symm).mp i.apart
  exact List.pairwise_map.mp (List.pairwise_append.mp hp).left

theorem HeapInv.regions_apart (i : HeapInv host regions live h) : regions.Pairwise Apart := by
  have hp := (i.maps.pairwise_iff Apart.symm).mp i.apart
  exact (List.pairwise_append.mp hp).right.left

theorem HeapInv.region_bounds {r : Nat × Nat} (i : HeapInv host regions live h) (hr : r ∈ regions) :
    0 < r.1 ∧ 0 < r.2 ∧ r.1 + r.2 ≤ 2 ^ 64 :=
  i.bounds r (i.maps.mem_iff.mpr (List.mem_append_right _ hr))

theorem HeapInv.pool_bounds (i : HeapInv host regions live h) (hp : pool ∈ h.pools) :
    0 < pool.base ∧ 0 < pool.length ∧ pool.base + pool.length ≤ 2 ^ 64 :=
  i.bounds pool.region
    (i.maps.mem_iff.mpr (List.mem_append_left _ (List.mem_map.mpr ⟨pool, hp, rfl⟩)))

-- An item pointer identifies its pool.
theorem owns_unique (p : PoolOk live pool) (p' : PoolOk live' pool') (ha : Apart pool.region pool'.region)
    (ho : pool.Owns item) (ho' : pool'.Owns item) : False := by
  have := p.room
  have := p'.room
  simp only [Apart, Pool.region, Pool.Owns, Pool.items, itemSize, poolHeader] at *
  omega

theorem HeapInv.item_bounds (i : HeapInv host regions live h) (hi : item ∈ live) :
    0 < item ∧ item < 2 ^ 64 := by
  obtain ⟨pool, hp, hi⟩ := i.owned item hi
  have := (i.pools pool hp).owns hi
  have := i.pool_bounds hp
  simp only [Pool.Owns, Pool.items, itemSize, poolHeader] at *
  omega

theorem poolTake_some (ht : poolTake pools = some (item, pools')) :
    ∃ pools₁ pool pools₂ unused, pools = pools₁ ++ pool :: pools₂ ∧ pool.unused = item :: unused ∧
      pools' = pools₁ ++ { pool with used := pool.used + 1, unused } :: pools₂ := by
  induction pools generalizing item pools' with
  | nil => simp [poolTake] at ht
  | cons pool pools ih =>
    cases hu : pool.unused with
    | cons i unused =>
      simp only [poolTake, hu, Option.some.injEq, Prod.mk.injEq] at ht
      obtain ⟨rfl, rfl⟩ := ht
      exact ⟨[], pool, pools, unused, rfl, hu, rfl⟩
    | nil =>
      simp only [poolTake, hu, Option.map_eq_some_iff, Prod.exists, Prod.mk.injEq] at ht
      obtain ⟨i, ps, ht, rfl, rfl⟩ := ht
      obtain ⟨pools₁, p, pools₂, unused, rfl, hp, rfl⟩ := ih ht
      exact ⟨pool :: pools₁, p, pools₂, unused, rfl, hp, rfl⟩

-- The pool that an item is taken from.
theorem PoolOk.take {unused : List Nat} (p : PoolOk live pool) (hu : pool.unused = item :: unused) :
    PoolOk (item :: live) { pool with used := pool.used + 1, unused } where
  room       := p.room
  nodup      := (List.nodup_cons.mp (hu ▸ p.nodup)).right
  mem_unused := by
    intro i
    have hi := p.mem_unused i
    have hd := (List.nodup_cons.mp (hu ▸ p.nodup)).left
    rw [hu] at hi
    by_cases he : i = item
    case pos => subst he; simp [hd]
    case neg =>
      simp only [List.mem_cons, he, false_or] at hi ⊢
      exact hi
  used := by
    have hi : item ∈ pool.itemList := ((p.mem_unused item).mp (by simp [hu])).left
    have hi' : item ∈ Pool.itemList { pool with used := pool.used + 1, unused } := hi
    simp only [List.filter_cons, hi', decide_true, if_true, List.length_cons]
    exact congrArg (· + 1) p.used

-- The other pools do not notice.
theorem PoolOk.cons_live (p : PoolOk live pool) (hi : item ∉ pool.itemList) :
    PoolOk (item :: live) pool where
  room       := p.room
  nodup      := p.nodup
  mem_unused := by
    intro i
    rw [p.mem_unused, List.mem_cons, not_or]
    constructor
    · rintro ⟨h₁, h₂⟩
      exact ⟨h₁, fun he => hi (he ▸ h₁), h₂⟩
    · rintro ⟨h₁, -, h₂⟩
      exact ⟨h₁, h₂⟩
  used := by simp [hi, p.used]

-- An item is in no other pool.
theorem HeapInv.not_mem_itemList {pools₁ pools₂ : List Pool} (i : HeapInv host regions live h)
    (hp : h.pools = pools₁ ++ pool :: pools₂) (hi : item ∈ pool.itemList) :
    ∀ q ∈ pools₁ ++ pools₂, item ∉ q.itemList := by
  intro q hq hiq
  have ha := i.pools_apart
  rw [hp, List.pairwise_append, List.pairwise_cons] at ha
  have hpool : pool ∈ h.pools := by simp [hp]
  have hq' : q ∈ h.pools := by
    rw [hp]
    simp only [List.mem_append, List.mem_cons] at hq ⊢
    tauto
  refine owns_unique (i.pools pool hpool) (i.pools q hq') ?_ ((i.pools pool hpool).owns hi)
    ((i.pools q hq').owns hiq)
  rcases List.mem_append.mp hq with hq | hq
  · exact (ha.right.right q hq pool (by simp)).symm
  · exact ha.right.left.left q hq

theorem HeapInv.take (i : HeapInv host regions live h) (ht : poolTake h.pools = some (item, pools)) :
    HeapInv host regions (item :: live) { h with pools } ∧ item ∉ live := by
  obtain ⟨pools₁, pool, pools₂, unused, hp, hu, rfl⟩ := poolTake_some ht
  have ho := i.pools pool (by simp [hp])
  have hitem := (ho.mem_unused item).mp (by simp [hu])
  have hother := i.not_mem_itemList hp hitem.left
  refine ⟨{ i with maps := ?_, pools := ?_, owned := ?_, nodup := ?_ }, hitem.right⟩
  case refine_1 =>
    refine i.maps.trans ?_
    simp [hp, Pool.region]
  case refine_2 =>
    intro q hq
    simp only [List.mem_append, List.mem_cons] at hq
    rcases hq with hq | rfl | hq
    · exact (i.pools q (by simp [hp, hq])).cons_live (hother q (by simp [hq]))
    · exact ho.take hu
    · exact (i.pools q (by simp [hp, hq])).cons_live (hother q (by simp [hq]))
  case refine_3 =>
    have hnew : { pool with used := pool.used + 1, unused } ∈
        pools₁ ++ { pool with used := pool.used + 1, unused } :: pools₂ := by simp
    intro j hj
    rcases List.mem_cons.mp hj with rfl | hj
    · exact ⟨_, hnew, hitem.left⟩
    · obtain ⟨q, hq, hjq⟩ := i.owned j hj
      simp only [hp, List.mem_append, List.mem_cons] at hq
      rcases hq with hq | rfl | hq
      · exact ⟨q, by simp [hq], hjq⟩
      · exact ⟨_, hnew, hjq⟩
      · exact ⟨q, by simp [hq], hjq⟩
  case refine_4 => exact List.nodup_cons.mpr ⟨hitem.right, i.nodup⟩

theorem HeapInv.sys (i : HeapInv host regions live h) (sys : List (Option Nat)) :
    HeapInv host regions live { h with sys } :=
  i.congr rfl rfl

-- The two outcomes of `mmap`. A new mapping is zeroed and changes nothing in the others.
theorem mmap_spec (host : Host) (i : HeapInv host regions live h) (length : Nat) :
    (∃ sys, mmap host length h = (none, { h with sys })) ∨
    (∃ base h', mmap host length h = (some base, h') ∧ host.pageSize ∣ base ∧
      h'.cells = h.cells ∧ h'.pools = h.pools ∧ h'.mem = h.mem.fill base length .zero ∧
      (∀ r ∈ h.maps, Apart (base, length) r) ∧
      HeapInv host ((base, length) :: regions) live h') := by
  unfold mmap
  match hs : h.sys with
  | []          => exact .inl ⟨[], by simp [← hs]⟩
  | none :: sys => exact .inl ⟨sys, rfl⟩
  | some base :: sys =>
    by_cases hb : host.pageSize ∣ base ∧ Free h.maps base length
    case neg => exact .inl ⟨sys, by simp [hb]⟩
    case pos =>
      obtain ⟨hd, hpos, hlen, hle, ha⟩ := hb
      refine .inr ⟨base, _, if_pos ⟨hd, hpos, hlen, hle, ha⟩, hd, rfl, rfl, rfl, ha, ?_⟩
      refine ⟨?_, ?_, ?_, i.pools, i.owned, i.nodup⟩
      · exact (List.Perm.cons _ i.maps).trans List.perm_middle.symm
      · exact List.pairwise_cons.mpr ⟨ha, i.apart⟩
      · intro r hr
        rcases List.mem_cons.mp hr with rfl | hr
        · exact ⟨hpos, hlen, hle⟩
        · exact i.bounds r hr

theorem poolNew_ok {base length : Nat} (hl : poolHeader + itemSize ≤ length)
    (hlive : ∀ i ∈ live, i ∉ (poolNew base length).itemList) : PoolOk live (poolNew base length) where
  room := by
    simp only [poolNew, poolHeader, itemSize] at *
    omega
  nodup := by
    simp only [poolNew, List.nodup_reverse]
    refine List.Nodup.map ?_ List.nodup_range
    intro a b hab
    simp only [itemSize] at hab
    omega
  mem_unused := by
    intro i
    have : i ∈ (poolNew base length).unused ↔ i ∈ (poolNew base length).itemList := by
      simp [poolNew, Pool.itemList, Pool.items]
    rw [this]
    exact ⟨fun hi => ⟨hi, fun hl => hlive i hl hi⟩, And.left⟩
  used := by
    symm
    refine List.length_eq_zero_iff.mpr (List.filter_eq_nil_iff.mpr fun i hi => ?_)
    simpa using hlive i hi

theorem Host.pageSize_ge (host : Host) : 4096 ≤ host.pageSize :=
  Nat.pow_le_pow_right (n := 2) (by decide) host.pageBits_ge

theorem Host.dvd_pageSize (host : Host) : wordSize ∣ host.pageSize :=
  Nat.pow_dvd_pow (m := 3) 2 (Nat.le_trans (by decide) host.pageBits_ge)

-- `pool_alloc` fails or hands out an item that was not in use.
theorem poolAlloc_spec (i : HeapInv host regions live h) :
    ∃ r h', poolAlloc host h = some (r, h') ∧
      (∀ reg ∈ regions, ∀ a ∈ Memory.range reg.1 reg.2, h'.mem a = h.mem a) ∧
      (r = none → h'.cells = h.cells ∧ HeapInv host regions live h') ∧
      (∀ item, r = some item → item ∉ live ∧ h'.cells = Function.update h.cells item (some {}) ∧
        HeapInv host regions (item :: live) h') := by
  unfold poolAlloc
  by_cases hv : host.poolVersion
  case neg =>
    simp only [hv]
    exact ⟨none, h, rfl, fun _ _ _ _ => rfl, fun _ => ⟨rfl, i⟩, by simp⟩
  case pos =>
    simp only [hv, if_true]
    cases ht : poolTake h.pools with
    | some p =>
      obtain ⟨item, pools⟩ := p
      have ⟨hi, hl⟩ := i.take ht
      refine ⟨some item, _, rfl, fun _ _ _ _ => rfl, by simp, ?_⟩
      rintro _ ⟨⟩
      exact ⟨hl, rfl, hi.congr rfl rfl⟩
    | none =>
      rcases mmap_spec host i (host.pageSize * 2) with ⟨sys, hm⟩ | ⟨base, h', hm, -, hc, hp, hmem, ha, hi⟩
      · simp only [hm]
        exact ⟨none, _, rfl, fun _ _ _ _ => rfl, fun _ => ⟨rfl, i.sys sys⟩, by simp⟩
      · simp only [hm]
        have hpg := host.pageSize_ge
        have hroom : poolHeader + itemSize ≤ host.pageSize * 2 := by
          simp only [poolHeader, itemSize]
          omega
        have hreg : ∀ r ∈ h.maps, Apart (base, host.pageSize * 2) r := ha
        have hi' : HeapInv host regions live
            { h' with pools := poolNew base (host.pageSize * 2) :: h.pools } := by
          refine ⟨?_, hi.apart, hi.bounds, ?_, ?_, hi.nodup⟩
          · refine hi.maps.trans ?_
            rw [hp]
            exact List.perm_middle
          · intro q hq
            rcases List.mem_cons.mp hq with rfl | hq
            · refine poolNew_ok hroom ?_
              intro j hj hjn
              obtain ⟨q, hq, hjq⟩ := i.owned j hj
              have hn : PoolOk [] (poolNew base (host.pageSize * 2)) := poolNew_ok hroom (by simp)
              refine owns_unique hn (i.pools q hq) ?_ (hn.owns hjn) ((i.pools q hq).owns hjq)
              refine hreg q.region (i.maps.mem_iff.mpr ?_)
              exact List.mem_append_left _ (List.mem_map.mpr ⟨q, hq, rfl⟩)
            · exact i.pools q hq
          · intro j hj
            obtain ⟨q, hq, hjq⟩ := i.owned j hj
            exact ⟨q, List.mem_cons_of_mem _ hq, hjq⟩
        have hne : 0 < (host.pageSize * 2 - (poolHeader + itemSize)) / itemSize := by
          simp only [poolHeader, itemSize]
          omega
        obtain ⟨item, unused, hu⟩ : ∃ item unused,
            (poolNew base (host.pageSize * 2)).unused = item :: unused := by
          refine List.exists_cons_of_ne_nil ?_
          simp only [poolNew, ne_eq, List.reverse_eq_nil_iff, List.map_eq_nil_iff, List.range_eq_nil]
          omega
        have ht' : poolTake (poolNew base (host.pageSize * 2) :: h'.pools) = some (item,
            { poolNew base (host.pageSize * 2) with used := 0 + 1, unused } :: h'.pools) := by
          simp only [poolTake, hu]
          rfl
        have ⟨hi'', hl⟩ := hi'.take (hp ▸ ht')
        simp only [ht', Option.bind_eq_bind, Option.bind_some]
        refine ⟨some item, _, rfl, ?_, by simp, ?_⟩
        · intro reg hr a ha'
          rw [hmem]
          apply Memory.fill_frame
          have := hreg reg (i.maps.mem_iff.mpr (List.mem_append_right _ hr))
          simp only [Apart, Memory.mem_range] at *
          omega
        · rintro _ ⟨⟩
          exact ⟨hl, by rw [hc], hi''.congr (by rw [hp]) rfl⟩

theorem poolPut_spec (i : HeapInv host regions live h) (hi : item ∈ live) :
    ∃ pools₁ pool pools₂, h.pools = pools₁ ++ pool :: pools₂ ∧ item ∈ pool.itemList ∧
      poolPut item h.pools =
        if pool.used = 1 then some (some pool, pools₁ ++ pools₂)
        else some (none, pools₁ ++
          { pool with used := pool.used - 1, unused := item :: pool.unused } :: pools₂) := by
  obtain ⟨pool, hp, hip⟩ := i.owned item hi
  obtain ⟨pools₁, pools₂, hs⟩ := List.append_of_mem hp
  refine ⟨pools₁, pool, pools₂, hs, hip, ?_⟩
  have ho := i.pools pool hp
  have hskip : ∀ q ∈ pools₁, ¬q.Owns item := by
    intro q hq hown
    have ha := i.pools_apart
    rw [hs, List.pairwise_append] at ha
    exact owns_unique (i.pools q (by simp [hs, hq])) ho (ha.right.right q hq pool (by simp)) hown
      (ho.owns hip)
  rw [hs]
  clear hs
  induction pools₁ with
  | nil =>
    simp only [List.nil_append, poolPut, ho.owns hip, if_true, PoolOk.dvd hip, ho.used_pos hip hi,
      guard, Option.bind_eq_bind, Option.pure_def, Option.bind_some]
  | cons q pools₁ ih =>
    have hq := hskip q (by simp)
    simp only [List.cons_append, poolPut, hq, if_false, ih fun q hq => hskip q (by simp [hq])]
    split <;> rfl

theorem filter_erase_length (hi : item ∈ live) (p : Nat → Bool) (hp : p item) :
    (live.filter p).length = ((live.erase item).filter p).length + 1 := by
  rw [((List.perm_cons_erase hi).filter p).length_eq]
  simp [hp]

theorem PoolOk.erase_live (p : PoolOk live pool) (hd : live.Nodup) (hi : item ∉ pool.itemList) :
    PoolOk (live.erase item) pool where
  room       := p.room
  nodup      := p.nodup
  mem_unused := by
    intro i
    rw [p.mem_unused, hd.mem_erase_iff]
    constructor
    · rintro ⟨h₁, h₂⟩
      exact ⟨h₁, fun h => h₂ h.right⟩
    · rintro ⟨h₁, h₂⟩
      exact ⟨h₁, fun h => h₂ ⟨fun he => hi (he ▸ h₁), h⟩⟩
  used := by
    rw [p.used]
    by_cases hm : item ∈ live
    case neg => rw [List.erase_of_not_mem hm]
    case pos =>
      rw [((List.perm_cons_erase hm).filter _).length_eq]
      simp [hi]

theorem PoolOk.put (p : PoolOk live pool) (hd : live.Nodup) (hi : item ∈ pool.itemList)
    (hl : item ∈ live) :
    PoolOk (live.erase item)
      { pool with used := pool.used - 1, unused := item :: pool.unused } where
  room       := p.room
  nodup      := List.nodup_cons.mpr ⟨fun hu => ((p.mem_unused item).mp hu).right hl, p.nodup⟩
  mem_unused := by
    intro i
    have hm := p.mem_unused i
    rw [hd.mem_erase_iff, List.mem_cons, hm]
    by_cases he : i = item
    case pos =>
      subst he
      simp only [true_or, ne_eq, not_true_eq_false, false_and, not_false_eq_true, and_true, true_iff]
      exact hi
    case neg =>
      simp only [he, false_or, ne_eq, not_false_eq_true, true_and]
      exact Iff.rfl
  used := by
    have := filter_erase_length hl (fun i => decide (i ∈ pool.itemList)) (by simpa using hi)
    have := p.used
    show pool.used - 1 = ((live.erase item).filter fun i => decide (i ∈ pool.itemList)).length
    omega

-- `pool_free` takes back an item that is in use.
theorem poolFree_spec (item : Nat) (i : HeapInv host regions live h) (hi : item ∈ live) :
    ∃ h', poolFree item h = some h' ∧ h'.mem = h.mem ∧
      h'.cells = Function.update h.cells item none ∧
      HeapInv host regions (live.erase item) h' := by
  obtain ⟨pools₁, pool, pools₂, hp, hip, hput⟩ := poolPut_spec i hi
  have ho := i.pools pool (by simp [hp])
  have hother := i.not_mem_itemList hp hip
  unfold poolFree
  rw [hput]
  split
  case isTrue h1 =>
    refine ⟨_, rfl, rfl, rfl, ?_⟩
    have hmaps : (h.maps.erase pool.region).Perm ((pools₁ ++ pools₂).map Pool.region ++ regions) := by
      refine (i.maps.erase pool.region).trans ?_
      have : (h.pools.map Pool.region ++ regions).Perm
          (pool.region :: ((pools₁ ++ pools₂).map Pool.region ++ regions)) := by
        simp only [hp, List.map_append, List.map_cons, List.append_assoc]
        exact List.perm_middle
      simpa using this.erase pool.region
    -- It was the only item in use of its pool.
    have hone : ∀ j ∈ live, j ∈ pool.itemList → j = item := by
      intro j hj hjp
      have hu : live.filter (· ∈ pool.itemList) = [item] := by
        refine List.length_eq_one_iff.mp (ho.used.symm.trans h1) |>.elim fun k hk => ?_
        have : item ∈ live.filter (· ∈ pool.itemList) := by simp [hi, hip]
        rw [hk, List.mem_singleton] at this
        rw [hk, this]
      have : j ∈ live.filter (· ∈ pool.itemList) := by simp [hj, hjp]
      simpa [hu] using this
    refine ⟨hmaps, ?_, ?_, ?_, ?_, ?_⟩
    · exact i.apart.sublist List.erase_sublist
    · exact fun r hr => i.bounds r (List.mem_of_mem_erase hr)
    · intro q hq
      replace hq : q ∈ pools₁ ++ pools₂ := hq
      have hq' := List.mem_append.mp hq
      refine (i.pools q ?_).erase_live i.nodup (hother q hq)
      simp only [hp, List.mem_append, List.mem_cons]
      tauto
    · intro j hj
      have ⟨hne, hj⟩ := i.nodup.mem_erase_iff.mp hj
      obtain ⟨q, hq, hjq⟩ := i.owned j hj
      simp only [hp, List.mem_append, List.mem_cons] at hq
      rcases hq with hq | rfl | hq
      · exact ⟨q, List.mem_append_left _ hq, hjq⟩
      · exact absurd (hone j hj hjq) hne
      · exact ⟨q, List.mem_append_right _ hq, hjq⟩
    · exact i.nodup.erase item
  case isFalse h1 =>
    refine ⟨_, rfl, rfl, rfl, ?_⟩
    refine ⟨?_, i.apart, i.bounds, ?_, ?_, i.nodup.erase item⟩
    · refine i.maps.trans ?_
      simp [hp, Pool.region]
    · intro q hq
      simp only [List.mem_append, List.mem_cons] at hq
      rcases hq with hq | rfl | hq
      · exact (i.pools q (by simp [hp, hq])).erase_live i.nodup (hother q (by simp [hq]))
      · exact ho.put i.nodup hip hi
      · exact (i.pools q (by simp [hp, hq])).erase_live i.nodup (hother q (by simp [hq]))
    · intro j hj
      obtain ⟨q, hq, hjq⟩ := i.owned j (List.mem_of_mem_erase hj)
      simp only [hp, List.mem_append, List.mem_cons] at hq
      have hnew : { pool with used := pool.used - 1, unused := item :: pool.unused } ∈
          pools₁ ++ { pool with used := pool.used - 1, unused := item :: pool.unused } :: pools₂ := by
        simp
      rcases hq with hq | rfl | hq
      · exact ⟨q, by simp [hq], hjq⟩
      · exact ⟨_, hnew, hjq⟩
      · exact ⟨q, by simp [hq], hjq⟩

theorem poolValid_of_live (i : HeapInv host regions live h) (hi : item ∈ live) :
    poolValid item h = true := by
  obtain ⟨pool, hp, hip⟩ := i.owned item hi
  have ho := i.pools pool hp
  unfold poolValid
  cases hf : h.pools.find? fun pool => pool.Owns item with
  | none =>
    have := List.find?_eq_none.mp hf pool hp
    simp [ho.owns hip] at this
  | some q =>
    have hq := List.mem_of_find?_eq_some hf
    have hown : q.Owns item := by simpa using List.find?_some hf
    -- The pools do not overlap, so the first pool with the item is the right one.
    have he : q = pool := by
      by_contra hne
      have : Std.Symm fun p q : Pool => Apart p.region q.region := ⟨fun _ _ => Or.symm⟩
      exact owns_unique (i.pools q hq) ho (i.pools_apart.forall hq hp hne) hown (ho.owns hip)
    subst he
    simp [ho.used_pos hip hi, PoolOk.dvd hip]

end SecureMemory
