import GcrModel.Gck.Attributes.Theorems.Array

namespace Builder

open Transition (Outcome)

variable {s s' : State} {h' : Values} {k j v : Nat} {e : Event} {holder : Holder}

-- The array of a builder that is prepared has no values. A set counts its references.
def Holder.Valid : Holder → Prop
  | .builder array prepared          => prepared = true → ∀ attr ∈ array, attr.value = none
  | .attributes data refs references =>
    refs = (references : Int).bmod 0x100000000 ∧ references ≤ 0x100000000 ∧ (references = 0 → data = [])
  | .attribute _                     => True

structure Valid (s : State) : Prop where
  owns    : Owns s.values s.slots
  holders : ∀ holder ∈ s.holders, holder.Valid

theorem Valid.shared (hv : Valid s) : Shared s where
  counted := fun v cell hcell => (Counts.alive hv.owns v cell hcell).1
  freed   := fun v => by
    refine ⟨fun hsome => ?_, fun hpos => ?_⟩
    · obtain ⟨cell, hcell⟩ := Option.isSome_iff_exists.mp hsome
      exact (Counts.alive hv.owns v cell hcell).2
    · obtain ⟨cell, hcell, _⟩ := Counts.exists_cell hv.owns hpos
      simp [hcell]

-- The attributes of all but one.
def State.rest (s : State) (k : Nat) : List Slot :=
  (s.holders.take k ++ s.holders.drop (k + 1)).flatMap Holder.slots

theorem State.count_eq (hk : s.holders[k]? = some holder) :
    Builder.count s.slots v = Builder.count (holder.slots ++ s.rest k) v := by
  obtain ⟨hlt, rfl⟩ := List.getElem?_eq_some_iff.mp hk
  have hsplit : s.holders = s.holders.take k ++ s.holders[k] :: s.holders.drop (k + 1) := by simp
  have hslots : s.slots = (s.holders.take k ++ s.holders[k] :: s.holders.drop (k + 1)).flatMap Holder.slots :=
    congrArg (List.flatMap Holder.slots) hsplit
  simp only [hslots, State.rest, List.flatMap_append, List.flatMap_cons, count_append]
  omega

theorem State.count_set (holder' : Holder) (tail : List Holder) (hk : s.holders[k]? = some holder) :
    Builder.count (State.slots ⟨h', s.holders.set k holder' ++ tail⟩) v =
      Builder.count (holder'.slots ++ (tail.flatMap Holder.slots ++ s.rest k)) v := by
  obtain ⟨hlt, rfl⟩ := List.getElem?_eq_some_iff.mp hk
  simp only [State.slots, State.rest, List.set_eq_take_append_cons_drop, if_pos hlt, List.flatMap_append,
    List.flatMap_cons, count_append]
  omega

theorem State.slots_subset_rest (hj : s.holders[j]? = some holder) (hne : j ≠ k) : holder.slots ⊆ s.rest k := by
  have hmem : holder ∈ s.holders.take k ++ s.holders.drop (k + 1) := by
    rw [List.mem_append]
    by_cases hlt : j < k
    case pos => exact .inl (List.mem_of_getElem? (i := j) (by rw [List.getElem?_take_of_lt hlt, hj]))
    case neg =>
      refine .inr (List.mem_of_getElem? (i := j - (k + 1)) ?_)
      rw [List.getElem?_drop, show k + 1 + (j - (k + 1)) = j by omega, hj]
  exact fun attr hattr => List.mem_flatMap.mpr ⟨holder, hmem, hattr⟩

theorem State.slots_subset (hj : s.holders[j]? = some holder) : holder.slots ⊆ s.slots :=
  fun _ hattr => List.mem_flatMap.mpr ⟨holder, List.mem_of_getElem? hj, hattr⟩

theorem Valid.at (hv : Valid s) (hk : s.holders[k]? = some holder) : Owns s.values (holder.slots ++ s.rest k) :=
  hv.owns.congr fun _ => (State.count_eq hk).symm

theorem Valid.builder {array : List Slot} {prepared : Bool} (hv : Valid s)
    (hk : s.holders[k]? = some (.builder array prepared)) : Owns s.values (array ++ s.rest k) :=
  hv.at hk

theorem Valid.valid_at (hv : Valid s) (hk : s.holders[k]? = some holder) : holder.Valid :=
  hv.holders _ (List.mem_of_getElem? hk)

-- What stays where it is looks the same.
theorem Valid.view_eq (hv : Valid s) (hv' : Valid s') (hk : Keeps s.values s'.values)
    (heq : (s'.holders[j]?).map Holder.slots = (s.holders[j]?).map Holder.slots) : s'.view j = s.view j := by
  cases hj : s.holders[j]?
  case none =>
    have hj' : s'.holders[j]? = none := by simpa [hj] using heq
    simp [State.view, hj, hj']
  case some holder =>
    obtain ⟨holder', hj', hslots⟩ : ∃ holder', s'.holders[j]? = some holder' ∧ holder'.slots = holder.slots := by
      simpa [hj] using heq
    have hmap := hk.map_see_eq hv.owns hv'.owns (State.slots_subset hj) (hslots ▸ State.slots_subset hj')
    simp [State.view, hj, hj', hslots, hmap]

-- Nothing changes but what is written to, and a set that is still referred to not even then.
structure Safely (s : State) (target : Option Nat) (s' : State) : Prop where
  valid      : Valid s'
  keeps      : Keeps s.values s'.values
  others     : ∀ j, j < s.holders.length → target ≠ some j → s'.view j = s.view j
  referenced : ∀ j data refs references, j < s.holders.length →
    s'.holders[j]? = some (.attributes data refs references) → 0 < references → s'.view j = s.view j

theorem Valid.set (hv : Valid s) (holder' : Holder) (tail : List Holder) (hk : s.holders[k]? = some holder)
    (ho : Owns h' (holder'.slots ++ (tail.flatMap Holder.slots ++ s.rest k))) (hkeeps : Keeps s.values h')
    (hvalid : ∀ a ∈ holder' :: tail, a.Valid)
    (href : ∀ data refs references, holder' = .attributes data refs references → 0 < references →
      data = holder.slots) : Safely s (some k) ⟨h', s.holders.set k holder' ++ tail⟩ := by
  have hlt := List.getElem?_eq_some_iff.mp hk |>.choose
  have hv' : Valid ⟨h', s.holders.set k holder' ++ tail⟩ := by
    refine ⟨ho.congr fun _ => State.count_set holder' tail hk, fun a ha => ?_⟩
    obtain ha | ha := List.mem_append.mp ha
    · obtain ha | rfl := List.mem_or_eq_of_mem_set ha
      · exact hv.holders a ha
      · exact hvalid _ List.mem_cons_self
    · exact hvalid a (List.mem_cons_of_mem _ ha)
  have hget : ∀ j, j < s.holders.length → k ≠ j → (s.holders.set k holder' ++ tail)[j]? = s.holders[j]? := by
    rintro j hj hne
    rw [List.getElem?_append_left (by simpa using hj), List.getElem?_set_ne hne]
  have hothers : ∀ j, j < s.holders.length → some k ≠ some j →
      State.view ⟨h', s.holders.set k holder' ++ tail⟩ j = s.view j := fun j hj hne =>
    hv.view_eq hv' hkeeps (congrArg _ (hget j hj fun heq => hne (congrArg some heq)))
  refine ⟨hv', hkeeps, hothers, fun j data refs references hj hattributes hpos => ?_⟩
  by_cases hne : k = j
  case neg => exact hothers j hj (by simpa using hne)
  case pos =>
    subst hne
    have hself : (s.holders.set k holder' ++ tail)[k]? = some holder' := by
      rw [List.getElem?_append_left (by simpa using hlt)]
      simp [hlt]
    have heq : holder' = .attributes data refs references := Option.some.inj (hself.symm.trans hattributes)
    refine hv.view_eq hv' hkeeps ?_
    have hdata := href data refs references heq hpos
    show ((s.holders.set k holder' ++ tail)[k]?).map Holder.slots = _
    rw [hself, hk, heq]
    exact congrArg some hdata

theorem Valid.put (hv : Valid s) (holder' : Holder) (hk : s.holders[k]? = some holder)
    (ho : Owns h' (holder'.slots ++ s.rest k)) (hkeeps : Keeps s.values h') (hvalid : holder'.Valid)
    (href : ∀ data refs references, holder' = .attributes data refs references → 0 < references →
      data = holder.slots) : Safely s (some k) ⟨h', s.holders.set k holder'⟩ := by
  have hs := hv.set holder' [] hk ho hkeeps (by simpa using hvalid) href
  rwa [List.append_nil] at hs

theorem Valid.append (hv : Valid s) (tail : List Holder) (ho : Owns h' (tail.flatMap Holder.slots ++ s.slots)) (hkeeps : Keeps s.values h')
    (hvalid : ∀ a ∈ tail, a.Valid) : Safely s none ⟨h', s.holders ++ tail⟩ := by
  have hv' : Valid ⟨h', s.holders ++ tail⟩ := by
    refine ⟨ho.congr fun v => ?_, fun a ha => ?_⟩
    · simp only [State.slots, List.flatMap_append, count_append]
      omega
    · obtain ha | ha := List.mem_append.mp ha
      · exact hv.holders a ha
      · exact hvalid a ha
  have hothers : ∀ j, j < s.holders.length → State.view ⟨h', s.holders ++ tail⟩ j = s.view j := fun j hj =>
    hv.view_eq hv' hkeeps (congrArg _ (List.getElem?_append_left hj))
  exact ⟨hv', hkeeps, fun j hj _ => hothers j hj, fun j _ _ _ hj _ _ => hothers j hj⟩

-- What an event does.
def Does (s : State) (e : Event) (s' : State) : Prop :=
  Valid s' ∧ Effect s e s'

theorem Safely.does (hs : Safely s e.target s') (hadd : ∀ k type data, e ≠ .addData k type data)
    (hcopy : ∀ k j i moved, e ≠ .addAttribute k j i moved) (hset : ∀ k type data, e ≠ .setData k type data) :
    Does s e s' where
  left  := hs.valid
  right :=
    { others     := hs.others
      referenced := hs.referenced
      added      := fun k type data heq => absurd heq (hadd k type data)
      copied     := fun k j i moved heq => absurd heq (hcopy k j i moved)
      set        := fun k type data heq => absurd heq (hset k type data) }

theorem builder_all {p : State → Prop} {g : List Slot → Outcome State}
    (hg : ∀ array prepared, s.holders[k]? = some (.builder array prepared) → (g array).All p) :
    (s.builder k g).All p := by
  unfold State.builder
  split
  case h_1 array prepared hk => exact hg array prepared hk
  case h_2 => exact .refused

theorem attributes_all {p : State → Prop} {g : List Slot → Outcome State}
    (hg : ∀ data refs references, s.holders[j]? = some (.attributes data refs references) → (g data).All p) :
    (s.attributes j g).All p := by
  unfold State.attributes
  split
  case h_1 data refs references hj =>
    split
    · exact hg data refs references hj
    · exact .refused
  case h_2 => exact .refused

-- A builder with a new array.
theorem Valid.built (hv : Valid s) (array : List Slot) (hk : s.holders[k]? = some holder)
    (ho : Owns h' (array ++ s.rest k)) (hkeeps : Keeps s.values h') :
    s.built k (some (array, h')) = .ok ⟨h', s.holders.set k (.builder array false)⟩ ∧
      Safely s (some k) ⟨h', s.holders.set k (.builder array false)⟩ :=
  ⟨rfl, hv.put (.builder array false) hk ho hkeeps (by simp [Holder.Valid]) (by simp)⟩

theorem built_view {array : List Slot} (hk : s.holders[k]? = some holder) :
    State.view ⟨h', s.holders.set k (.builder array false)⟩ k = some (array.map (see h')) := by
  obtain ⟨hlt, _⟩ := List.getElem?_eq_some_iff.mp hk
  simp [State.view, hlt, Holder.slots]

theorem view_eq_of_get (hk : s.holders[k]? = some holder) : s.view k = some (holder.slots.map (see s.values)) := by
  simp [State.view, hk]

theorem addData_all {type : Nat} {data : Data} (hv : Valid s) (hg : data.Given s.values) :
    (after s (.addData k type data)).All (Does s (.addData k type data)) := by
  refine builder_all fun array prepared hk => ?_
  have ho : Owns s.values ((array ++ [(⟨type, none, 0⟩ : Slot)]) ++ s.rest k) :=
    (hv.builder hk).congr fun v => by simp [count_append, count_cons]
  have hplace : (array ++ [(⟨type, none, 0⟩ : Slot)])[array.length]? = some ⟨type, none, 0⟩ := by simp
  obtain ⟨slot, h', hfill, _, ho', hkeeps, hsee⟩ := fill_owns type ho hplace rfl hg
  have hlast : (array ++ [(⟨type, none, 0⟩ : Slot)]).set array.length slot = array ++ [slot] := by simp
  rw [hlast] at hfill ho'
  obtain ⟨hbuilt, hs⟩ := hv.built _ hk ho' hkeeps
  have hothers : array.map (see h') = array.map (see s.values) :=
    hkeeps.map_see_eq (hv.builder hk) ho' (List.subset_append_left _ _)
      fun _ hattr => List.mem_append_left _ (List.mem_append_left _ hattr)
  rw [gckBuilderAddData, builderPush, hfill, hbuilt]
  refine .ok ⟨hs.valid, hs.others, hs.referenced, fun k' type' data' heq => ?_, by simp, by simp⟩
  obtain ⟨rfl, rfl, rfl⟩ := Event.addData.inj heq
  simp [built_view hk, view_eq_of_get hk, Holder.slots, hothers, hsee]

theorem addAttribute_all {i : Nat} {moved : Bool} (hv : Valid s) (hr : Regular s (.addAttribute k j i moved)) :
    (after s (.addAttribute k j i moved)).All (Does s (.addAttribute k j i moved)) := by
  refine builder_all fun array prepared hk => ?_
  split
  case h_1 => exact .refused
  case h_2 attr hslot =>
    have hmoves : ¬(k = j ∧ moved = true) := by
      rintro ⟨rfl, rfl⟩
      simpa using hr.moves k k i
    obtain ⟨holder, hj, hi⟩ : ∃ holder, s.holders[j]? = some holder ∧ holder.slots[i]? = some attr := by
      simpa [State.slot, Option.bind_eq_some_iff] using hslot
    have hmem : attr ∈ s.rest k ∨ false = false ∧ attr ∈ array := by
      by_cases hne : j = k
      case neg => exact .inl (State.slots_subset_rest hj hne (List.mem_of_getElem? hi))
      case pos =>
        subst hne
        obtain rfl := Option.some.inj (hk.symm.trans hj)
        exact .inr ⟨rfl, List.mem_of_getElem? hi⟩
    have hlt : ∀ v, count (array ++ s.rest k) v + count [attr] v < 0x80000000 := fun v => by
      have hshares := hr.shares v
      simp only [Event.copied, hslot, Option.toList_some] at hshares
      have hcount : s.count v = count (array ++ s.rest k) v := State.count_eq hk
      exact hcount ▸ hshares
    obtain ⟨array', h', hcopy, ho', hkeeps, _, hadded⟩ := builderCopy_owns false (hv.builder hk) hmem hlt
    obtain ⟨copy, rfl, hsee⟩ := hadded rfl
    obtain ⟨hbuilt, hs⟩ := hv.built _ hk ho' hkeeps
    have hothers : array.map (see h') = array.map (see s.values) :=
      hkeeps.map_see_eq (hv.builder hk) ho' (List.subset_append_left _ _)
        fun _ hattr => List.mem_append_left _ (List.mem_append_left _ hattr)
    rw [if_neg hmoves, hcopy, hbuilt]
    refine .ok ⟨hs.valid, hs.others, hs.referenced, by simp, fun k' j' i' moved' heq => ?_, by simp⟩
    obtain ⟨rfl, rfl, rfl, rfl⟩ := Event.addAttribute.inj heq
    simp [built_view hk, view_eq_of_get hk, Holder.slots, hothers, hsee, hslot]

-- The value that goes away is not the one that the memory is in.
theorem Data.Given.cleared {type i : Nat} {data : Data} {array array' : List Slot} {prepared : Bool} (hv : Valid s)
    (hg : data.Given s.values) (hr : Regular s (.setData k type data))
    (hk : s.holders[k]? = some (.builder array prepared)) (hc : Cleared type array i array')
    (ho : Owns h' (array' ++ s.rest k)) (hkeeps : Keeps s.values h') :
    data.Given h' ∧ data.seen h' type = data.seen s.values type := by
  by_cases hlength : data.length = gMaxulong
  case pos => exact ⟨fun hne => absurd hlength hne, by simp [Data.seen, hlength]⟩
  case neg =>
    have hread : data.memory ≠ .null → data.memory.read h' = data.memory.read s.values := by
      intro hnull
      refine hkeeps.read fun v offset length hmemory => ?_
      have hsome := hg hlength hnull
      rw [hmemory] at hsome
      have halive : (s.values.cells v).isSome := by
        cases hcell : s.values.cells v
        case none   => simp [Memory.read, hcell] at hsome
        case some _ => rfl
      have hpos : 0 < s.count v := (hv.shared.freed v).mp halive
      have hcount : s.count v = count array v + count (s.rest k) v :=
        (State.count_eq hk).trans count_append
      have hcleared := hc.count_eq v
      have hpos' : 0 < count (array' ++ s.rest k) v := by
        rw [count_append]
        cases hfind : array.find? (·.type = type)
        case none =>
          simp only [hfind, Option.toList_none, count_nil] at hcleared
          omega
        case some attr =>
          simp only [hfind, Option.toList_some, count_singleton] at hcleared
          by_cases hvalue : attr.value = some v
          case neg =>
            simp only [hvalue, if_false] at hcleared
            omega
          case pos =>
            simp only [hvalue, if_true] at hcleared
            have hvalid : data.invalid = false := by
              cases hinvalid : data.invalid
              case false => rfl
              case true  => simp [Data.length, hinvalid] at hlength
            have hne := hr.apart k type data array prepared attr v offset length rfl hk hfind hvalue hmemory hvalid
            omega
      obtain ⟨cell, hcell, _⟩ := Counts.exists_cell ho hpos'
      exact ⟨Counts.lt_next hv.owns hpos, by simp [hcell]⟩
    refine ⟨fun _ hnull => hread hnull ▸ hg hlength hnull, ?_⟩
    cases hmemory : data.memory
    case null => simp [Data.seen, hmemory]
    case own  => simp [Data.seen, hmemory, Memory.read]
    case inValue =>
      have hread := hread (by simp [hmemory])
      rw [hmemory] at hread
      simp [Data.seen, hmemory, hread]

theorem setData_all {type : Nat} {data : Data} (hv : Valid s) (hg : data.Given s.values)
    (hr : Regular s (.setData k type data)) :
    (after s (.setData k type data)).All (Does s (.setData k type data)) := by
  refine builder_all fun array prepared hk => ?_
  obtain ⟨i, array₁, h₁, hclear, hcleared, ho₁, hk₁⟩ := builderClearOrPush_owns (hv.builder hk) type
  obtain ⟨hg₁, hseen⟩ := hg.cleared hv hr hk hcleared ho₁ hk₁
  obtain ⟨slot, h₂, hfill, htype, ho₂, hk₂, hsee⟩ := fill_owns type ho₁ hcleared.getElem? rfl hg₁
  have hkeeps := hk₁.trans hk₂
  obtain ⟨hbuilt, hs⟩ := hv.built _ hk ho₂ hkeeps
  have hset : (array₁.set i slot).map (see h₂) = setFirst (see h₂ slot) (array.map (see s.values)) :=
    hcleared.map_set (fun _ => rfl) (fun _ => rfl) htype fun a ha ha' =>
      hkeeps.see_eq (hv.builder hk) ho₂ (List.mem_append_left _ ha) (List.mem_append_left _ ha')
  rw [gckBuilderSetData, hclear]
  dsimp only
  rw [hfill, hbuilt]
  refine .ok ⟨hs.valid, hs.others, hs.referenced, by simp, by simp, fun k' type' data' heq => ?_⟩
  obtain ⟨rfl, rfl, rfl⟩ := Event.setData.inj heq
  simp only [built_view hk, view_eq_of_get hk, Holder.slots, hset, hsee, hseen, Option.map_some]

-- The events that copy attributes of a set to a builder.
theorem copies_all {f : List Slot → List Slot} (performingSet : Bool) (hv : Valid s) (hr : Regular s e)
    (hf : ∀ data, f data ⊆ data) (htarget : e.target = some k)
    (hcopied : e.copied s = f (((s.holders[j]?).map Holder.slots).getD []))
    (hadd : ∀ k type data, e ≠ .addData k type data) (hcopy : ∀ k j i moved, e ≠ .addAttribute k j i moved)
    (hset : ∀ k type data, e ≠ .setData k type data) :
    (s.builder k fun array => s.attributes j fun data => s.built k (copyAll performingSet s.values array (f data))).All
      (Does s e) := by
  refine builder_all fun array prepared hk => attributes_all fun data refs references hj => ?_
  have hne : j ≠ k := by
    rintro rfl
    simp [hk] at hj
  have hsub : f data ⊆ s.rest k := fun _ hattr => State.slots_subset_rest hj hne (hf data hattr)
  have hlt : ∀ v, count (array ++ s.rest k) v + count (f data) v < 0x80000000 := fun v => by
    have hshares := hr.shares v
    rw [hcopied, hj] at hshares
    have hcount : s.count v = count (array ++ s.rest k) v := State.count_eq hk
    exact hcount ▸ hshares
  obtain ⟨array', h', hall, ho', hkeeps⟩ := copyAll_owns performingSet (hv.builder hk) hsub hlt
  obtain ⟨hbuilt, hs⟩ := hv.built _ hk ho' hkeeps
  rw [hall, hbuilt]
  exact .ok ((htarget ▸ hs : Safely s e.target _).does hadd hcopy hset)

theorem only_subset {types : List Nat} (data : List Slot) : only types data ⊆ data := by
  intro attr hattr
  obtain ⟨a, ha, hmap⟩ := List.mem_flatMap.mp hattr
  obtain ⟨_, _, rfl⟩ := List.mem_map.mp hmap
  exact ha

theorem copy_all (hv : Valid s) (hr : Regular s (.copy k)) : (after s (.copy k)).All (Does s (.copy k)) := by
  refine builder_all fun array prepared hk => ?_
  have hlt : ∀ v, count ([] ++ s.slots) v + count array v < 0x80000000 := fun v => by
    have hshares := hr.shares v
    simp only [Event.copied, hk, Option.map_some, Option.getD_some, Holder.slots] at hshares
    exact hshares
  obtain ⟨copied, h', hall, ho', hkeeps⟩ := copyAll_owns false hv.owns (State.slots_subset hk) hlt
  have hs := hv.append [.builder copied false] (by simpa [Holder.slots] using ho') hkeeps (by simp [Holder.Valid])
  simp only [Holder.slots] at hall
  rw [hall]
  exact .ok (hs.does (by simp) (by simp) (by simp))

theorem clear_all (hv : Valid s) : (after s (.clear k)).All (Does s (.clear k)) := by
  refine builder_all fun array prepared hk => ?_
  obtain ⟨h', hunref, ho', hkeeps⟩ := unrefAll_owns (hv.builder hk)
  obtain ⟨hbuilt, hs⟩ := hv.built [] hk ho' hkeeps
  rw [hunref, Option.map_some, hbuilt]
  exact .ok (hs.does (by simp) (by simp) (by simp))

theorem finish_all (hv : Valid s) : (after s (.finish k)).All (Does s (.finish k)) := by
  refine builder_all fun array prepared hk => ?_
  have hs := hv.set (.builder [] false) [.attributes array 1 1] hk
    (by simpa [Holder.slots] using hv.builder hk) .refl (by simp [Holder.Valid, Int.bmod]) (by simp)
  exact .ok (hs.does (by simp) (by simp) (by simp))

theorem prepareIn_all {lengths : List Nat} (hv : Valid s) :
    (after s (.prepareIn k lengths)).All (Does s (.prepareIn k lengths)) := by
  refine builder_all fun array prepared hk => ?_
  obtain ⟨h', hunref, ho', hkeeps⟩ := unrefAll_owns (hv.builder hk)
  have ho : Owns h' (prepareIn lengths array ++ s.rest k) := ho'.congr fun v => by
    rw [count_append, count_of_valueless prepareIn_value, Nat.zero_add]
  have hs := hv.put (.builder (prepareIn lengths array) true) hk ho hkeeps (fun _ => prepareIn_value) (by simp)
  rw [hunref]
  exact .ok (hs.does (by simp) (by simp) (by simp))

theorem commitIn_all {answers : List Answer} (hv : Valid s) :
    (after s (.commitIn k answers)).All (Does s (.commitIn k answers)) := by
  simp only [after]
  split
  case h_1 array hk =>
    have hvalueless : ∀ attr ∈ array, attr.value = none := hv.valid_at hk rfl
    have ho : Owns s.values (s.rest k) := (hv.builder hk).congr fun v => by
      rw [count_append, count_of_valueless hvalueless, Nat.zero_add]
    obtain ⟨ho', hkeeps⟩ := commitIn_owns ho array answers
    obtain ⟨hbuilt, hs⟩ := hv.built _ hk ho' hkeeps
    rw [hbuilt]
    exact .ok (hs.does (by simp) (by simp) (by simp))
  case h_2 => exact .refused

theorem ref_all (hv : Valid s) (hr : Regular s (.ref j)) : (after s (.ref j)).All (Does s (.ref j)) := by
  simp only [after]
  split
  case h_1 data refs references hj =>
    split
    case isFalse => exact .refused
    case isTrue hpos =>
      obtain ⟨hrefs, _, _⟩ : (Holder.attributes data refs references).Valid := hv.valid_at hj
      have hlt := hr.refs j data refs references rfl hj
      have hadd : gAtomicIntAdd refs 1 = ((references + 1 : Nat) : Int).bmod 0x100000000 := by
        rw [gAtomicIntAdd, hrefs, Int.bmod_add_bmod]
        rfl
      have hs := hv.put (.attributes data (gAtomicIntAdd refs 1) (references + 1)) hj (hv.at hj : Owns _ (data ++ _))
        .refl ⟨hadd, hlt, by simp⟩ (by simp [Holder.slots])
      have hothers : ∀ i, i < s.holders.length → State.view
          ⟨s.values, s.holders.set j (.attributes data (gAtomicIntAdd refs 1) (references + 1))⟩ i = s.view i := by
        intro i hi
        by_cases hne : j = i
        case neg => exact hs.others i hi (by simpa using hne)
        case pos =>
          subst hne
          exact hs.referenced j data (gAtomicIntAdd refs 1) (references + 1) hi (by simp [hi]) (Nat.succ_pos _)
      exact .ok ⟨hs.valid, fun i hi _ => hothers i hi, hs.referenced, by simp, by simp, by simp⟩
  case h_2 => exact .refused

theorem unref_all (hv : Valid s) : (after s (.unref j)).All (Does s (.unref j)) := by
  simp only [after]
  split
  case h_1 data refs references hj =>
    obtain ⟨hrefs, hle, _⟩ : (Holder.attributes data refs references).Valid := hv.valid_at hj
    have hadd : 0 < references → gAtomicIntAdd refs (-1) = ((references - 1 : Nat) : Int).bmod 0x100000000 := by
      intro hpos
      rw [gAtomicIntAdd, hrefs, Int.bmod_add_bmod, Int.ofNat_sub hpos]
      rfl
    split
    case isFalse => exact .refused
    case isTrue hpos =>
      split
      case isTrue hzero =>
        have hone : references - 1 = 0 := by
          rw [hadd hpos, Int.bmod_def] at hzero
          omega
        have hdata : Owns s.values (data ++ s.rest j) := hv.at hj
        obtain ⟨h', hunref, ho', hkeeps⟩ := unrefAll_owns hdata
        have hs := hv.put (.attributes [] 0 (references - 1)) hj ho' hkeeps (by simp [Holder.Valid, hone]) (by simp [hone])
        rw [hunref]
        exact .ok (hs.does (by simp) (by simp) (by simp))
      case isFalse hne =>
        have hmore : references - 1 ≠ 0 := by
          rintro hzero
          rw [hadd hpos, hzero] at hne
          exact hne rfl
        have hs := hv.put (.attributes data (gAtomicIntAdd refs (-1)) (references - 1)) hj
          (hv.at hj : Owns _ (data ++ _)) .refl ⟨hadd hpos, by omega, fun hzero => absurd hzero hmore⟩
          (by simp [Holder.slots])
        exact .ok (hs.does (by simp) (by simp) (by simp))
  case h_2 => exact .refused

theorem init_all {type : Nat} {data : Data} (hv : Valid s) (hg : data.Given s.values) :
    (after s (.init type data)).All (Does s (.init type data)) := by
  have ho : Owns s.values ([(⟨type, none, 0⟩ : Slot)] ++ s.slots) := (Owns.cons_of_none rfl).mpr hv.owns
  obtain ⟨slot, h', hfill, _, ho', hkeeps, _⟩ := fill_owns type (i := 0) ho rfl rfl hg
  have hs := hv.append [.attribute slot] (by simpa [Holder.slots] using ho') hkeeps (by simp [Holder.Valid])
  simp only [after, hfill]
  exact .ok (hs.does (by simp) (by simp) (by simp))

theorem initCopy_all {i : Nat} (hv : Valid s) (hr : Regular s (.initCopy j i)) :
    (after s (.initCopy j i)).All (Does s (.initCopy j i)) := by
  simp only [after]
  split
  case h_1 => exact .refused
  case h_2 attr hslot =>
    obtain ⟨holder, hj, hi⟩ : ∃ holder, s.holders[j]? = some holder ∧ holder.slots[i]? = some attr := by
      simpa [State.slot, Option.bind_eq_some_iff] using hslot
    have hmem : attr ∈ s.slots := State.slots_subset hj (List.mem_of_getElem? hi)
    have hlt : ∀ v, count s.slots v + count [attr] v < 0x80000000 := fun v => by
      have hshares := hr.shares v
      simp only [Event.copied, hslot, Option.toList_some] at hshares
      exact hshares
    obtain ⟨copy, h', hshare, ho', hkeeps, _⟩ := shareValue_owns hv.owns hmem hlt
    have hs := hv.append [.attribute copy] ho' hkeeps (by simp [Holder.Valid])
    rw [hshare]
    exact .ok (hs.does (by simp) (by simp) (by simp))

theorem clearAttribute_all (hv : Valid s) : (after s (.clearAttribute j)).All (Does s (.clearAttribute j)) := by
  simp only [after]
  split
  case h_1 attr hj =>
    obtain ⟨h', hclear, ho', hkeeps⟩ := builderClear_owns (hv.at hj)
    have hs := hv.put (.attribute ⟨attr.type, none, 0⟩) hj ((Owns.cons_of_none rfl).mpr ho') hkeeps
      (by simp [Holder.Valid]) (by simp)
    rw [hclear]
    exact .ok (hs.does (by simp) (by simp) (by simp))
  case h_2 => exact .refused

theorem builderInit_all (hv : Valid s) : (after s .builderInit).All (Does s .builderInit) := by
  have hs := hv.append [.builder [] false] hv.owns .refl (by simp [Holder.Valid])
  exact .ok (hs.does (by simp) (by simp) (by simp))

theorem except_subset {types : List Nat} (data : List Slot) : except types data ⊆ data :=
  List.filter_subset_self _

theorem after_all (hv : Valid s) (hg : e.Given s) (hr : Regular s e) : (after s e).All (Does s e) := by
  cases e
  case builderInit    => exact builderInit_all hv
  case addData        => exact addData_all hv hg
  case setData        => exact setData_all hv hg hr
  case addAttribute   => exact addAttribute_all hv hr
  case copy           => exact copy_all hv hr
  case addAll         => exact copies_all false hv hr List.Subset.refl rfl rfl (by simp) (by simp) (by simp)
  case addOnlyv       => exact copies_all false hv hr only_subset rfl rfl (by simp) (by simp) (by simp)
  case addExceptv     => exact copies_all false hv hr except_subset rfl rfl (by simp) (by simp) (by simp)
  case setAll         => exact copies_all true hv hr List.Subset.refl rfl rfl (by simp) (by simp) (by simp)
  case clear          => exact clear_all hv
  case finish         => exact finish_all hv
  case prepareIn      => exact prepareIn_all hv
  case commitIn       => exact commitIn_all hv
  case ref            => exact ref_all hv hr
  case unref          => exact unref_all hv
  case init           => exact init_all hv hg
  case initCopy       => exact initCopy_all hv hr
  case clearAttribute => exact clearAttribute_all hv

theorem Step.does (hv : Valid s) (hs : Step s e s') (hr : Regular s e) : Does s e s' :=
  (Outcome.all_iff.mp (after_all hv hs.1 hr)).2 s' hs.2

theorem valid_init : ∀ s : State, s = {} → Valid s := by
  rintro _ rfl
  refine ⟨⟨by simp, fun _ _ => rfl, fun _ _ => rfl, fun _ => ?_⟩, by simp⟩
  simp [State.slots]

variable {ts : List (State × Event × State)}

-- As long as the memory that an attribute is set from is not that of its own value, and the counters do not overflow,
-- values are shared safely.
theorem Run.shared_of_regular (hrun : Run ts s) (hregular : ∀ t ∈ ts, Regular t.1 t.2.1) :
    Shared s ∧ (∀ t ∈ ts, Effect t.1 t.2.1 t.2.2) ∧ ∀ e, e.Given s → Regular s e → Kept s e := by
  have hr := Transition.Run.restrict hrun hregular
  have hstep : ∀ s e s', Valid s → Step s e s' ∧ Regular s e → Valid s' := fun _ _ _ hv hs => (hs.1.does hv hs.2).1
  have hv : Valid s := hr.invariant valid_init hstep
  refine ⟨hv.shared, hr.forall_step valid_init hstep fun _ _ _ hv hs => (hs.1.does hv hs.2).2, fun e hg he => ?_⟩
  obtain ⟨hne, hdoes⟩ := Outcome.all_iff.mp (after_all hv hg he)
  exact ⟨hne, fun s' hafter => ⟨(hdoes s' hafter).1.shared, (hdoes s' hafter).2⟩⟩

-- A builder with one attribute.
def oneData : State :=
  ⟨{ cells := Function.update (fun _ => none) 0 (some ⟨1, [5]⟩), next := 1 }, [.builder [⟨0, some 0, 1⟩] false]⟩

def oneDataSteps : List (State × Event × State) :=
  [(⟨{}, [.builder [] false]⟩, .addData 0 0 ⟨.own [5], false⟩, oneData), ({}, .builderInit, ⟨{}, [.builder [] false]⟩)]

theorem run_oneData : Run oneDataSteps oneData := by
  refine .step (.step (.start rfl) ⟨trivial, rfl⟩) ⟨fun _ _ => rfl, rfl⟩

-- The attribute is set from its own value, which is freed before it is copied.
theorem Run.not_shared : ¬∀ ts s, Run ts s →
    Shared s ∧ (∀ t ∈ ts, Effect t.1 t.2.1 t.2.2) ∧ ∀ e, e.Given s → Kept s e := by
  intro h
  obtain ⟨_, _, hkept⟩ := h _ _ run_oneData
  exact (hkept (.setData 0 0 ⟨.inValue 0 0 1, false⟩) (fun _ _ => rfl)).1 rfl

-- Its value is shared with a copy, and then it gets another one.
def copied : State :=
  ⟨oneData.values.put 0 (some ⟨2, [5]⟩), oneData.holders ++ oneData.holders⟩

def changed : State :=
  ⟨{ (copied.values.put 0 (some ⟨1, [5]⟩)).put 1 (some ⟨1, [7]⟩) with next := 2 },
    [.builder [⟨0, some 1, 1⟩] false, .builder [⟨0, some 0, 1⟩] false]⟩

def changedSteps : List (State × Event × State) :=
  (copied, .setData 0 0 ⟨.own [7], false⟩, changed) :: (oneData, .copy 0, copied) :: oneDataSteps

theorem Run.shared_of_regular_changed :
    Shared changed ∧ (∀ t ∈ changedSteps, Effect t.1 t.2.1 t.2.2) ∧
      ∀ e, e.Given changed → Regular changed e → Kept changed e := by
  refine Run.shared_of_regular (.step (.step run_oneData ⟨trivial, rfl⟩) ⟨fun _ _ => rfl, rfl⟩) ?_
  have hshares {s : State} {e : Event} (h : (s.slots ++ e.copied s).length < 0x80000000) (v : Nat) :
      s.count v + (e.copied s).countP (·.value = some v) < 0x80000000 := by
    rw [State.count, ← List.countP_append]
    exact Nat.lt_of_le_of_lt List.countP_le_length h
  simp only [changedSteps, oneDataSteps, List.forall_mem_cons]
  refine ⟨⟨?_, by simp, hshares (by decide), by simp⟩, ⟨by simp, by simp, hshares (by decide), by simp⟩,
    ⟨by simp, by simp, hshares (by decide), by simp⟩, ⟨by simp, by simp, hshares (by decide), by simp⟩, List.forall_mem_nil _⟩
  rintro _ _ _ _ _ _ _ _ _ ⟨⟩ _ _ _ ⟨⟩

end Builder
