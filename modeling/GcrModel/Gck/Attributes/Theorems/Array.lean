import GcrModel.Gck.Attributes.Builder

namespace Builder

variable {h h' h'' : Values} {c c' : Nat → Nat} {v w : Nat} {attr : Slot}

-- The counters are those that `c` says.
structure Counts (h : Values) (c : Nat → Nat) : Prop where
  alive : ∀ v cell, h.cells v = some cell → cell.refs = c v ∧ 0 < c v
  freed : ∀ v, h.cells v = none → c v = 0
  fresh : ∀ v, h.next ≤ v → h.cells v = none
  small : ∀ v, c v < 0x80000000

theorem Counts.congr (hc : Counts h c) (heq : ∀ v, c' v = c v) : Counts h c' := by
  obtain rfl : c' = c := funext heq
  exact hc

theorem Counts.exists_cell (hc : Counts h c) (hv : 0 < c v) : ∃ cell, h.cells v = some cell ∧ cell.refs = c v := by
  cases hcell : h.cells v
  case none      => exact absurd (hc.freed v hcell) (by omega)
  case some cell => exact ⟨cell, rfl, (hc.alive v cell hcell).1⟩

theorem Counts.next (hc : Counts h c) : c h.next = 0 :=
  hc.freed _ (hc.fresh _ (Nat.le_refl _))

theorem Counts.lt_next (hc : Counts h c) (hv : 0 < c v) : v < h.next := by
  by_contra hn
  exact absurd (hc.freed v (hc.fresh v (by omega))) (by omega)

-- What is not freed has the bytes that it had.
structure Keeps (h h' : Values) : Prop where
  next_le : h.next ≤ h'.next
  bytes   : ∀ v cell', v < h.next → h'.cells v = some cell' → ∃ cell, h.cells v = some cell ∧ cell.bytes = cell'.bytes

theorem Keeps.refl : Keeps h h :=
  ⟨Nat.le_refl _, fun _ cell _ hcell => ⟨cell, hcell, rfl⟩⟩

theorem Keeps.trans (hk : Keeps h h') (hk' : Keeps h' h'') : Keeps h h'' where
  next_le := Nat.le_trans hk.next_le hk'.next_le
  bytes   := fun v cell' hv hcell => by
    obtain ⟨cell, hcell, heq⟩ := hk'.bytes v cell' (Nat.lt_of_lt_of_le hv hk.next_le) hcell
    obtain ⟨cell₀, hcell₀, heq₀⟩ := hk.bytes v cell hv hcell
    exact ⟨cell₀, hcell₀, heq₀.trans heq⟩

theorem Keeps.see (hk : Keeps h h') (hc : Counts h c) (hc' : Counts h' c')
    (hv : ∀ v, attr.value = some v → 0 < c v ∧ 0 < c' v) : see h' attr = see h attr := by
  cases hvalue : attr.value
  case none => simp [Builder.see, hvalue]
  case some v =>
    obtain ⟨hpos, hpos'⟩ := hv v hvalue
    obtain ⟨cell', hcell', _⟩ := hc'.exists_cell hpos'
    obtain ⟨cell, hcell, heq⟩ := hk.bytes v cell' (hc.lt_next hpos) hcell'
    simp [Builder.see, hvalue, hcell, hcell', heq]

theorem put_of_ne {cell : Option Value} (hw : w ≠ v) : (h.put v cell).cells w = h.cells w :=
  Function.update_of_ne hw _ _

@[simp]
theorem put_self {cell : Option Value} : (h.put v cell).cells v = cell :=
  Function.update_self _ _ _

theorem valueNew_counts (hc : Counts h c) (data : GLib.Bytes) :
    Counts (valueNew h data).2 (Function.update c h.next 1) ∧ Keeps h (valueNew h data).2 ∧
      (valueNew h data).2.cells h.next = some ⟨1, data⟩ := by
  have hself : (valueNew h data).2.cells h.next = some ⟨1, data⟩ := put_self
  have hne : ∀ {w}, w ≠ h.next → (valueNew h data).2.cells w = h.cells w := fun hw => put_of_ne hw
  refine ⟨⟨fun w cell hcell => ?_, fun w hcell => ?_, fun w hw => ?_, fun w => ?_⟩, ⟨Nat.le_succ _, ?_⟩, hself⟩
  · by_cases hw : w = h.next
    case pos =>
      subst hw
      obtain rfl := Option.some.inj (hself.symm.trans hcell)
      simp
    case neg =>
      rw [Function.update_of_ne hw]
      exact hc.alive w cell ((hne hw).symm.trans hcell)
  · by_cases hw : w = h.next
    case pos =>
      subst hw
      exact absurd (hself.symm.trans hcell) (by simp)
    case neg =>
      rw [Function.update_of_ne hw]
      exact hc.freed w ((hne hw).symm.trans hcell)
  · have hw' : h.next < w := hw
    rw [hne (by omega)]
    exact hc.fresh w (by omega)
  · rw [Function.update_apply]
    split
    · decide
    · exact hc.small w
  · intro w cell' hw hcell
    rw [hne (by omega)] at hcell
    exact ⟨cell', hcell, rfl⟩

theorem gAtomicIntAdd_of_lt {n : Nat} {m : Int} (h₁ : 0 ≤ n + m) (h₂ : n + m < 0x80000000) :
    gAtomicIntAdd n m = n + m :=
  Int.bmod_eq_of_le (by omega) (by omega)

-- A counter that changes, where the value is not freed.
theorem put_counts {cell : Value} {n : Nat} (hc : Counts h c) (hcell : h.cells v = some cell) (hn : 0 < n)
    (hlt : n < 0x80000000) :
    Counts (h.put v (some { cell with refs := n })) (Function.update c v n) ∧
      Keeps h (h.put v (some { cell with refs := n })) := by
  refine ⟨⟨fun w cell' hcell' => ?_, fun w hcell' => ?_, fun w hw => ?_, fun w => ?_⟩, Nat.le_refl _, ?_⟩
  · by_cases hw : w = v
    case pos =>
      subst hw
      obtain rfl := Option.some.inj (put_self.symm.trans hcell')
      simp [hn]
    case neg =>
      rw [Function.update_of_ne hw]
      exact hc.alive w cell' ((put_of_ne hw).symm.trans hcell')
  · by_cases hw : w = v
    case pos =>
      subst hw
      exact absurd (put_self.symm.trans hcell') (by simp)
    case neg =>
      rw [Function.update_of_ne hw]
      exact hc.freed w ((put_of_ne hw).symm.trans hcell')
  · have hne : w ≠ v := by
      rintro rfl
      simp [hc.fresh w hw] at hcell
    rw [put_of_ne hne]
    exact hc.fresh w hw
  · rw [Function.update_apply]
    split
    · exact hlt
    · exact hc.small w
  · intro w cell' _ hcell'
    by_cases hw : w = v
    case pos =>
      subst hw
      obtain rfl := Option.some.inj (put_self.symm.trans hcell')
      exact ⟨cell, hcell, rfl⟩
    case neg => exact ⟨cell', (put_of_ne hw).symm.trans hcell', rfl⟩

theorem valueRef_counts (hc : Counts h c) (hv : 0 < c v) (hlt : c v + 1 < 0x80000000) :
    ∃ h', valueRef h v = some (some v, h') ∧ Counts h' (Function.update c v (c v + 1)) ∧ Keeps h h' := by
  obtain ⟨cell, hcell, hrefs⟩ := hc.exists_cell hv
  have hadd : gAtomicIntAdd cell.refs 1 = ((c v + 1 : Nat) : Int) := by
    rw [hrefs, gAtomicIntAdd_of_lt (by omega) (by omega)]
    rfl
  have hpos : ¬cell.refs ≤ 0 := by
    rw [hrefs]
    omega
  obtain ⟨hcounts, hkeeps⟩ := put_counts (n := c v + 1) hc hcell (by omega) hlt
  exact ⟨_, by simp only [valueRef, hcell, hpos, if_false, hadd], hcounts, hkeeps⟩

theorem valueUnref_counts (hc : Counts h c) (hv : 0 < c v) :
    ∃ h', valueUnref h v = some h' ∧ Counts h' (Function.update c v (c v - 1)) ∧ Keeps h h' := by
  obtain ⟨cell, hcell, hrefs⟩ := hc.exists_cell hv
  have hsmall := hc.small v
  have hadd : gAtomicIntAdd cell.refs (-1) = ((c v - 1 : Nat) : Int) := by
    rw [hrefs, gAtomicIntAdd_of_lt (by omega) (by omega)]
    omega
  by_cases hone : c v = 1
  case neg =>
    obtain ⟨hcounts, hkeeps⟩ := put_counts (n := c v - 1) hc hcell (by omega) (by omega)
    have hne : ¬((c v - 1 : Nat) : Int) = 0 := by omega
    exact ⟨_, by simp only [valueUnref, hcell, hadd, hne, if_false], hcounts, hkeeps⟩
  case pos =>
    refine ⟨h.put v none, by simp [valueUnref, hcell, hadd, hone], ?_, Nat.le_refl _, ?_⟩
    · refine ⟨fun w cell' hcell' => ?_, fun w hcell' => ?_, fun w hw => ?_, fun w => ?_⟩
      · have hw : w ≠ v := by
          rintro rfl
          simp at hcell'
        rw [Function.update_of_ne hw]
        exact hc.alive w cell' ((put_of_ne hw).symm.trans hcell')
      · by_cases hw : w = v
        case pos =>
          subst hw
          simp [hone]
        case neg =>
          rw [Function.update_of_ne hw]
          exact hc.freed w ((put_of_ne hw).symm.trans hcell')
      · by_cases hw' : w = v
        case pos =>
          subst hw'
          exact put_self
        case neg =>
          rw [put_of_ne hw']
          exact hc.fresh w hw
      · rw [Function.update_apply]
        split
        · omega
        · exact hc.small w
    · intro w cell' _ hcell'
      have hw : w ≠ v := by
        rintro rfl
        simp at hcell'
      exact ⟨cell', (put_of_ne hw).symm.trans hcell', rfl⟩

end Builder

namespace Builder

variable {h h' : Values} {v i type : Nat} {attr slot : Slot} {array array' attrs rest slots slots' : List Slot}
  {data : Data}

def count (slots : List Slot) (v : Nat) : Nat :=
  slots.countP (·.value = some v)

@[simp]
theorem count_nil : count [] v = 0 :=
  rfl

theorem count_append : count (slots ++ slots') v = count slots v + count slots' v :=
  List.countP_append

theorem count_cons : count (attr :: slots) v = count slots v + if attr.value = some v then 1 else 0 := by
  simp [count, List.countP_cons]

theorem count_singleton : count [attr] v = if attr.value = some v then 1 else 0 := by
  simp [count_cons]

theorem count_pos (hm : attr ∈ slots) (hv : attr.value = some v) : 0 < count slots v :=
  List.countP_pos_iff.mpr ⟨attr, hm, by simp [hv]⟩

theorem count_of_valueless (hv : ∀ attr ∈ slots, attr.value = none) (v : Nat) : count slots v = 0 := by
  simpa [count] using fun attr hattr => by simp [hv attr hattr]

theorem count_set (hi : array[i]? = some attr) (slot : Slot) (v : Nat) :
    count (array.set i slot) v + count [attr] v = count array v + count [slot] v := by
  induction array generalizing i
  case nil => simp at hi
  case cons a array ih =>
    cases i
    case zero =>
      obtain rfl : a = attr := by simpa using hi
      simp only [List.set_cons_zero, count_cons, count_nil]
      omega
    case succ i =>
      have hset := @ih i (by simpa using hi)
      simp only [List.set_cons_succ, count_cons] at hset ⊢
      omega

-- The counters are the numbers of the attributes with the values.
def Owns (h : Values) (slots : List Slot) : Prop :=
  Counts h (count slots)

theorem Owns.congr (ho : Owns h slots) (heq : ∀ v, count slots' v = count slots v) : Owns h slots' :=
  Counts.congr ho heq

theorem Owns.cons_of_none (hv : attr.value = none) : Owns h (attr :: slots) ↔ Owns h slots := by
  have heq : ∀ v, count (attr :: slots) v = count slots v := fun v => by simp [count_cons, hv]
  exact ⟨fun ho => ho.congr fun v => (heq v).symm, fun ho => ho.congr heq⟩

theorem Owns.set (hi : array[i]? = some attr) (hv : attr.value = none) (ho : Owns h (slot :: (array ++ rest))) :
    Owns h (array.set i slot ++ rest) := by
  refine ho.congr fun v => ?_
  have hset := count_set hi slot v
  simp only [count_singleton, hv, reduceCtorEq, if_false] at hset
  simp only [count_append, count_cons]
  omega

theorem Keeps.see_eq (hk : Keeps h h') (ho : Owns h slots) (ho' : Owns h' slots') (hm : attr ∈ slots)
    (hm' : attr ∈ slots') : Builder.see h' attr = Builder.see h attr :=
  hk.see ho ho' fun _ hv => ⟨count_pos hm hv, count_pos hm' hv⟩

theorem Keeps.map_see_eq (hk : Keeps h h') (ho : Owns h slots) (ho' : Owns h' slots') (hm : attrs ⊆ slots)
    (hm' : attrs ⊆ slots') : attrs.map (Builder.see h') = attrs.map (Builder.see h) :=
  List.map_congr_left fun _ hattr => hk.see_eq ho ho' (hm hattr) (hm' hattr)

theorem valueNew_owns (type length : Nat) (bytes : GLib.Bytes) (ho : Owns h slots) :
    ∃ h', valueNew h bytes = (h.next, h') ∧ Owns h' (⟨type, some h.next, length⟩ :: slots) ∧ Keeps h h' ∧
      see h' ⟨type, some h.next, length⟩ = ⟨type, length, some bytes⟩ := by
  obtain ⟨hcounts, hkeeps, _⟩ := valueNew_counts ho bytes
  refine ⟨_, rfl, hcounts.congr fun v => ?_, hkeeps, by simp [see]⟩
  rw [count_cons, Function.update_apply]
  by_cases hv : v = h.next
  case pos =>
    subst hv
    simp [Counts.next ho]
  case neg => simp [hv, Ne.symm hv]

theorem valueUnref_owns (ho : Owns h (attr :: slots)) (hv : attr.value = some v) :
    ∃ h', valueUnref h v = some h' ∧ Owns h' slots ∧ Keeps h h' := by
  obtain ⟨h', hunref, hcounts, hkeeps⟩ := valueUnref_counts ho (count_pos List.mem_cons_self hv)
  refine ⟨h', hunref, hcounts.congr fun w => ?_, hkeeps⟩
  rw [Function.update_apply]
  by_cases hw : w = v
  case pos =>
    subst hw
    simp [count_cons, hv]
  case neg => simp [hw, count_cons, hv, Ne.symm hw]

theorem builderClear_owns (ho : Owns h (attr :: slots)) :
    ∃ h', builderClear h attr = some (⟨attr.type, none, 0⟩, h') ∧ Owns h' slots ∧ Keeps h h' := by
  cases hv : attr.value
  case none =>
    obtain ⟨type, value, length⟩ := attr
    subst hv
    exact ⟨h, rfl, (Owns.cons_of_none rfl).mp ho, .refl⟩
  case some v =>
    obtain ⟨h', hunref, ho', hk⟩ := valueUnref_owns ho hv
    exact ⟨h', by simp [builderClear, hv, hunref], ho', hk⟩

theorem unrefAll_owns (ho : Owns h (array ++ rest)) :
    ∃ h', unrefAll h array = some h' ∧ Owns h' rest ∧ Keeps h h' := by
  induction array generalizing h
  case nil => exact ⟨h, rfl, ho, .refl⟩
  case cons attr array ih =>
    cases hv : attr.value
    case none =>
      obtain ⟨h', hunref, ho', hk⟩ := ih ((Owns.cons_of_none hv).mp ho)
      exact ⟨h', by simp [unrefAll, hv, hunref], ho', hk⟩
    case some v =>
      obtain ⟨h₁, hunref, ho₁, hk₁⟩ := valueUnref_owns ho hv
      obtain ⟨h₂, hunref₂, ho₂, hk₂⟩ := ih ho₁
      exact ⟨h₂, by simp [unrefAll, hv, hunref, hunref₂], ho₂, hk₁.trans hk₂⟩

theorem shareValue_owns (ho : Owns h slots) (hm : attr ∈ slots) (hlt : ∀ v, count slots v + count [attr] v < 0x80000000) :
    ∃ copy h', shareValue h attr = some (copy, h') ∧ Owns h' (copy :: slots) ∧ Keeps h h' ∧
      copy.type = attr.type ∧ (∀ v, count [copy] v ≤ count [attr] v) ∧ see h' copy = (see h attr).copy := by
  by_cases hlength : attr.length = gMaxulong
  case pos =>
    refine ⟨⟨attr.type, none, gMaxulong⟩, h, by simp [shareValue, hlength], (Owns.cons_of_none rfl).mpr ho, .refl, rfl,
      fun v => by simp [count_singleton], by simp [see, Seen.copy, hlength]⟩
  case neg =>
    cases hv : attr.value
    case none =>
      exact ⟨⟨attr.type, none, 0⟩, h, by simp [shareValue, hlength, hv], (Owns.cons_of_none rfl).mpr ho, .refl, rfl,
        fun v => by simp [count_singleton], by simp [see, Seen.copy, hlength, hv]⟩
    case some v =>
      have hpos := count_pos hm hv
      have hlt' : count slots v + 1 < 0x80000000 := by simpa [count_singleton, hv] using hlt v
      obtain ⟨h', href, hcounts, hkeeps⟩ := valueRef_counts ho hpos hlt'
      have ho' : Owns h' (⟨attr.type, some v, attr.length⟩ :: slots) := by
        refine hcounts.congr fun w => ?_
        rw [count_cons, Function.update_apply]
        by_cases hw : w = v
        case pos => simp [hw]
        case neg => simp [hw, Ne.symm hw]
      refine ⟨_, h', by simp [shareValue, hlength, hv, href], ho', hkeeps, rfl, fun w => by simp [count_singleton, hv], ?_⟩
      have hsee : see h' attr = see h attr := hkeeps.see_eq ho ho' hm (List.mem_cons_of_mem _ hm)
      obtain ⟨cell, hcell, _⟩ := Counts.exists_cell ho hpos
      have hcopy : (see h attr).copy = see h attr := by simp [Seen.copy, see, hlength, hv, hcell]
      rw [hcopy, ← hsee]
      simp [see, hv]

theorem Keeps.read (hk : Keeps h h') {memory : Memory}
    (hm : ∀ v offset length, memory = .inValue v offset length → v < h.next ∧ (h'.cells v).isSome) :
    memory.read h' = memory.read h := by
  cases memory
  case null => rfl
  case own  => rfl
  case inValue v offset length =>
    obtain ⟨hlt, halive⟩ := hm v offset length rfl
    obtain ⟨cell', hcell'⟩ := Option.isSome_iff_exists.mp halive
    obtain ⟨cell, hcell, heq⟩ := hk.bytes v cell' hlt hcell'
    simp [Memory.read, hcell, hcell', heq]

theorem fill_owns (type : Nat) (ho : Owns h (array ++ rest)) (hi : array[i]? = some attr) (hv : attr.value = none)
    (hg : data.Given h) :
    ∃ slot h', fill h array i type data = some (array.set i slot, h') ∧ slot.type = type ∧
      Owns h' (array.set i slot ++ rest) ∧ Keeps h h' ∧ see h' slot = data.seen h type := by
  have hvalueless : ∀ {length}, Owns h (array.set i ⟨type, none, length⟩ ++ rest) := fun {length} =>
    .set hi hv ((Owns.cons_of_none rfl).mpr ho)
  have hread : data.length ≠ gMaxulong → ∀ memory, data.memory = memory → memory ≠ .null →
      fill h array i type data =
        (memory.read h).map fun bytes => (array.set i ⟨type, some h.next, data.length⟩, (valueNew h bytes).2) := by
    rintro hlength memory rfl hnull
    cases hmemory : data.memory
    case null => exact absurd hmemory hnull
    case own  => simp [fill, hlength, hmemory, valueNew]
    case inValue => simp [fill, hlength, hmemory, valueNew]
  by_cases hlength : data.length = gMaxulong
  case pos =>
    exact ⟨⟨type, none, gMaxulong⟩, h, by simp [fill, hlength], rfl, hvalueless, .refl, by simp [see, Data.seen, hlength]⟩
  case neg =>
    by_cases hnull : data.memory = .null
    case pos =>
      exact ⟨⟨type, none, 0⟩, h, by simp [fill, hlength, hnull], rfl, hvalueless, .refl,
        by simp [see, Data.seen, hlength, hnull]⟩
    case neg =>
      obtain ⟨bytes, hbytes⟩ := Option.isSome_iff_exists.mp (hg hlength hnull)
      obtain ⟨h', hnew, ho', hk, hsee⟩ := valueNew_owns type data.length bytes ho
      have hseen : data.seen h type = ⟨type, data.length, some bytes⟩ := by
        cases hmemory : data.memory
        case null    => exact absurd hmemory hnull
        case own     => simpa [Data.seen, hlength, hmemory] using hmemory ▸ hbytes
        case inValue => simpa [Data.seen, hlength, hmemory] using hmemory ▸ hbytes
      refine ⟨⟨type, some h.next, data.length⟩, h', ?_, rfl, .set hi hv ho', hk, hsee.trans hseen.symm⟩
      rw [hread hlength _ rfl hnull, hbytes, Option.map_some, hnew]

-- The array with a place for an attribute of a type that has no value: behind the others, or where the first one was.
inductive Cleared (type : Nat) : List Slot → Nat → List Slot → Prop
  | pushed {array : List Slot} : (∀ a ∈ array, a.type ≠ type) → Cleared type array array.length (array ++ [⟨type, none, 0⟩])
  | cleared {before after : List Slot} {attr : Slot} : (∀ a ∈ before, a.type ≠ type) → attr.type = type →
    Cleared type (before ++ attr :: after) before.length (before ++ ⟨type, none, 0⟩ :: after)

namespace Cleared

theorem getElem? (hc : Cleared type array i array') : array'[i]? = some ⟨type, none, 0⟩ := by
  cases hc <;> simp

-- The attribute in the place is the first one of its type, and the others stay.
theorem map_set {g g' : Slot → Seen} (hc : Cleared type array i array') (hg : ∀ a, (g a).type = a.type)
    (hg' : ∀ a, (g' a).type = a.type) (hs : slot.type = type)
    (heq : ∀ a ∈ array, a ∈ array'.set i slot → g a = g' a) :
    (array'.set i slot).map g = setFirst (g slot) (array.map g') := by
  have hbefore : ∀ {before : List Slot} (after : List Seen), (∀ a ∈ before, a.type ≠ type) →
      (∀ a ∈ before, g a = g' a) → setFirst (g slot) (before.map g' ++ after) = before.map g ++ setFirst (g slot) after := by
    intro before after hall heq
    induction before
    case nil => rfl
    case cons a before ih =>
      obtain ⟨ha, hrest⟩ := List.forall_mem_cons.mp hall
      obtain ⟨heqa, heqs⟩ := List.forall_mem_cons.mp heq
      have hne : ¬(g' a).type = (g slot).type := by simpa [hg, hg', hs] using ha
      simp [setFirst, hne, ih hrest heqs, heqa]
  cases hc
  case pushed hall =>
    have heq : ∀ a ∈ array, g a = g' a := fun a ha => heq a ha (by simp [ha])
    simpa [setFirst] using (hbefore [] hall heq).symm
  case cleared before after attr hall htype =>
    have hfirst : ∀ a ∈ before, g a = g' a := fun a ha => heq a (by simp [ha]) (by simp [ha])
    have hlast : after.map g = after.map g' :=
      List.map_congr_left fun a ha => heq a (by simp [ha]) (by simp [ha])
    rw [List.map_append, hbefore _ hall hfirst]
    simp [setFirst, hg, hg', hs, htype, hlast]

-- The first attribute of the type, if there is one, goes away.
theorem count_eq (hc : Cleared type array i array') (v : Nat) :
    count array' v + count (array.find? (·.type = type)).toList v = count array v := by
  cases hc
  case pushed hall =>
    have hnone : array.find? (·.type = type) = none := by simpa using hall
    simp [hnone, count_append, count_cons]
  case cleared before after attr hall htype =>
    have hnone : before.find? (·.type = type) = none := by simpa using hall
    simp only [List.find?_append, hnone, List.find?_cons, htype, decide_true, Option.none_or, Option.toList_some,
      count_append, count_cons, count_nil, reduceCtorEq, if_false]
    omega

theorem count_le (hc : Cleared type array i array') (v : Nat) : count array' v ≤ count array v :=
  Nat.le.intro (hc.count_eq v)

end Cleared

theorem findAttribute_eq (array : List Slot) (type : Nat) :
    (findAttribute array type = none ∧ ∀ a ∈ array, a.type ≠ type) ∨
    ∃ before attr after, findAttribute array type = some before.length ∧ array = before ++ attr :: after ∧
      (∀ a ∈ before, a.type ≠ type) ∧ attr.type = type := by
  induction array
  case nil => exact .inl ⟨rfl, by simp⟩
  case cons a array ih =>
    by_cases ha : a.type = type
    case pos => exact .inr ⟨[], a, array, by simp [findAttribute, List.findIdx?_cons, ha], rfl, by simp, ha⟩
    case neg =>
      obtain ⟨hnone, hall⟩ | ⟨before, attr, after, hsome, rfl, hall, htype⟩ := ih
      · exact .inl ⟨by simpa [findAttribute, List.findIdx?_cons, ha] using hnone, List.forall_mem_cons.mpr ⟨ha, hall⟩⟩
      · refine .inr ⟨a :: before, attr, after, ?_, rfl, List.forall_mem_cons.mpr ⟨ha, hall⟩, htype⟩
        unfold findAttribute at hsome ⊢
        simp [List.findIdx?_cons, ha, hsome]

theorem builderClearOrPush_owns (ho : Owns h (array ++ rest)) (type : Nat) :
    ∃ i array' h', builderClearOrPush h array type = some (i, array', h') ∧ Cleared type array i array' ∧
      Owns h' (array' ++ rest) ∧ Keeps h h' := by
  obtain ⟨hnone, hall⟩ | ⟨before, attr, after, hsome, rfl, hall, htype⟩ := findAttribute_eq array type
  · refine ⟨_, _, h, by simp [builderClearOrPush, hnone, builderPush], .pushed hall, ho.congr fun v => ?_, .refl⟩
    simp [count_append, count_cons]
  · have hcons : Owns h (attr :: (before ++ after ++ rest)) := ho.congr fun v => by
      simp only [count_append, count_cons]
      omega
    obtain ⟨h', hclear, ho', hk⟩ := builderClear_owns hcons
    refine ⟨_, _, h', by simp [builderClearOrPush, hsome, hclear, htype], .cleared hall htype, ho'.congr fun v => ?_, hk⟩
    simp [count_append, count_cons]

theorem builderCopy_owns (performingSet : Bool) (ho : Owns h (array ++ rest))
    (hm : attr ∈ rest ∨ performingSet = false ∧ attr ∈ array)
    (hlt : ∀ v, count (array ++ rest) v + count [attr] v < 0x80000000) :
    ∃ array' h', builderCopy h array attr performingSet = some (array', h') ∧ Owns h' (array' ++ rest) ∧ Keeps h h' ∧
      (∀ v, count (array' ++ rest) v ≤ count (array ++ rest) v + count [attr] v) ∧
      (performingSet = false → ∃ copy, array' = array ++ [copy] ∧ see h' copy = (see h attr).copy) := by
  cases performingSet
  case false =>
    have hmem : attr ∈ array ++ rest := by simpa [or_comm] using hm
    obtain ⟨copy, h', hshare, ho', hk, _, hle, hsee⟩ := shareValue_owns ho hmem hlt
    refine ⟨array ++ [copy], h', by simp [builderCopy, builderPush, hshare], ho'.congr fun v => ?_, hk, fun v => ?_,
      fun _ => ⟨copy, rfl, hsee⟩⟩
    · simp only [count_append, count_cons, count_nil]
      omega
    · have hle := hle v
      simp only [count_append]
      omega
  case true =>
    have hmem : attr ∈ rest := by simpa using hm
    obtain ⟨i, array₁, h₁, hclear, hcleared, ho₁, hk₁⟩ := builderClearOrPush_owns ho attr.type
    have hlt₁ : ∀ v, count (array₁ ++ rest) v + count [attr] v < 0x80000000 := fun v => by
      have hv := hlt v
      have hle := hcleared.count_le v
      simp only [count_append] at hv ⊢
      omega
    obtain ⟨copy, h', hshare, ho', hk, _, hle, hsee⟩ := shareValue_owns ho₁ (List.mem_append_right _ hmem) hlt₁
    refine ⟨array₁.set i copy, h', by simp [builderCopy, hclear, hshare], .set hcleared.getElem? rfl ho', hk₁.trans hk,
      fun v => ?_, by simp⟩
    have hset := count_set hcleared.getElem? copy v
    have hle := hle v
    have hle₁ := hcleared.count_le v
    simp only [count_singleton, reduceCtorEq, if_false] at hset hle
    simp only [count_append, count_singleton]
    omega

theorem copyAll_owns (performingSet : Bool) (ho : Owns h (array ++ rest)) (hm : attrs ⊆ rest)
    (hlt : ∀ v, count (array ++ rest) v + count attrs v < 0x80000000) :
    ∃ array' h', copyAll performingSet h array attrs = some (array', h') ∧ Owns h' (array' ++ rest) ∧ Keeps h h' := by
  induction attrs generalizing h array
  case nil => exact ⟨array, h, rfl, ho, .refl⟩
  case cons attr attrs ih =>
    obtain ⟨hattr, hattrs⟩ := List.cons_subset.mp hm
    have hsum : ∀ v, count (attr :: attrs) v = count [attr] v + count attrs v := fun v => by
      rw [count_cons, count_singleton, Nat.add_comm]
    have hlt₁ : ∀ v, count (array ++ rest) v + count [attr] v < 0x80000000 := fun v => by
      have hv := hlt v
      have hs := hsum v
      omega
    obtain ⟨array₁, h₁, hcopy, ho₁, hk₁, hle, _⟩ := builderCopy_owns performingSet ho (.inl hattr) hlt₁
    have hlt₂ : ∀ v, count (array₁ ++ rest) v + count attrs v < 0x80000000 := fun v => by
      have hv := hlt v
      have hs := hsum v
      have hle := hle v
      omega
    obtain ⟨array₂, h₂, hcopies, ho₂, hk₂⟩ := ih ho₁ hattrs hlt₂
    exact ⟨array₂, h₂, by simp [copyAll, hcopy, hcopies], ho₂, hk₁.trans hk₂⟩

theorem commitIn_owns (ho : Owns h rest) (array : List Slot) (answers : List Answer) :
    Owns (commitIn h array answers).2 ((commitIn h array answers).1 ++ rest) ∧ Keeps h (commitIn h array answers).2 := by
  induction array generalizing h rest answers
  case nil => exact ⟨ho, .refl⟩
  case cons attr array ih =>
    by_cases hroom : attr.length ≠ 0 ∧ attr.length ≠ gMaxulong
    case pos =>
      let answer := answers.headD ⟨[], 0⟩
      obtain ⟨h₁, hnew, ho₁, hk₁, _⟩ :=
        valueNew_owns attr.type (answer.lengthIn attr.length) (answer.written attr.length) ho
      obtain ⟨ho₂, hk₂⟩ := ih ho₁ answers.tail
      simp only [commitIn, if_pos hroom, answer, hnew]
      refine ⟨ho₂.congr fun v => ?_, hk₁.trans hk₂⟩
      simp only [count_append, count_cons]
      omega
    case neg =>
      obtain ⟨ho₂, hk₂⟩ := ih ho answers.tail
      simp only [commitIn, if_neg hroom]
      exact ⟨(Owns.cons_of_none rfl).mpr ho₂, hk₂⟩

theorem prepareIn_value {lengths : List Nat} : ∀ attr ∈ prepareIn lengths array, attr.value = none := by
  simp only [prepareIn, List.mem_map]
  rintro _ ⟨_, _, rfl⟩
  rfl

end Builder
