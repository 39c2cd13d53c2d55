import GcrModel.Egg.Asn1x.Unparse

namespace Asn1x

open GLib

variable {tlv tlv' ctlv : Atlv} {tlvs trees : List Atlv} {cells : List Linked} {cell : Linked} {encodings : List Bytes}
variable {header octets bytes : Bytes} {value : GBytes} {room n : Nat}

structure Headed (tlv : Atlv) (header : Bytes) : Prop where
  written : atlvUnparseClsTagLen tlv.cls tlv.tag tlv.len = some header
  off     : header.length = tlv.off
  fits    : tlv.off + tlv.len < 2 ^ 31

-- The fields of a tree of elements say how large they are.
inductive WellSized : Atlv → Prop
  | value {tlv : Atlv} {value : GBytes} {header octets : Bytes} : Headed tlv header → tlv.value = some value →
    tlv.child = [] → unparseValue tlv value.data = some octets → WellSized tlv
  | children {tlv : Atlv} {header : Bytes} : Headed tlv header → tlv.value = none →
    tlv.len = (tlv.child.map fun ctlv => ctlv.off + ctlv.len).sum → (∀ ctlv ∈ tlv.child, WellSized ctlv) → WellSized tlv

mutual

-- What a tree of elements is encoded as: the encodings under a sorted element are in ascending order.
def der : Atlv → Bytes
  | tlv@(.mk _ _ _ _ _ child ..) =>
    (atlvUnparseClsTagLen tlv.cls tlv.tag tlv.len).getD [] ++
      match tlv.value with
      | some value => (unparseValue tlv value.data).getD []
      | none       => if tlv.sorted then ((ders child).mergeSort (· ≤ ·)).flatten else (ders child).flatten

def ders : List Atlv → List Bytes
  | []           => []
  | ctlv :: tlvs => der ctlv :: ders tlvs

end

-- In each sorted element the last one before the sort is greater than all of the others.
inductive LastGreatest : Atlv → Prop
  | mk {tlv : Atlv} : (∀ ctlv ∈ tlv.child, LastGreatest ctlv) →
    (tlv.sorted → ∀ others last, tlv.child = others ++ [last] → ∀ ctlv ∈ others, der ctlv < der last) → LastGreatest tlv

-- The encoding of an element is at most the one of another.
def NotAfter (a b : Atlv) : Prop :=
  ∃ x y, atlvUnparseToBytes a = some (some x) ∧ atlvUnparseToBytes b = some (some y) ∧ x.data ≤ y.data

-- The children are sorted first. Those of a sorted element are put in ascending order.
inductive Sorts : Atlv → Atlv → Prop
  | mk {tlv : Atlv} {children children' : List Atlv} : List.Forall₂ Sorts tlv.child children →
    children'.Perm children → (tlv.sorted → children'.Pairwise NotAfter) → (¬tlv.sorted → children' = children) →
    Sorts tlv { tlv with child := children' }

-- The children of sorted elements are in any order.
inductive Reordered : Atlv → Atlv → Prop
  | mk {tlv : Atlv} {children children' : List Atlv} : List.Forall₂ Reordered tlv.child children →
    children'.Perm children → (¬tlv.sorted → children' = children) → Reordered tlv { tlv with child := children' }

-- The sort ends, and the lists that it leaves end. What is unparsed is the encoding and has the right size.
def SetsSorted (tlv : Atlv) : Prop :=
  ∃ (l : Linked) (tlv' : Atlv) (bytes : GBytes), atlvSortPerform tlv = some l ∧ l.toTree = some tlv' ∧ Sorts tlv tlv' ∧
    atlvUnparseToBytes tlv' = some (some bytes) ∧ bytes.data.length = tlv.off + tlv.len ∧ bytes.data = der tlv

-- What is written of an element.
def encoding (tlv : Atlv) : Option (Option GBytes) := do
  let l ← atlvSortPerform tlv
  atlvUnparseToBytes (← l.toTree)

-- An element is unparsed as these bytes.
structure Writes (encoding : Bytes) (tlv : Atlv) : Prop where
  length : encoding.length = tlv.off + tlv.len
  fits   : tlv.off + tlv.len < 2 ^ 31
  ne_nil : encoding ≠ []
  bytes  : ∀ room, encoding.length ≤ room → atlvUnparseDer tlv room = some encoding

theorem ders_eq (tlvs : List Atlv) : ders tlvs = tlvs.map der := by
  induction tlvs with
  | nil => rfl
  | cons ctlv tlvs ih => rw [ders, ih, List.map_cons]

theorem der_eq (tlv : Atlv) : der tlv = (atlvUnparseClsTagLen tlv.cls tlv.tag tlv.len).getD [] ++
    match tlv.value with
    | some value => (unparseValue tlv value.data).getD []
    | none       =>
      if tlv.sorted then ((tlv.child.map der).mergeSort (· ≤ ·)).flatten else (tlv.child.map der).flatten := by
  cases tlv
  rw [der, ders_eq]

def unparseContent (tlv : Atlv) (room : Nat) : Option Bytes :=
  match tlv.value with
  | some value => unparseValue tlv value.data
  | none       => unparseChildren tlv.child room

theorem atlvUnparseDer_headed (h : Headed tlv header) {content : Bytes} (hroom : header.length + content.length ≤ room)
    (hcontent : unparseContent tlv (room - header.length) = some content) :
    atlvUnparseDer tlv room = some (header ++ content) := by
  have hoff := h.off
  have hwritten := h.written
  have hfits : ¬room - header.length < content.length := by omega
  cases tlv with
  | mk cls tag off len value child =>
    rw [atlvUnparseDer, hwritten, Option.bind_eq_bind, Option.bind_some, if_neg (by simp [hoff]; omega)]
    cases value with
    | none       => exact (congrArg (Option.bind · _) hcontent).trans (if_neg hfits)
    | some value => exact (congrArg (Option.bind · _) hcontent).trans (if_neg hfits)

theorem Writes.toBytes (h : Writes bytes tlv) : atlvUnparseToBytes tlv = some (some ⟨bytes, []⟩) := by
  have hpos := List.length_pos_of_ne_nil h.ne_nil
  have hlen := h.length
  have hfits := h.fits
  have hadd : addGint tlv.off tlv.len = some (bytes.length : Int) := by
    rw [addGint, if_pos (by omega), ← hlen]
  have hroom := h.bytes bytes.length (Nat.le_refl _)
  rw [atlvUnparseToBytes, hadd, Option.bind_eq_bind, Option.bind_some, if_neg (by omega), if_neg (by omega),
    Int.toNat_natCast, hroom, Option.bind_eq_bind, Option.bind_some, if_pos rfl]

theorem unparseChildren_writes (h : List.Forall₂ Writes encodings tlvs) (hroom : encodings.flatten.length ≤ room) :
    unparseChildren tlvs room = some encodings.flatten := by
  induction h generalizing room with
  | nil => rfl
  | @cons encoding ctlv encodings tlvs hw _ ih =>
    rw [List.flatten_cons, List.length_append] at hroom
    have hlen := hw.length
    rw [unparseChildren, hw.bytes room (by omega), Option.bind_eq_bind, Option.bind_some, if_neg (by omega),
      ih (by omega)]
    rfl

def sortedPairs (encodings : List Bytes) : List (Bytes × Nat) :=
  (encodings.zipIdx.reverse).mergeSort compareSortPair

theorem compareSortPair_trans (a b c : Bytes × Nat) (h : compareSortPair a b = true) (h' : compareSortPair b c = true) :
    compareSortPair a c = true := by
  simp only [compareSortPair, decide_eq_true_eq] at h h' ⊢
  exact List.le_trans h h'

theorem compareSortPair_total (a b : Bytes × Nat) : (compareSortPair a b || compareSortPair b a) = true := by
  simp only [compareSortPair, Bool.or_eq_true, decide_eq_true_eq]
  exact List.le_total a.1 b.1

theorem sortedPairs_perm (encodings : List Bytes) : (sortedPairs encodings).Perm encodings.zipIdx :=
  (List.mergeSort_perm _ _).trans (List.reverse_perm _)

theorem sortedPairs_pairwise (encodings : List Bytes) : (sortedPairs encodings).Pairwise fun a b => a.1 ≤ b.1 :=
  (List.pairwise_mergeSort compareSortPair_trans compareSortPair_total _).imp fun h => by
    simpa [compareSortPair] using h

theorem sortPairs_perm (encodings : List Bytes) : (sortPairs encodings).Perm (List.range encodings.length) := by
  have h := (sortedPairs_perm encodings).map (·.2)
  rwa [List.zipIdx_map_snd, ← List.range_eq_range'] at h

-- Sorted encodings are told by what they are.
theorem sortedPairs_fst (encodings : List Bytes) : (sortedPairs encodings).map (·.1) = encodings.mergeSort (· ≤ ·) := by
  have hperm : ((sortedPairs encodings).map (·.1)).Perm encodings := by
    have h := (sortedPairs_perm encodings).map (·.1)
    rwa [List.zipIdx_map_fst] at h
  have htrans : ∀ a b c : Bytes, decide (a ≤ b) = true → decide (b ≤ c) = true → decide (a ≤ c) = true := by
    intro a b c h h'
    simp only [decide_eq_true_eq] at h h' ⊢
    exact List.le_trans h h'
  have htotal : ∀ a b : Bytes, (decide (a ≤ b) || decide (b ≤ a)) = true := by
    intro a b
    simpa using List.le_total a b
  have hsorted : (encodings.mergeSort (· ≤ ·)).Pairwise (· ≤ ·) :=
    (List.pairwise_mergeSort htrans htotal encodings).imp fun h => by simpa using h
  refine @List.Perm.eq_of_pairwise _ (· ≤ ·) _ _ (fun a b _ _ => List.le_antisymm) ?_ hsorted ?_
  · exact List.pairwise_map.mpr (sortedPairs_pairwise encodings)
  · exact hperm.trans (List.mergeSort_perm _ _).symm

-- Pairs that are equal are in the opposite order. So the last encoding stays the last one only if it is the greatest.
theorem sortPairs_last {others : List Bytes} {last : Bytes} :
    (sortPairs (others ++ [last])).getLast? = some others.length ↔ ∀ encoding ∈ others, encoding < last := by
  have hzip : (others ++ [last]).zipIdx = others.zipIdx ++ [(last, others.length)] := by
    simp [List.zipIdx_append]
  constructor
  case mp =>
    intro h encoding hmem
    by_contra hle
    rw [List.not_lt] at hle
    obtain ⟨i, hi, rfl⟩ := List.mem_iff_getElem.mp hmem
    -- The last pair comes first, and stays in front of a pair that is not less.
    have hfirst : [(last, others.length), (others[i], i)].Sublist (others ++ [last]).zipIdx.reverse := by
      rw [hzip, List.reverse_append, List.reverse_singleton, List.singleton_append]
      refine List.Sublist.cons_cons _ (List.singleton_sublist.mpr (List.mem_reverse.mpr ?_))
      simp [List.mem_zipIdx_iff_getElem?]
    have hsub := (List.pair_sublist_mergeSort compareSortPair_trans compareSortPair_total
      (by simpa [compareSortPair] using hle) hfirst).map (·.2)
    have hnodup : (sortPairs (others ++ [last])).Nodup := (sortPairs_perm _).nodup_iff.mpr List.nodup_range
    have hsplit := List.dropLast_append_getLast? _ h
    change [others.length, i].Sublist (sortPairs (others ++ [last])) at hsub
    rw [← hsplit] at hsub hnodup
    have hfresh : others.length ∉ (sortPairs (others ++ [last])).dropLast := fun hmem =>
      (List.nodup_append.mp hnodup).2.2 _ hmem _ (List.mem_singleton_self _) rfl
    obtain ⟨front, back, heq, hfront, hback⟩ := List.sublist_append_iff.mp hsub
    cases front with
    | nil =>
      rw [List.nil_append] at heq
      have hlen := hback.length_le
      simp [← heq] at hlen
    | cons j front =>
      obtain ⟨rfl, -⟩ := List.cons.inj heq
      exact hfresh (hfront.subset List.mem_cons_self)
  case mpr =>
    intro h
    have hmem : ∀ p, p ∈ sortedPairs (others ++ [last]) ↔ p ∈ others.zipIdx ++ [(last, others.length)] := fun p => by
      rw [(sortedPairs_perm _).mem_iff, hzip]
    have hlast := (hmem (last, others.length)).mpr (by simp)
    obtain ⟨p, hp⟩ : ∃ p, (sortedPairs (others ++ [last])).getLast? = some p :=
      ⟨_, List.getLast?_eq_some_getLast (List.ne_nil_of_mem hlast)⟩
    have hsort : (sortPairs (others ++ [last])).getLast? = some p.2 := by
      rw [sortPairs, List.getLast?_map]
      exact congrArg (Option.map _) hp
    rw [hsort, Option.some_inj]
    have hsplit := List.dropLast_append_getLast? _ hp
    have hpairwise := sortedPairs_pairwise (others ++ [last])
    rw [← hsplit] at hlast hpairwise
    obtain hfront | heq := List.mem_append.mp hlast
    · have hle := (List.pairwise_append.mp hpairwise).2.2 _ hfront p (List.mem_singleton_self _)
      have hp' := (hmem p).mp (List.mem_of_getLast? hp)
      obtain hp' | hp' := List.mem_append.mp hp'
      · obtain ⟨e, i⟩ := p
        have he := List.mem_of_getElem? ((List.mem_zipIdx_iff_getElem?).mp hp')
        exact absurd (h e he) (List.not_lt.mpr hle)
      · exact congrArg Prod.snd (List.mem_singleton.mp hp')
    · exact (congrArg Prod.snd (List.mem_singleton.mp heq)).symm

-- The encodings of the children, of which the last one has to be the greatest.
def LastIsGreatest (encodings : List Bytes) : Prop :=
  ∀ others last, encodings = others ++ [last] → ∀ encoding ∈ others, encoding < last

theorem lastIsGreatest_concat {others : List Bytes} {last : Bytes} :
    LastIsGreatest (others ++ [last]) ↔ ∀ encoding ∈ others, encoding < last := by
  constructor
  · exact fun h => h others last rfl
  · intro h others' last' heq
    obtain ⟨rfl, heq⟩ := List.append_inj' heq rfl
    obtain rfl : last = last' := by simpa using heq
    exact h

def sortedChain (encodings : List Bytes) : Chain :=
  (Chain.inOrder encodings.length).relink none (sortPairs encodings)

theorem sortPairs_nil : sortPairs [] = [] := by
  simp [sortPairs]

theorem cells_sortedChain (h : LastIsGreatest encodings) : (sortedChain encodings).cells = some (sortPairs encodings) := by
  cases encodings using List.reverseRecOn with
  | nil =>
    rw [sortedChain, sortPairs_nil]
    rfl
  | append_singleton others last =>
    have hperm := sortPairs_perm (others ++ [last])
    rw [List.length_append, List.length_singleton] at hperm
    rw [sortedChain, List.length_append, List.length_singleton]
    exact Chain.cells_relink hperm ((sortPairs_last).mpr ((lastIsGreatest_concat).mp h))

theorem sortedChain_endless (h : ¬LastIsGreatest encodings) (fuel : Nat) :
    Chain.walk (sortedChain encodings).next fuel (sortedChain encodings).head = none := by
  cases encodings using List.reverseRecOn with
  | nil => exact absurd (fun others last heq => by simp at heq) h
  | append_singleton others last =>
    have hperm := sortPairs_perm (others ++ [last])
    rw [List.length_append, List.length_singleton] at hperm
    rw [sortedChain, List.length_append, List.length_singleton]
    exact Chain.relink_endless hperm (fun hlast => h ((lastIsGreatest_concat).mpr ((sortPairs_last).mp hlast))) fuel

theorem toTree_mk (hcells : toTrees cells = some trees) (chain : Chain) :
    (Linked.mk tlv cells chain).toTree = (inChain chain trees).map fun children => { tlv with child := children } := by
  rw [Linked.toTree, hcells]
  cases h : inChain chain trees
  case none => simp [h]
  case some => simp [h]

theorem toTree_mk_none (hcells : toTrees cells = none) (chain : Chain) : (Linked.mk tlv cells chain).toTree = none := by
  rw [Linked.toTree, hcells]
  rfl

theorem filterMap_range {α : Type} (l : List α) : (List.range l.length).filterMap (l[·]?) = l := by
  induction l with
  | nil => rfl
  | cons a l ih =>
    rw [List.length_cons, List.range_succ_eq_map, List.filterMap_cons, List.filterMap_map]
    exact congrArg (a :: ·) ih

theorem inChain_inOrder {α : Type} (l : List α) : inChain (Chain.inOrder l.length) l = some l := by
  rw [inChain, Chain.cells_inOrder, Option.map_some, filterMap_range]

-- The elements in the order of their encodings.
theorem filterMap_sortPairs (h : List.Forall₂ Writes encodings trees) :
    ((sortPairs encodings).filterMap (trees[·]?)).Perm trees ∧
    List.Forall₂ Writes (encodings.mergeSort (· ≤ ·)) ((sortPairs encodings).filterMap (trees[·]?)) := by
  constructor
  · have hperm := (sortPairs_perm encodings).filterMap (trees[·]?)
    rwa [h.length_eq, filterMap_range] at hperm
  · have hpairs : ∀ p ∈ sortedPairs encodings, ∃ tree, trees[p.2]? = some tree ∧ Writes p.1 tree := by
      intro p hp
      have hmem := List.mem_zipIdx_iff_getElem?.mp ((sortedPairs_perm encodings).mem_iff.mp hp)
      obtain ⟨hlt, heq⟩ := List.getElem?_eq_some_iff.mp hmem
      have hlt' : p.2 < trees.length := h.length_eq ▸ hlt
      have hw : Writes encodings[p.2] trees[p.2] := h.get hlt hlt'
      exact ⟨trees[p.2], List.getElem?_eq_getElem hlt', heq ▸ hw⟩
    rw [← sortedPairs_fst, sortPairs, ← sortedPairs]
    generalize sortedPairs encodings = pairs at hpairs
    induction pairs with
    | nil => exact .nil
    | cons p pairs ih =>
      obtain ⟨⟨tree, htree, hw⟩, hpairs⟩ := List.forall_mem_cons.mp hpairs
      rw [List.map_cons, List.map_cons, List.filterMap_cons, htree]
      exact .cons hw (ih hpairs)

-- The sort of an element leaves a tree, which is unparsed as the encoding of the element.
structure Good (tlv : Atlv) (l : Linked) (tlv' : Atlv) : Prop where
  sort   : atlvSortPerform tlv = some l
  tree   : l.toTree = some tlv'
  sorts  : Sorts tlv tlv'
  writes : Writes (der tlv) tlv'

-- It leaves a list that has no end.
def Bad (tlv : Atlv) : Prop :=
  ∀ l, atlvSortPerform tlv = some l → l.toTree = none

structure GoodCells (tlvs : List Atlv) (cells : List Linked) (trees : List Atlv) : Prop where
  sort      : sortCells tlvs = some cells
  toTrees   : toTrees cells = some trees
  sorts     : List.Forall₂ Sorts tlvs trees
  writes    : List.Forall₂ Writes (tlvs.map der) trees
  encodings : unparseCells cells = some (some (tlvs.map der))
  length    : cells.length = tlvs.length

theorem Sorts.size (h : Sorts tlv tlv') : tlv'.off + tlv'.len = tlv.off + tlv.len := by
  cases h
  rfl

theorem goodCells (h : ∀ ctlv ∈ tlvs, ∃ l tlv', Good ctlv l tlv') : ∃ cells trees, GoodCells tlvs cells trees := by
  induction tlvs with
  | nil => exact ⟨[], [], rfl, rfl, .nil, .nil, rfl, rfl⟩
  | cons ctlv tlvs ih =>
    obtain ⟨⟨l, tlv', hgood⟩, htlvs⟩ := List.forall_mem_cons.mp h
    obtain ⟨cells, trees, hgoods⟩ := ih htlvs
    refine ⟨l :: cells, tlv' :: trees, ?_, ?_, ?_, ?_, ?_, ?_⟩
    · rw [sortCells, hgood.sort, hgoods.sort]
      rfl
    · rw [toTrees, hgood.tree, hgoods.toTrees]
      rfl
    · exact .cons hgood.sorts hgoods.sorts
    · exact .cons hgood.writes hgoods.writes
    · rw [unparseCells, hgood.tree, Option.bind_eq_bind, Option.bind_some, hgood.writes.toBytes, Option.bind_eq_bind,
        Option.bind_some, hgoods.encodings]
      rfl
    · rw [List.length_cons, hgoods.length, List.length_cons]

theorem badCells (hmem : ctlv ∈ tlvs) (hbad : Bad ctlv) (h : sortCells tlvs = some cells) : toTrees cells = none := by
  induction tlvs generalizing cells with
  | nil => cases hmem
  | cons tlv tlvs ih =>
    rw [sortCells, Option.bind_eq_bind, Option.bind_eq_some_iff] at h
    obtain ⟨l, hl, h⟩ := h
    rw [Option.bind_eq_bind, Option.bind_eq_some_iff] at h
    obtain ⟨cells', hcells, h⟩ := h
    obtain rfl := Option.some.inj h
    rw [toTrees]
    obtain rfl | hmem := List.mem_cons.mp hmem
    · rw [hbad l hl]
      rfl
    · rw [ih hmem hcells]
      cases l.toTree
      all_goals rfl

-- What the sort leaves, up to how the elements are chained up.
theorem sortPerform_cases {l : Linked} (h : atlvSortPerform tlv = some l) :
    ∃ cells chain, sortCells tlv.child = some cells ∧ l = .mk tlv cells chain := by
  cases tlv with
  | mk cls tag off len value child =>
    rw [atlvSortPerform, Option.bind_eq_bind, Option.bind_eq_some_iff] at h
    obtain ⟨cells, hcells, h⟩ := h
    dsimp only at h
    split at h
    case isTrue => exact ⟨cells, _, hcells, (Option.some.inj h).symm⟩
    case isFalse =>
      rw [Option.bind_eq_bind, Option.bind_eq_some_iff] at h
      obtain ⟨encodings, -, h⟩ := h
      split at h
      all_goals exact ⟨cells, _, hcells, (Option.some.inj h).symm⟩

def childChain (tlv : Atlv) : Chain :=
  if tlv.sorted then sortedChain (tlv.child.map der) else Chain.inOrder tlv.child.length

theorem GoodCells.sort_eq (h : GoodCells tlv.child cells trees) :
    atlvSortPerform tlv = some (.mk tlv cells (childChain tlv)) := by
  have hsort := h.sort
  have hlen := h.length
  cases tlv with
  | mk cls tag off len value child bitsEmpty prefixForBitString prefixWithZeroByte sorted =>
    rw [atlvSortPerform, hsort, Option.bind_eq_bind, Option.bind_some, hlen]
    cases sorted with
    | false => rfl
    | true =>
      dsimp only
      rw [if_neg (by simp), h.encodings]
      simp [childChain, sortedChain]

theorem notAfter_pairwise (h : List.Forall₂ Writes encodings tlvs) (hpairwise : encodings.Pairwise (· ≤ ·)) :
    tlvs.Pairwise NotAfter := by
  induction h with
  | nil => exact .nil
  | @cons encoding ctlv encodings tlvs hw hws ih =>
    obtain ⟨hle, hpairwise⟩ := List.pairwise_cons.mp hpairwise
    refine .cons (fun ctlv' hmem => ?_) (ih hpairwise)
    obtain ⟨i, hi, rfl⟩ := List.mem_iff_getElem.mp hmem
    have hi' : i < encodings.length := hws.length_eq ▸ hi
    have hw' : Writes encodings[i] tlvs[i] := hws.get hi' hi
    exact ⟨⟨encoding, []⟩, ⟨encodings[i], []⟩, hw.toBytes, hw'.toBytes, hle _ (List.getElem_mem hi')⟩

-- The children of an element that the sort leaves, where the last one was the greatest.
theorem GoodCells.children (h : GoodCells tlv.child cells trees) (hlast : tlv.sorted → LastIsGreatest (tlv.child.map der)) :
    ∃ children, (Linked.mk tlv cells (childChain tlv)).toTree = some { tlv with child := children } ∧
      Sorts tlv { tlv with child := children } ∧
      List.Forall₂ Writes
        (if tlv.sorted then (tlv.child.map der).mergeSort (· ≤ ·) else tlv.child.map der) children := by
  rw [toTree_mk h.toTrees, childChain]
  by_cases hsorted : tlv.sorted
  case pos =>
    obtain ⟨hperm, hwrites⟩ := filterMap_sortPairs h.writes
    rw [if_pos hsorted, if_pos hsorted, inChain, cells_sortedChain (hlast hsorted), Option.map_some, Option.map_some]
    refine ⟨_, rfl, .mk h.sorts hperm (fun _ => ?_) (absurd hsorted), hwrites⟩
    have hpairwise : ((tlv.child.map der).mergeSort (· ≤ ·)).Pairwise (· ≤ ·) := by
      rw [← sortedPairs_fst, List.pairwise_map]
      exact sortedPairs_pairwise _
    exact notAfter_pairwise hwrites hpairwise
  case neg =>
    have hlen : tlv.child.length = trees.length := h.sorts.length_eq
    rw [if_neg hsorted, if_neg hsorted, hlen, inChain_inOrder, Option.map_some]
    exact ⟨_, rfl, .mk h.sorts (.refl _) (absurd · hsorted) fun _ => rfl, h.writes⟩

theorem flatten_length_mergeSort (encodings : List Bytes) :
    (encodings.mergeSort (· ≤ ·)).flatten.length = encodings.flatten.length := by
  rw [List.length_flatten, List.length_flatten]
  exact ((List.mergeSort_perm encodings _).map List.length).sum_nat

theorem lastIsGreatest_map :
    LastIsGreatest (tlvs.map der) ↔ ∀ others last, tlvs = others ++ [last] → ∀ ctlv ∈ others, der ctlv < der last := by
  cases tlvs using List.reverseRecOn with
  | nil => exact iff_of_true (fun _ _ h => by simp at h) fun _ _ h => by simp at h
  | append_singleton others last =>
    rw [List.map_append, List.map_singleton, lastIsGreatest_concat, List.forall_mem_map]
    constructor
    · intro h others' last' heq
      obtain ⟨rfl, heq⟩ := List.append_inj' heq rfl
      obtain rfl : last = last' := by simpa using heq
      exact h
    · exact fun h => h others last rfl

theorem lastGreatest_iff : LastGreatest tlv ↔
    (∀ ctlv ∈ tlv.child, LastGreatest ctlv) ∧ (tlv.sorted → LastIsGreatest (tlv.child.map der)) := by
  rw [lastIsGreatest_map]
  constructor
  · rintro ⟨hchildren, hlast⟩
    exact ⟨hchildren, hlast⟩
  · rintro ⟨hchildren, hlast⟩
    exact ⟨hchildren, hlast⟩

theorem unparseClsTagLen_ne_nil {cls : UInt8} {tag : Nat} {len : Int} (h : atlvUnparseClsTagLen cls tag len = some header) :
    header ≠ [] := by
  rw [atlvUnparseClsTagLen] at h
  split at h
  case isTrue => simp [← Option.some.inj h]
  case isFalse =>
    split at h
    case isTrue  => cases h
    case isFalse => simp [← Option.some.inj h]

-- What is left to show of an element whose children were sorted.
theorem good_of_children {content : Bytes} (hheaded : Headed tlv header) (hder : der tlv = header ++ content)
    (hlen : content.length = tlv.len) (hgood : ∀ ctlv ∈ tlv.child, ∃ l tlv', Good ctlv l tlv')
    (hlast : tlv.sorted → LastIsGreatest (tlv.child.map der))
    (hcontent : ∀ children, List.Forall₂ Writes
      (if tlv.sorted then (tlv.child.map der).mergeSort (· ≤ ·) else tlv.child.map der) children →
      ∀ room, content.length ≤ room → unparseContent { tlv with child := children } room = some content) :
    ∃ l tlv', Good tlv l tlv' := by
  obtain ⟨cells, trees, hcells⟩ := goodCells hgood
  obtain ⟨children, htree, hsorts, hwrites⟩ := hcells.children hlast
  refine ⟨_, _, hcells.sort_eq, htree, hsorts, ?_⟩
  have hoff := hheaded.off
  have hheaded' : Headed { tlv with child := children } header := ⟨hheaded.written, hoff, hheaded.fits⟩
  rw [hder]
  refine ⟨?_, hheaded.fits, ?_, fun room hroom => ?_⟩
  · rw [List.length_append, Nat.cast_add, hoff, hlen]
  · simp [unparseClsTagLen_ne_nil hheaded.written]
  · rw [List.length_append] at hroom
    exact atlvUnparseDer_headed hheaded' hroom (hcontent children hwrites _ (by omega))

theorem bad_of_children (hnot : ¬LastGreatest tlv)
    (ih : ∀ ctlv ∈ tlv.child, (LastGreatest ctlv → ∃ l tlv', Good ctlv l tlv') ∧ (¬LastGreatest ctlv → Bad ctlv)) :
    Bad tlv := by
  intro l hl
  rw [lastGreatest_iff, not_and_or, not_forall] at hnot
  obtain ⟨ctlv, hctlv⟩ | hlast := hnot
  case inl =>
    rw [Classical.not_imp] at hctlv
    obtain ⟨cells, chain, hcells, rfl⟩ := sortPerform_cases hl
    exact toTree_mk_none (badCells hctlv.1 ((ih ctlv hctlv.1).2 hctlv.2) hcells) chain
  case inr =>
    by_cases hall : ∀ ctlv ∈ tlv.child, LastGreatest ctlv
    case neg =>
      simp only [not_forall] at hall
      obtain ⟨ctlv, hmem, hctlv⟩ := hall
      obtain ⟨cells, chain, hcells, rfl⟩ := sortPerform_cases hl
      exact toTree_mk_none (badCells hmem ((ih ctlv hmem).2 hctlv) hcells) chain
    case pos =>
      obtain ⟨hsorted, hlast⟩ := Classical.not_imp.mp hlast
      obtain ⟨cells, trees, hcells⟩ := goodCells fun ctlv hmem => (ih ctlv hmem).1 (hall ctlv hmem)
      obtain rfl := Option.some.inj (hcells.sort_eq.symm.trans hl)
      have hendless := sortedChain_endless hlast (sortedChain (tlv.child.map der)).next.length
      rw [toTree_mk hcells.toTrees, childChain, if_pos hsorted, inChain, Chain.cells, hendless]
      rfl

theorem length_of_unparseValue {value : Bytes} (h : unparseValue tlv value = some octets) : octets.length = tlv.len := by
  obtain ⟨hlen, heq⟩ := Option.ite_none_right_eq_some.mp h
  exact Option.some.inj heq ▸ hlen

theorem length_flatten_ders (h : ∀ ctlv ∈ tlvs, (der ctlv).length = ctlv.off + ctlv.len) :
    (tlvs.map der).flatten.length = (tlvs.map fun ctlv => ctlv.off + ctlv.len).sum := by
  induction tlvs with
  | nil => rfl
  | cons ctlv tlvs ih =>
    obtain ⟨hctlv, htlvs⟩ := List.forall_mem_cons.mp h
    rw [List.map_cons, List.flatten_cons, List.length_append, Nat.cast_add, ih htlvs, hctlv, List.map_cons, List.sum_cons]

-- The contents of an element, of which the header says how long it is.
theorem WellSized.encoded (h : WellSized tlv) : ∃ header content, Headed tlv header ∧ der tlv = header ++ content ∧
    content.length = tlv.len ∧ ((∃ value, tlv.value = some value ∧ tlv.child = [] ∧
      unparseValue tlv value.data = some content) ∨ tlv.value = none ∧ (∀ ctlv ∈ tlv.child, WellSized ctlv) ∧
      content = (if tlv.sorted then (tlv.child.map der).mergeSort (· ≤ ·) else tlv.child.map der).flatten) := by
  induction h with
  | @value tlv value header octets hheaded hvalue hchild hoctets =>
    refine ⟨header, octets, hheaded, ?_, length_of_unparseValue hoctets, .inl ⟨value, hvalue, hchild, hoctets⟩⟩
    rw [der_eq, hheaded.written, hvalue, Option.getD_some]
    dsimp only
    rw [hoctets, Option.getD_some]
  | @children tlv header hheaded hvalue hlen hchildren ih =>
    refine ⟨header, _, hheaded, ?_, ?_, .inr ⟨hvalue, hchildren, rfl⟩⟩
    · rw [der_eq, hheaded.written, hvalue, Option.getD_some]
      dsimp only
      split
      all_goals rfl
    · have hders : ∀ ctlv ∈ tlv.child, (der ctlv).length = ctlv.off + ctlv.len := by
        intro ctlv hmem
        obtain ⟨header, content, hheaded, hder, hlen, -⟩ := ih ctlv hmem
        rw [hder, List.length_append, Nat.cast_add, hheaded.off, hlen]
      rw [hlen, ← length_flatten_ders hders]
      split
      case isTrue  => rw [flatten_length_mergeSort]
      case isFalse => rfl

theorem good_or_bad (h : WellSized tlv) :
    (LastGreatest tlv → ∃ l tlv', Good tlv l tlv') ∧ (¬LastGreatest tlv → Bad tlv) := by
  have hcontents := h.encoded
  induction h with
  | @value tlv value header octets hheaded hvalue hchild hoctets =>
    refine ⟨fun hgreatest => ?_, fun hnot => bad_of_children hnot (by simp [hchild])⟩
    obtain ⟨header, content, hheaded, hder, hlen, ⟨v, hv, -, hcontent⟩ | ⟨hnone, -⟩⟩ := hcontents
    case inr => cases hvalue.symm.trans hnone
    refine good_of_children hheaded hder hlen (by simp [hchild]) ((lastGreatest_iff).mp hgreatest).2 fun children _ room _ => ?_
    rw [unparseContent]
    dsimp only
    rw [hv]
    exact hcontent
  | @children tlv header hheaded hvalue hlen hchildren ih =>
    have ih := fun ctlv hmem => ih ctlv hmem (hchildren ctlv hmem).encoded
    refine ⟨fun hgreatest => ?_, fun hnot => bad_of_children hnot ih⟩
    obtain ⟨hall, hlast⟩ := (lastGreatest_iff).mp hgreatest
    obtain ⟨header, content, hheaded, hder, hlen, ⟨v, hv, -⟩ | ⟨-, -, rfl⟩⟩ := hcontents
    case inl => cases hvalue.symm.trans hv
    have hgood : ∀ ctlv ∈ tlv.child, ∃ l tlv', Good ctlv l tlv' := fun ctlv hmem => (ih ctlv hmem).1 (hall ctlv hmem)
    refine good_of_children hheaded hder hlen hgood hlast fun children hwrites room hroom => ?_
    rw [unparseContent]
    dsimp only
    rw [hvalue]
    exact unparseChildren_writes hwrites hroom

theorem sizeOf_lt_of_mem_child (h : ctlv ∈ tlv.child) : sizeOf ctlv < sizeOf tlv := by
  have hlt := List.sizeOf_lt_of_mem h
  cases tlv
  simp only [Atlv.mk.sizeOf_spec] at hlt ⊢
  omega

theorem map_der_congr (h : List.Forall₂ Reordered tlvs trees)
    (ih : ∀ ctlv ∈ tlvs, ∀ ctlv', Reordered ctlv ctlv' → der ctlv' = der ctlv) : trees.map der = tlvs.map der := by
  induction h with
  | nil => rfl
  | @cons ctlv ctlv' tlvs trees hctlv _ ih' =>
    obtain ⟨hder, ih⟩ := List.forall_mem_cons.mp ih
    rw [List.map_cons, List.map_cons, hder ctlv' hctlv, ih' ih]

theorem mergeSort_perm_eq {encodings' : List Bytes} (h : encodings.Perm encodings') :
    encodings.mergeSort (· ≤ ·) = encodings'.mergeSort (· ≤ ·) := by
  have hpairwise : ∀ es : List Bytes, (es.mergeSort (· ≤ ·)).Pairwise (· ≤ ·) := by
    intro es
    rw [← sortedPairs_fst, List.pairwise_map]
    exact sortedPairs_pairwise es
  refine @List.Perm.eq_of_pairwise _ (· ≤ ·) _ _ (fun a b _ _ => List.le_antisymm) (hpairwise _) (hpairwise _) ?_
  exact (List.mergeSort_perm _ _).trans (h.trans (List.mergeSort_perm _ _).symm)

-- The encoding does not depend on the order of the children of sorted elements.
theorem Reordered.der_eq (tlv tlv' : Atlv) : Reordered tlv tlv' → der tlv' = der tlv
  | @Reordered.mk _ children children' hchildren hperm hsame => by
    have hmap := map_der_congr hchildren fun ctlv hmem ctlv' h => Reordered.der_eq ctlv ctlv' h
    have hders : (children'.map der).Perm (tlv.child.map der) := hmap ▸ hperm.map der
    rw [Asn1x.der_eq, Asn1x.der_eq tlv]
    cases hvalue : tlv.value with
    | some value => rfl
    | none =>
      dsimp only
      by_cases hsorted : tlv.sorted
      case pos => rw [if_pos hsorted, if_pos hsorted, mergeSort_perm_eq hders]
      case neg => rw [if_neg hsorted, if_neg hsorted, hsame hsorted, hmap]
termination_by tlv
decreasing_by exact sizeOf_lt_of_mem_child hmem

theorem setsSorted_iff (h : WellSized tlv) : SetsSorted tlv ↔ LastGreatest tlv := by
  obtain ⟨hgood, hbad⟩ := good_or_bad h
  constructor
  case mp =>
    rintro ⟨l, tlv', bytes, hsort, htree, -⟩
    by_contra hnot
    rw [hbad hnot l hsort] at htree
    cases htree
  case mpr =>
    intro hgreatest
    obtain ⟨l, tlv', hgood⟩ := hgood hgreatest
    refine ⟨l, tlv', ⟨der tlv, []⟩, hgood.sort, hgood.tree, hgood.sorts, hgood.writes.toBytes, ?_, rfl⟩
    rw [hgood.writes.length, hgood.sorts.size]

theorem SetsSorted.encoding_eq (h : SetsSorted tlv) :
    ∃ bytes : GBytes, encoding tlv = some (some bytes) ∧ bytes.data = der tlv := by
  obtain ⟨l, tlv', bytes, hsort, htree, -, hbytes, -, hder⟩ := h
  refine ⟨bytes, ?_, hder⟩
  rw [encoding, hsort, Option.bind_eq_bind, Option.bind_some, htree]
  exact hbytes

theorem setOf_sorted_iff (tlv : Atlv) (h : WellSized tlv) :
    (SetsSorted tlv ↔ LastGreatest tlv) ∧
    ∀ tlv', Reordered tlv tlv' → SetsSorted tlv → SetsSorted tlv' →
      ∃ a b : GBytes, encoding tlv = some (some a) ∧ encoding tlv' = some (some b) ∧ a.data = b.data := by
  refine ⟨setsSorted_iff h, fun tlv' hreordered hsorted hsorted' => ?_⟩
  obtain ⟨a, ha, hder⟩ := hsorted.encoding_eq
  obtain ⟨b, hb, hder'⟩ := hsorted'.encoding_eq
  exact ⟨a, b, ha, hb, by rw [hder, hder', hreordered.der_eq]⟩

def exampleElement (c : UInt8) : Atlv where
  cls   := 0
  tag   := 2
  off   := 2
  len   := 1
  value := some ⟨[c], []⟩

def exampleSet (cs : List UInt8) : Atlv where
  cls    := 0x20
  tag    := 0x11
  off    := 2
  len    := 3 * cs.length
  child  := cs.map exampleElement
  sorted := true

theorem exampleSet_wellSized (a b : UInt8) : WellSized (exampleSet [a, b]) := by
  have hleaf : ∀ c, WellSized (exampleElement c) := fun c =>
    .value ⟨rfl, rfl, (by decide : (2 : Int) + 1 < 2 ^ 31)⟩ rfl rfl (rfl : unparseValue (exampleElement c) [c] = some [c])
  have hheaded : Headed (exampleSet [a, b]) [0x31, 6] := 
    ⟨(by decide : atlvUnparseClsTagLen 0x20 0x11 6 = some [0x31, 6]), rfl, by simp [exampleSet]⟩
  refine .children hheaded rfl rfl fun ctlv hmem => ?_
  obtain ⟨c, -, rfl⟩ := List.mem_map.mp hmem
  exact hleaf c

theorem der_exampleElement (c : UInt8) : der (exampleElement c) = [2, 1, c] := by
  have hheader : atlvUnparseClsTagLen 0 2 1 = some [2, 1] := rfl
  have hvalue : unparseValue (exampleElement c) [c] = some [c] := rfl
  rw [der_eq, exampleElement]
  dsimp only
  rw [hheader]
  rfl

theorem setOf_sorted_iff_exampleSet :
    (SetsSorted (exampleSet [3, 8]) ↔ LastGreatest (exampleSet [3, 8])) ∧
    ∀ tlv', Reordered (exampleSet [3, 8]) tlv' → SetsSorted (exampleSet [3, 8]) → SetsSorted tlv' →
      ∃ a b : GBytes, encoding (exampleSet [3, 8]) = some (some a) ∧ encoding tlv' = some (some b) ∧ a.data = b.data :=
  setOf_sorted_iff (exampleSet [3, 8]) (exampleSet_wellSized 3 8)

-- Of 8 and 3 the last one is not the greatest.
theorem setOf_not_sorted : WellSized (exampleSet [8, 3]) ∧ ¬SetsSorted (exampleSet [8, 3]) := by
  have hsized := exampleSet_wellSized 8 3
  refine ⟨hsized, fun h => ?_⟩
  have hlast := ((lastGreatest_iff).mp ((setsSorted_iff hsized).mp h)).2 rfl
  have hders : (exampleSet [8, 3]).child.map der = [[2, 1, 8]] ++ [[2, 1, 3]] := by
    simp [exampleSet, der_exampleElement]
  rw [hders, lastIsGreatest_concat] at hlast
  exact absurd (hlast [2, 1, 8] (by simp)) (by decide)

end Asn1x
