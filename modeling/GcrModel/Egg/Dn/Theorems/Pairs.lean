import GcrModel.Egg.Asn1x.Theorems.ObjectId
import GcrModel.Egg.Dn.Theorems.Decoded

namespace Dn

variable {ρ σ α : Type} {step : Nat → Nat → α → σ → Except ρ σ} {body : Nat → Nat → σ → Option (Turn ρ σ)}
variable {row : List α} {rows : List (List α)} {state : σ} {counters limit i j : Nat}

-- The steps for the pairs of an RDN from the one with the number `j` on.
@[grind =]
def runRow (step : Nat → Nat → α → σ → Except ρ σ) (i : Nat) : Nat → List α → σ → Except ρ σ
  | _, [],        state => .ok state
  | j, a :: row, state => (step i j a state).bind (runRow step i (j + 1) row)

-- The steps for all pairs, from the RDN with the number `i` on.
@[grind =]
def runRows (step : Nat → Nat → α → σ → Except ρ σ) : Nat → List (List α) → σ → Except ρ σ
  | _, [],          state => .ok state
  | i, row :: rows, state => (runRow step i 1 row state).bind (runRows step (i + 1) rows)

-- What is done at a pair, or where there is none.
def turn (step : α → σ → Except ρ σ) (a : Option α) (state : σ) : Turn ρ σ :=
  match a with
  | none   => .last
  | some a =>
    match step a state with
    | .error result => .leave result
    | .ok state     => .next state

def VisitsRow (body : Nat → σ → Option (Turn ρ σ)) (step : Nat → α → σ → Except ρ σ) (j : Nat) (row : List α) : Prop :=
  ∀ k ≤ row.length, ∀ state, body (j + k) state = some (turn (step (j + k)) row[k]? state)

-- The nodes that are looked up are the pairs of the rows, and none behind them.
def Visits (body : Nat → Nat → σ → Option (Turn ρ σ)) (step : Nat → Nat → α → σ → Except ρ σ) (i : Nat)
    (rows : List (List α)) : Prop :=
  ∀ m ≤ rows.length, VisitsRow (body (i + m)) (step (i + m)) 1 (rows.getD m [])

theorem VisitsRow.tail {body : Nat → σ → Option (Turn ρ σ)} {step : Nat → α → σ → Except ρ σ} {a : α}
    (h : VisitsRow body step j (a :: row)) : VisitsRow body step (j + 1) row := by
  intro k hk state
  have hnext := h (k + 1) (Nat.succ_le_succ hk) state
  rwa [List.getElem?_cons_succ, Nat.add_left_comm, Nat.add_comm] at hnext

theorem Visits.tail (h : Visits body step i (row :: rows)) : Visits body step (i + 1) rows := by
  intro m hm
  have hnext := h (m + 1) (Nat.succ_le_succ hm)
  rwa [List.getD_cons_succ, Nat.add_left_comm, Nat.add_comm] at hnext

theorem Visits.head (h : Visits body step i (row :: rows)) : VisitsRow (body i) (step i) 1 row :=
  h 0 (Nat.zero_le _)

-- The loop over an RDN with few enough pairs.
theorem pairLoop_eq (h : VisitsRow (body i) (step i) j row) (hlen : row.length < limit) :
    pairLoop (body i) limit j state =
      some ((runRow step i j row state).map fun state => (state, decide (j + row.length = 1))) := by
  induction row generalizing limit j state with
  | nil =>
    obtain ⟨limit, rfl⟩ := Nat.exists_eq_succ_of_ne_zero (Nat.ne_zero_of_lt hlen)
    have hlast := h 0 (Nat.le_refl _) state
    rw [Nat.add_zero] at hlast
    rw [pairLoop, hlast]
    rfl
  | cons a row ih =>
    obtain ⟨limit, rfl⟩ := Nat.exists_eq_succ_of_ne_zero (Nat.ne_zero_of_lt hlen)
    have hfirst := h 0 (Nat.zero_le _) state
    rw [Nat.add_zero, List.getElem?_cons_zero] at hfirst
    have hcount : j + (a :: row).length = j + 1 + row.length := by
      rw [List.length_cons]
      omega
    rw [pairLoop, hfirst, runRow, turn, hcount]
    cases step i j a state with
    | error result => rfl
    | ok state     => exact ih h.tail (Nat.lt_of_succ_lt_succ hlen)

theorem pairLoop_length {result : σ × Bool} (h : VisitsRow (body i) (step i) j row)
    (hloop : pairLoop (body i) limit j state = some (.ok result)) : row.length < limit := by
  induction row generalizing limit j state with
  | nil =>
    cases limit with
    | zero       => cases hloop
    | succ limit => exact Nat.succ_pos limit
  | cons a row ih =>
    cases limit with
    | zero => cases hloop
    | succ limit =>
      have hfirst := h 0 (Nat.zero_le _) state
      rw [Nat.add_zero, List.getElem?_cons_zero] at hfirst
      rw [pairLoop, hfirst, turn] at hloop
      cases hstep : step i j a state with
      | error result => simp [hstep] at hloop
      | ok state     =>
        rw [hstep] at hloop
        exact Nat.succ_lt_succ (ih h.tail hloop)

-- The loop over all RDNs goes over all pairs, where no RDN is empty.
theorem rdnLoop_eq (h : Visits body step i rows) (hne : ∀ row ∈ rows, row ≠ []) (hlen : rows.length + 1 < limit)
    (hrows : ∀ row ∈ rows, row.length < counters) (hcounters : 0 < counters) :
    rdnLoop body counters limit i state =
      some ((runRows step i rows state).map fun state => (state, i + rows.length + 1)) := by
  induction rows generalizing limit i state with
  | nil =>
    obtain ⟨limit, rfl⟩ := Nat.exists_eq_succ_of_ne_zero (Nat.ne_zero_of_lt hlen)
    have hnone : VisitsRow (body i) (step i) 1 [] := h 0 (Nat.le_refl _)
    have hlimit : limit ≠ 0 := by
      rw [List.length_nil] at hlen
      omega
    rw [rdnLoop, pairLoop_eq hnone hcounters, runRow]
    simp only [Except.map, List.length_nil, Option.bind_eq_bind, Option.bind_some, hlimit, if_false]
    rfl
  | cons row rows ih =>
    obtain ⟨limit, rfl⟩ := Nat.exists_eq_succ_of_ne_zero (Nat.ne_zero_of_lt hlen)
    obtain ⟨hrow, hrest⟩ := List.forall_mem_cons.mp hne
    obtain ⟨hlength, hlengths⟩ := List.forall_mem_cons.mp hrows
    rw [List.length_cons] at hlen
    have hlimit : limit ≠ 0 := by omega
    have hdone : ¬1 + row.length = 1 := by
      have hpos := List.length_pos_iff.mpr hrow
      omega
    have hcount : i + (row :: rows).length + 1 = i + 1 + rows.length + 1 := by
      rw [List.length_cons]
      omega
    rw [rdnLoop, pairLoop_eq h.head hlength, runRows, hcount]
    cases runRow step i 1 row state with
    | error result => rfl
    | ok state =>
      simp only [Except.map, Option.bind_eq_bind, Option.bind_some, hlimit, if_false, hdone, decide_false,
        Bool.false_eq_true]
      exact ih h.tail hrest (by omega) hlengths

theorem rdnLoop_length {result : σ × Nat} (h : Visits body step i rows) (hne : ∀ row ∈ rows, row ≠ [])
    (hloop : rdnLoop body counters limit i state = some (.ok result)) :
    rows.length + 1 < limit ∧ ∀ row ∈ rows, row.length < counters := by
  induction rows generalizing limit i state with
  | nil =>
    cases limit with
    | zero => cases hloop
    | succ limit =>
      have hnone : VisitsRow (body i) (step i) 1 [] := h 0 (Nat.le_refl _)
      obtain ⟨r, hr, hloop⟩ := Option.bind_eq_some_iff.mp hloop
      have hcounters : 0 < counters := by
        cases counters with
        | zero       => cases hr
        | succ limit => exact Nat.succ_pos limit
      rw [pairLoop_eq hnone hcounters] at hr
      cases hr
      have hlimit : limit ≠ 0 := by
        rintro rfl
        cases hloop
      refine ⟨?_, by simp⟩
      rw [List.length_nil]
      omega
  | cons row rows ih =>
    obtain ⟨hrow, hrest⟩ := List.forall_mem_cons.mp hne
    cases limit with
    | zero => cases hloop
    | succ limit =>
      obtain ⟨r, hr, hloop⟩ := Option.bind_eq_some_iff.mp hloop
      cases r with
      | error result => cases hloop
      | ok r =>
        have hlength := pairLoop_length h.head hr
        have hdone : ¬1 + row.length = 1 := by
          have hpos := List.length_pos_iff.mpr hrow
          omega
        rw [pairLoop_eq h.head hlength] at hr
        cases hrun : runRow step i 1 row state with
        | error result => simp [hrun, Except.map] at hr
        | ok state     =>
          rw [hrun] at hr
          cases hr
          dsimp only at hloop
          split at hloop
          case isTrue  => cases hloop
          case isFalse =>
            simp only [hdone, decide_false, Bool.false_eq_true, if_false] at hloop
            obtain ⟨hlen, hlengths⟩ := ih h.tail hrest hloop
            exact ⟨Nat.succ_lt_succ hlen, List.forall_mem_cons.mpr ⟨hlength, hlengths⟩⟩

end Dn

-- The pairs that the loops over a name go over.
namespace Dn

open GLib Asn1x

variable {now i j : Nat} {data : GBytes} {tlv t v : Atlv} {dn node child : GNode} {steps : List Step} {nodes : List GNode} {r : ValueReader}
variable {rows : List (List Pair)} {row : List Pair} {p : Pair} {wanted oid : Bytes}

structure Pair where
  oid   : Bytes
  value : Atlv

-- The pair that an attribute is.
def pairOf (pair : Atlv) : Option Pair :=
  match pair.child with
  | [t, v] =>
    match eggAsn1xGetOidAsString (typeNode t) with
    | some (some oid) => some ⟨oid, v⟩
    | _               => none
  | _ => none

-- The pairs of the RDNs of a name, in the order of its elements.
def pairsOf (tlv : Atlv) : Option (List (List Pair)) :=
  tlv.child.mapM fun rdn => rdn.child.mapM pairOf

-- The node of an attribute.
structure IsPair (p : Pair) (node : GNode) : Prop where
  type  : ∃ t, nodeAt node [.name (identifier "type")] = some (some t) ∧ eggAsn1xGetOidAsString t = some (some p.oid)
  value : nodeAt node [.name (identifier "value")] = some (some (valueNode p.value))

-- The node of an RDN.
structure IsRow (row : List Pair) (node : GNode) : Prop where
  type  : anodeDefType node = .setOf
  pairs : List.Forall₂ IsPair row (node.children.filter eggAsn1xHave)

-- The node of a name.
structure HasPairs (rows : List (List Pair)) (dn : GNode) : Prop where
  type : anodeDefType dn = .sequenceOf
  rows : List.Forall₂ IsRow rows (dn.children.filter eggAsn1xHave)

-- Elements that are read one by one.
theorem mapM_of_forall₂ {α β γ : Type} {f : α → Option β} {q : α → γ → Prop} {s : β → γ → Prop} {as : List α} {cs : List γ}
    (h : List.Forall₂ q as cs) (hf : ∀ a c, q a c → c ∈ cs → ∃ b, f a = some b ∧ s b c) :
    ∃ bs, as.mapM f = some bs ∧ List.Forall₂ s bs cs := by
  induction h with
  | nil => exact ⟨[], rfl, .nil⟩
  | cons hac _ ih =>
    obtain ⟨b, hb, hs⟩ := hf _ _ hac List.mem_cons_self
    obtain ⟨bs, hbs, hall⟩ := ih fun a c hac hc => hf a c hac (List.mem_cons_of_mem _ hc)
    exact ⟨b :: bs, by simp [hb, hbs], .cons hs hall⟩

-- A type that is valid can be read.
theorem oid_of_valid (h : anodeValidateAnything now true (typeNode t) = some (true, node)) :
    ∃ oid, eggAsn1xGetOidAsString (typeNode t) = some (some oid) := by
  have htype : anodeDefType (typeNode t) = .objectId := rfl
  have hflags : anodeDefFlags (typeNode t) = [.right, .right] := rfl
  have hsimple : anodeValidateSimple now (typeNode t) = some (true, node) := by
    rwa [typeNode, anodeValidateAnything] at h
  rw [anodeValidateSimple] at hsimple
  split at hsimple
  case h_2 =>
    rw [htype, hflags, if_neg (by simp [EggAsn1xType.isString]), if_neg (by decide)] at hsimple
    cases hsimple
  case h_1 value hvalue =>
    rw [anodeValidateValue, htype] at hsimple
    obtain ⟨⟨ok, other, oid⟩, hread, heq⟩ := Option.map_eq_some_iff.mp hsimple
    cases heq
    rw [eggAsn1xGetOidAsString, htype, if_neg (by simp), hvalue]
    dsimp only
    rw [hread, Option.map_some]
    rw [anodeReadObjectId] at hread
    split at hread
    case h_1 => cases hread
    case h_2 =>
      dsimp only at hread
      split at hread
      case h_1 => cases hread
      case h_2 =>
        cases hread
        exact ⟨_, rfl⟩

theorem nul_notMem_oid (h : eggAsn1xGetOidAsString node = some (some oid)) : 0 ∉ oid := by
  rw [eggAsn1xGetOidAsString] at h
  split at h
  case isTrue  => cases h
  case isFalse =>
    split at h
    case h_1 => cases h
    case h_2 =>
      obtain ⟨⟨ok, other, read⟩, hread, heq⟩ := Option.map_eq_some_iff.mp h
      rw [anodeReadObjectId] at hread
      split at hread
      case h_1 => cases hread
      case h_2 =>
        dsimp only at hread
        split at hread
        case h_1 =>
          cases hread
          cases heq
        case h_2 =>
          cases hread
          cases heq
          exact nul_notMem_dotted _

theorem isPair_of_attribute (hchild : tlv.child = [t, v]) (hoid : eggAsn1xGetOidAsString (typeNode t) = some (some oid)) :
    pairOf tlv = some ⟨oid, v⟩ ∧ IsPair ⟨oid, v⟩ (attributeNode tlv) := by
  have hpair : pairOf tlv = some ⟨oid, v⟩ := by
    rw [pairOf, hchild]
    dsimp only
    rw [hoid]
  have hnode : (attributeNode tlv).children = [typeNode t, valueNode v] := by
    rw [attributeNode, hchild]
    rfl
  have htype : anodeChildWithName (identifier "type") [typeNode t, valueNode v] = some (some 0) := rfl
  have hvalue : anodeChildWithName (identifier "value") [typeNode t, valueNode v] = some (some 1) := rfl
  refine ⟨hpair, ⟨⟨typeNode t, ?_, hoid⟩, ?_⟩⟩
  · exact nodeAt_name rfl (hnode ▸ htype) (by rw [hnode]; rfl)
  · exact nodeAt_name rfl (hnode ▸ hvalue) (by rw [hnode]; rfl)

-- A valid RDN has pairs.
theorem pairs_of_rdn (h : IsRdn tlv node) (hvalid : anodeValidateAnything now true node = some (true, node)) :
    ∃ row, tlv.child.mapM pairOf = some row ∧ row ≠ [] ∧ IsRow row node := by
  obtain ⟨children, rfl, hall⟩ := h
  obtain ⟨hchildren, other, hsize, hdata⟩ := valid_list (.inr rfl) rfl hvalid
  obtain ⟨row, hrow, hpairs⟩ : ∃ row, tlv.child.mapM pairOf = some row ∧
      List.Forall₂ IsPair row (children.filter eggAsn1xHave) := by
    refine mapM_of_forall₂ hall.each fun pair child hpair hc => ?_
    obtain ⟨⟨t, v, hchild⟩, rfl⟩ := hpair
    have hattribute := hchildren _ hc
    have ht : anodeValidateAnything now true (typeNode t) = some (true, typeNode t) := by
      rw [attributeNode, hchild] at hattribute
      exact valid_sequence rfl rfl hattribute List.mem_cons_self
    obtain ⟨oid, hoid⟩ := oid_of_valid ht
    exact ⟨_, isPair_of_attribute hchild hoid⟩
  refine ⟨row, hrow, ?_, rfl, hpairs⟩
  rintro rfl
  exact validateSize_rdn hdata hsize hpairs.length_eq.symm

theorem IsDecoded.hasPairs (h : IsDecoded now data tlv dn) :
    ∃ rows, pairsOf tlv = some rows ∧ (∀ row ∈ rows, row ≠ []) ∧ HasPairs rows dn := by
  have hvalid : anodeValidateAnything now true (.mk dn.data dn.children) = some (true, dn) := by
    rw [GNode.mk_data_children]
    exact h.valid
  obtain ⟨hchildren, -⟩ := valid_list (.inl h.type) h.flags hvalid
  have hrdns := h.elements.each
  obtain ⟨rows, hrows, hall⟩ := mapM_of_forall₂ hrdns fun rdn node hrdn hc => by
    obtain ⟨row, hrow, hne, his⟩ := pairs_of_rdn hrdn (hchildren node hc)
    exact ⟨row, hrow, (⟨hne, his⟩ : row ≠ [] ∧ IsRow row node)⟩
  obtain ⟨hne, hall⟩ := (List.forall₂_and_left _ _).mp hall
  exact ⟨rows, hrows, hne, h.type, hall⟩

theorem getElem?_none_of_forall₂ {α β : Type} {q : α → β → Prop} {as : List α} {bs : List β} {k : Nat}
    (h : List.Forall₂ q as bs) (hnone : as[k]? = none) : bs[k]? = none := by
  rw [List.getElem?_eq_none_iff] at hnone ⊢
  rwa [← h.length_eq]

theorem getElem?_some_of_forall₂ {α β : Type} {q : α → β → Prop} {as : List α} {bs : List β} {a : α} {k : Nat}
    (h : List.Forall₂ q as bs) (hsome : as[k]? = some a) : ∃ b, bs[k]? = some b ∧ q a b := by
  induction h generalizing k with
  | nil => cases hsome
  | cons hab _ ih =>
    cases k with
    | zero =>
      cases hsome
      exact ⟨_, rfl, hab⟩
    | succ k => exact ih hsome

-- The children of a list that are found are those with data.
theorem nodeAt_list_none (hlist : (anodeDefType node).isList) (hnone : (node.children.filter eggAsn1xHave)[i]? = none) :
    nodeAt node (.index (i + 1 : Nat) :: steps) = some none := by
  rw [nodeAt_index hlist, hnone]

theorem nodeAt_list_some (hlist : (anodeDefType node).isList)
    (hsome : (node.children.filter eggAsn1xHave)[i]? = some child) :
    nodeAt node (.index (i + 1 : Nat) :: steps) = nodeAt child steps := by
  rw [nodeAt_index hlist, hsome]

theorem IsRow.isList (h : IsRow row node) : (anodeDefType node).isList := by
  rw [h.type]
  rfl

theorem HasPairs.isList (h : HasPairs rows dn) : (anodeDefType dn).isList := by
  rw [h.type]
  rfl

-- There is no node for a pair that is not there.
theorem HasPairs.nodeAt_none (h : HasPairs rows dn) (hnone : (rows.getD i [])[j]? = none) :
    nodeAt dn (.index (i + 1 : Nat) :: .index (j + 1 : Nat) :: steps) = some none := by
  cases hrow : rows[i]? with
  | none     => exact nodeAt_list_none h.isList (getElem?_none_of_forall₂ h.rows hrow)
  | some row =>
    obtain ⟨node, hnode, his⟩ := getElem?_some_of_forall₂ h.rows hrow
    rw [nodeAt_list_some h.isList hnode]
    rw [List.getD_eq_getElem?_getD, hrow] at hnone
    exact nodeAt_list_none his.isList (getElem?_none_of_forall₂ his.pairs hnone)

theorem HasPairs.nodeAt_some (h : HasPairs rows dn) (hsome : (rows.getD i [])[j]? = some p) :
    ∃ pair, IsPair p pair ∧
      ∀ steps, nodeAt dn (.index (i + 1 : Nat) :: .index (j + 1 : Nat) :: steps) = nodeAt pair steps := by
  cases hrow : rows[i]? with
  | none =>
    rw [List.getD_eq_getElem?_getD, hrow] at hsome
    cases hsome
  | some row =>
    obtain ⟨node, hnode, his⟩ := getElem?_some_of_forall₂ h.rows hrow
    rw [List.getD_eq_getElem?_getD, hrow] at hsome
    obtain ⟨pair, hpair, hp⟩ := getElem?_some_of_forall₂ his.pairs hsome
    refine ⟨pair, hp, fun steps => ?_⟩
    rw [nodeAt_list_some h.isList hnode, nodeAt_list_some his.isList hpair]

end Dn
