import GcrModel.Egg.Asn1x.Theorems.Lists

-- How a root without children of its own is decoded.
namespace Asn1x

open GLib

variable {asn node node' : GNode} {data content : GBytes} {tlv ctlv : Atlv} {now : Nat}

theorem same_clear (asn : GNode) : Same asn (eggAsn1xClear asn) := by
  cases asn with
  | mk data children =>
    rw [eggAsn1xClear, clearNode]
    dsimp only
    split
    case isTrue => exact ⟨rfl, rfl, rfl⟩
    case isFalse =>
      split
      all_goals exact ⟨rfl, rfl, rfl⟩

-- The element that is decoded into a root, which an explicit tag may be around.
structure Carries (asn : GNode) (tlv ctlv : Atlv) : Prop where
  tag       : anodeCalcTag asn = maxUlong ∨ anodeCalcTag asn = tlv.tag
  plain     : (anodeCalcExplicitForFlags asn (anodeDefFlags asn)).1 = false → ctlv = tlv
  explicit  : (anodeCalcExplicitForFlags asn (anodeDefFlags asn)).1 = true →
    tlv.cls &&& classContextSpecific ≠ 0 ∧ tlv.child = [ctlv]
  primitive : ctlv.cls &&& classStructured = 0

theorem Same.calcTag (h : Same node node') : anodeCalcTag node' = anodeCalcTag node := by
  simp only [anodeCalcTag, anodeCalcTagForFlags, h.flags_eq, h.type_eq, anodeOptLookup, h.opts]

theorem Same.explicit (h : Same node node') (flags : List Flag) :
    anodeCalcExplicitForFlags node' flags = anodeCalcExplicitForFlags node flags := by
  simp only [anodeCalcExplicitForFlags, anodeOptLookup, h.opts]

theorem Same.carries (h : Same node node') (c : Carries node tlv ctlv) : Carries node' tlv ctlv where
  tag       := by simpa only [h.calcTag] using c.tag
  plain     := by simpa only [h.explicit, h.flags_eq] using c.plain
  explicit  := by simpa only [h.explicit, h.flags_eq] using c.explicit
  primitive := c.primitive

theorem explicit_withoutTag (node : GNode) (flags : List Flag) :
    (anodeCalcExplicitForFlags node (withoutTag flags)).1 = false := by
  rw [anodeCalcExplicitForFlags, withoutTag_notMem]
  rfl

theorem decodeOneWithoutTag_carried (c : Carries node tlv ctlv) {ok : Bool}
    (h : anodeDecodePrimitive node ctlv = some (ok, node')) :
    ∃ parsed, anodeDecodeOneWithoutTag node tlv (anodeDefFlags node) =
      some (ok, markParsed ok tlv (markParsed ok parsed node')) := by
  have hplain : ∀ flags, (anodeCalcExplicitForFlags node flags).1 = false →
      anodeDecodeOneWithoutTag node ctlv flags = some (ok, markParsed ok ctlv node') := by
    intro flags hflags
    rw [anodeDecodeOneWithoutTag, hflags, if_neg (by simp)]
    dsimp only
    rw [if_neg (by simp [c.primitive]), h]
    rfl
  by_cases hexplicit : (anodeCalcExplicitForFlags node (anodeDefFlags node)).1 = true
  case pos =>
    obtain ⟨hcls, hchild⟩ := c.explicit hexplicit
    refine ⟨ctlv, ?_⟩
    rw [anodeDecodeOneWithoutTag, if_pos hexplicit, if_neg hcls]
    split
    case h_1 hnil => simp [hnil] at hchild
    case h_2 ctlv' hone =>
      obtain rfl : ctlv' = ctlv := by simpa [hone] using hchild
      rw [hplain _ (explicit_withoutTag node _)]
      rfl
    case h_3 hnone => exact absurd hchild (hnone ctlv)
  case neg =>
    have hfalse := Bool.eq_false_iff.mpr hexplicit
    obtain rfl := c.plain hfalse
    refine ⟨ctlv, ?_⟩
    rw [hplain _ hfalse]
    cases ok
    case false => rfl
    case true  => rfl

-- The element is decoded into the root without its data, and then the root is validated.
theorem decode_carried (now : Nat) (hparse : atlvParseDer data = some (.ok tlv)) (c : Carries asn tlv ctlv)
    {r : GNode → Bool × GNode} (h : ∀ n, Same asn n → anodeDecodePrimitive n ctlv = some (r n)) :
    ∃ n, Same asn n ∧
      ((r n).1 = true →
        eggAsn1xDecode now asn data = eggAsn1xValidate now ((r n).2.modify ({ · with parsed := some tlv })) true) ∧
      ((r n).1 = false → ∃ asn', eggAsn1xDecode now asn data = some (false, asn')) := by
  have hsame := same_clear asn
  have c' := hsame.carries c
  have htag : ¬(anodeCalcTag (eggAsn1xClear asn) ≠ maxUlong ∧ anodeCalcTag (eggAsn1xClear asn) ≠ tlv.tag) := by
    obtain h | h := c'.tag
    · simp [h]
    · simp [h]
  have hr : anodeDecodePrimitive (eggAsn1xClear asn) ctlv =
      some ((r (eggAsn1xClear asn)).1, (r (eggAsn1xClear asn)).2) := h _ hsame
  obtain ⟨parsed, hone⟩ := decodeOneWithoutTag_carried c' hr
  refine ⟨eggAsn1xClear asn, hsame, ?_, ?_⟩
  · intro hok
    rw [hok] at hone
    rw [eggAsn1xDecode, eggAsn1xDecodeFull, hparse, Option.bind_eq_bind, Option.bind_some]
    dsimp only
    rw [anodeDecodeAnything]
    dsimp only
    rw [if_neg htag, hone]
    simp only [Option.bind_eq_bind, Option.bind_some]
    rw [if_neg (by simp), if_neg (by simp), anodeDecodeAnything]
    rfl
  · intro hok
    rw [hok] at hone
    rw [eggAsn1xDecode, eggAsn1xDecodeFull, hparse, Option.bind_eq_bind, Option.bind_some]
    dsimp only
    rw [anodeDecodeAnything]
    dsimp only
    rw [if_neg htag, hone]
    exact ⟨_, rfl⟩

-- An element that is decoded has the tag of the root, and a class of its own where the tag is explicit.
theorem decoded_tag {asn' : GNode} (h : eggAsn1xDecode now asn data = some (true, asn')) :
    ∃ tlv, atlvParseDer data = some (.ok tlv) ∧ (anodeCalcTag asn = maxUlong ∨ anodeCalcTag asn = tlv.tag) ∧
      ((anodeCalcExplicitForFlags asn (anodeDefFlags asn)).1 = true → tlv.cls &&& classContextSpecific ≠ 0) := by
  have hsame := same_clear asn
  rw [eggAsn1xDecode, eggAsn1xDecodeFull, Option.bind_eq_bind, Option.bind_eq_some_iff] at h
  obtain ⟨result, hparse, h⟩ := h
  cases result with
  | error msg => cases h
  | ok tlv =>
    refine ⟨tlv, hparse, ?_⟩
    dsimp only at h
    rw [← hsame.calcTag, ← hsame.explicit, ← hsame.flags_eq]
    generalize eggAsn1xClear asn = asn at h
    rw [anodeDecodeAnything] at h
    dsimp only at h
    by_cases htag : anodeCalcTag asn ≠ maxUlong ∧ anodeCalcTag asn ≠ tlv.tag
    case pos =>
      rw [if_pos htag, if_pos (.inr rfl)] at h
      cases h
    case neg =>
      refine ⟨by simpa [Decidable.or_iff_not_imp_left] using htag, fun hexplicit hcls => ?_⟩
      rw [if_neg htag, anodeDecodeOneWithoutTag, if_pos hexplicit, if_pos hcls] at h
      cases h

-- A root of a type that has no children of its own is validated by its value.
theorem validate_value {value : GBytes} (hvalue : node.data.value = some value) {strict : Bool}
    (htype : anodeDefType node ≠ .choice ∧ anodeDefType node ≠ .sequence ∧ anodeDefType node ≠ .set ∧
      anodeDefType node ≠ .sequenceOf ∧ anodeDefType node ≠ .setOf) :
    eggAsn1xValidate now node strict = anodeValidateValue now node value := by
  obtain ⟨hchoice, hsequence, hset, hsequenceOf, hsetOf⟩ := htype
  cases node with
  | mk data children =>
    rw [eggAsn1xValidate, anodeValidateAnything]
    split
    case h_1 h       => exact absurd h hchoice
    case h_2 h       => exact absurd h hsequence
    case h_3 h       => exact absurd h hset
    case h_4 h       => exact absurd h hsequenceOf
    case h_5 h       => exact absurd h hsetOf
    case h_6         => rw [anodeValidateSimple, hvalue]

end Asn1x
