import GcrModel.Egg.Armor.Armor

-- What `armor_find_begin` and `armor_find_end` find. The memory is the data and what follows it.
namespace Armor

open GLib

variable {hay tail pre r type rest body after : Bytes}

-- The text after the first BEGIN marker, which is on one line.
def Begins (hay type rest : Bytes) : Prop :=
  ∃ pre r, Marker armorPrefBegin hay pre r ∧ Marker armorSuff r type rest ∧ newline ∉ type

-- The text before and after the first END marker.
def Ends (rest type body after : Bytes) : Prop :=
  Marker armorPrefEnd rest body (type ++ (armorSuff ++ after))

theorem slice_append (p q : Bytes) : slice (p ++ q) p.length = .ok p := by
  simp [slice]

theorem drop_append_length (p q : Bytes) (n : Nat) : (p ++ q).drop (p.length + n) = q.drop n := by
  rw [List.drop_append, List.drop_eq_nil_of_le (Nat.le_add_right ..), Nat.add_sub_cancel_left, List.nil_append]

theorem read_append (p q : Bytes) (i : Nat) : read (p ++ q) (p.length + i) = read q i := by
  rw [read, read, List.getElem?_append_right (Nat.le_add_right ..), Nat.add_sub_cancel_left]

theorem armorFindBegin_eq (hb : Marker armorPrefBegin hay pre r) (hs : Marker armorSuff r type rest)
    (hn : newline ∉ type) : armorFindBegin (hay ++ tail) hay.length = (do
      check .assertion (0 < type.length)
      .ok (some (type, pre.length, pre.length + armorPrefBegin.length + type.length + armorSuff.length))) := by
  have hfirst := hb.strstrLen_eq (by decide) (by decide)
  have hsecond := hs.strstrLen_eq (by decide) (by decide)
  have hrest : hay.drop (pre.length + armorPrefBegin.length) = r := by
    rw [hb.eq, drop_append_length, List.drop_left]
  have hline : (hay.drop pre.length).take (armorPrefBegin.length + type.length) = armorPrefBegin ++ type := by
    rw [hb.eq, List.drop_left, hs.eq, ← List.append_assoc, ← List.length_append, List.take_left]
  have hnl : newline ∉ armorPrefBegin ++ type := by
    rw [List.mem_append, not_or]
    exact ⟨by decide, hn⟩
  have htype : r.take type.length = type := by rw [hs.eq, List.take_left]
  unfold armorFindBegin
  rw [slice_append]
  simp only [hfirst, hrest, hsecond, hline, if_neg hnl, htype, bind, Except.bind]

theorem armorFindBegin_none (h : ∀ type rest, ¬Begins hay type rest) :
    armorFindBegin (hay ++ tail) hay.length = .ok none := by
  unfold armorFindBegin
  rw [slice_append]
  simp only [bind, Except.bind]
  cases hb : strstrLen armorPrefBegin hay with
  | none => rfl
  | some i =>
    obtain ⟨pre, r, mb, rfl⟩ := exists_marker_of_strstrLen hb
    have hrest : hay.drop (pre.length + armorPrefBegin.length) = r := by
      rw [mb.eq, drop_append_length, List.drop_left]
    simp only [hrest]
    cases hs : strstrLen armorSuff r with
    | none => rfl
    | some j =>
      obtain ⟨type, rest, ms, rfl⟩ := exists_marker_of_strstrLen hs
      have hline : (hay.drop pre.length).take (armorPrefBegin.length + type.length) = armorPrefBegin ++ type := by
        rw [mb.eq, List.drop_left, ms.eq, ← List.append_assoc, ← List.length_append, List.take_left]
      have hnl : newline ∈ type := by
        by_contra hn
        exact h type rest ⟨pre, r, mb, ms, hn⟩
      simp only [hline, if_pos (List.mem_append_right _ hnl)]

-- Where the data of a block ends: at the checksum line, which is the last line if it starts with '='. The
-- last line is looked for in the rest of the memory if the block is empty.
def endOffset (data body : Bytes) : Nat :=
  match strrstr [newline] (if body = [] then cstr data else body.dropLast) with
  | none      => body.length
  | some line => if data[line + 1]? = some 61 then line else body.length

theorem strrstrLen_body (h : 0 ∉ body) (hne : body ≠ []) (q : Bytes) :
    strrstrLen (body ++ q) ((body.length : Int) - 1) [newline] = .ok (strrstr [newline] body.dropLast) := by
  have hpos := List.length_pos_iff.mpr hne
  have hslice : slice (body ++ q) (body.length - 1) = .ok body.dropLast := by
    rw [slice, if_pos (by simp only [List.length_append]; omega), List.take_append_of_le_length (Nat.sub_le ..),
      List.dropLast_eq_take]
  have hcstr : cstr body.dropLast = body.dropLast := cstr_eq fun hm => h (List.mem_of_mem_dropLast hm)
  rw [strrstrLen, if_neg (by omega), show ((body.length : Int) - 1).toNat = body.length - 1 by omega, hslice]
  simp only [bind, Except.bind, hcstr]

theorem read_line (data : Bytes) {s : Bytes} {line : Nat} (h : strrstr [newline] s = some line) (hs : s.length < data.length) :
    ∃ c, read data (line + 1) = .ok c ∧ data[line + 1]? = some c := by
  have hlt := Nat.lt_of_le_of_lt (Nat.succ_le_of_lt (prefix_of_strrstr h).left) hs
  exact ⟨data[line + 1], by simp [read, hlt], by simp [hlt]⟩

theorem armorFindEnd_eq (h : Ends hay type body after) :
    armorFindEnd (hay ++ tail) hay.length type =
      if body = [] ∧ 0 ∉ hay ++ tail then .error .outOfBounds else (do
        let c ← read (after ++ tail) 0
        let outer := body.length + armorPrefEnd.length + type.length + armorSuff.length
        .ok (some (endOffset (hay ++ tail) body, if isspace c then outer + 1 else outer))) := by
  have hfirst := h.strstrLen_eq (by decide) (by decide)
  have hrest : hay.drop (body.length + armorPrefEnd.length) = type ++ (armorSuff ++ after) := by
    rw [h.eq, drop_append_length, List.drop_left]
  have hfound : ¬(¬type <+: type ++ (armorSuff ++ after) ∨
      ¬armorSuff <+: (type ++ (armorSuff ++ after)).drop type.length) := by
    simp
  have houter : read (hay ++ tail) (body.length + armorPrefEnd.length + type.length + armorSuff.length) =
      read (after ++ tail) 0 := by
    rw [← read_append (body ++ armorPrefEnd ++ type ++ armorSuff) (after ++ tail) 0]
    simp only [h.eq, List.append_assoc, List.length_append, Nat.add_zero, Nat.add_assoc]
  unfold armorFindEnd
  rw [slice_append]
  simp only [hfirst, hrest, if_neg hfound, houter, bind, Except.bind]
  by_cases hb : body = []
  case neg =>
    rw [if_neg (by simp [hb])]
    have hline : strrstrLen (hay ++ tail) ((body.length : Int) - 1) [newline] =
        .ok (strrstr [newline] body.dropLast) := by
      rw [h.eq, List.append_assoc]
      exact strrstrLen_body h.nul hb _
    simp only [hline, endOffset, if_neg hb]
    cases hs : strrstr [newline] body.dropLast with
    | none => rfl
    | some line =>
      obtain ⟨c, hc, hc'⟩ := read_line (hay ++ tail) hs (by
        simp only [h.eq, List.length_append, List.length_dropLast]
        have := List.length_pos_iff.mpr hb
        omega)
      simp only [hc, hc', Option.some.injEq]
  case pos =>
    subst hb
    by_cases hz : 0 ∈ hay ++ tail
    case neg =>
      rw [if_pos ⟨rfl, hz⟩, strrstrLen, if_pos (by simp), if_neg hz]
    case pos =>
      rw [if_neg (by simp [hz]), strrstrLen, if_pos (by simp), if_pos hz]
      simp only [endOffset, if_true]
      cases hs : strrstr [newline] (cstr (hay ++ tail)) with
      | none => rfl
      | some line =>
        obtain ⟨t, ht⟩ := exists_cstr hz
        obtain ⟨c, hc, hc'⟩ := read_line (hay ++ tail) hs (by
          conv_rhs => rw [ht]
          simp)
        simp only [hc, hc', Option.some.injEq]

theorem armorFindEnd_none (h : ∀ body after, ¬Ends hay type body after) :
    armorFindEnd (hay ++ tail) hay.length type = .ok none := by
  unfold armorFindEnd
  rw [slice_append]
  simp only [bind, Except.bind]
  cases he : strstrLen armorPrefEnd hay with
  | none => rfl
  | some i =>
    obtain ⟨body, r, me, rfl⟩ := exists_marker_of_strstrLen he
    have hrest : hay.drop (body.length + armorPrefEnd.length) = r := by
      rw [me.eq, drop_append_length, List.drop_left]
    have hfound : ¬type <+: r ∨ ¬armorSuff <+: r.drop type.length := by
      by_contra hn
      simp only [not_or, not_not] at hn
      obtain ⟨⟨q, rfl⟩, hq⟩ := hn
      rw [List.drop_left] at hq
      obtain ⟨after, rfl⟩ := hq
      exact h body after me
    simp only [hrest, if_pos hfound]

end Armor
