import GcrModel.Gcr.Record.Record

-- The columns of a line in words and in pieces.
namespace Record

open GLib

variable {init : List Bytes} {line last : Bytes} {allowEmpty : Bool}

-- The words of a line are what is between its spaces, unless there is nothing.
def words (line : Bytes) : List Bytes :=
  (line.splitOn space).filter (· ≠ [])

def pieces (line : Bytes) : List Bytes :=
  line.splitOn colon

-- What stands behind the last space.
def lastWord (line : Bytes) : Bytes :=
  line.rtakeWhile (· ≠ space)

-- The columns are those strings.
def Splits (r : Option Record) (columns : List Bytes) : Prop :=
  r.map (·.columns.map (·.bytes)) = some columns

section Loop

variable {nValue beg : Nat} {result : Record} {piece : Bytes}

-- The pieces that get a column, in front of the last one and for the last one.
def kept (allowEmpty : Bool) (init : List Bytes) : List Bytes :=
  init.filter fun piece => allowEmpty ∨ 0 < piece.length

def keptLast (allowEmpty : Bool) (last : Bytes) : List Bytes :=
  if allowEmpty ∨ 1 < last.length then [last] else []

theorem takeAndParseFrom_end (h : result.columns.length < maxColumns) (hlast : result.delimiter ∉ last)
    (hend : beg + last.length = nValue) :
    (takeAndParseFrom allowEmpty nValue result beg last).map (·.columns) =
      some (result.columns ++ (keptLast allowEmpty last).map .of) := by
  have hnone : last.idxOf? result.delimiter = none := List.idxOf?_eq_none_iff.mpr hlast
  have hmore : allowEmpty = true ∨ beg + 1 < nValue ↔ allowEmpty = true ∨ 1 < last.length := by
    rw [← hend, Nat.add_lt_add_iff_left]
  rw [takeAndParseFrom, dif_pos h]
  split
  case h_2 hsome => cases hnone.symm.trans hsome
  case h_1 =>
    by_cases hkept : allowEmpty = true ∨ 1 < last.length
    case pos =>
      rw [if_pos (hmore.mpr hkept), keptLast, if_pos hkept]
      rfl
    case neg =>
      rw [if_neg (mt hmore.mp hkept), keptLast, if_neg hkept]
      exact congrArg some (List.append_nil _).symm

-- Each piece in front of the last one is taken as it is.
theorem takeAndParseFrom_piece (h : result.columns.length < maxColumns) (hpiece : result.delimiter ∉ piece)
    (rest : Bytes) : takeAndParseFrom allowEmpty nValue result beg (piece ++ result.delimiter :: rest) =
      takeAndParseFrom allowEmpty nValue (if allowEmpty ∨ 0 < piece.length then result.push (.of piece) h else result)
        (beg + piece.length + 1) rest := by
  have hsome := idxOf?_append_cons (t := rest) hpiece
  rw [takeAndParseFrom, dif_pos h]
  split
  case h_1 hnone => cases hsome.symm.trans hnone
  case h_2 i hi =>
    obtain rfl := Option.some.inj (hsome.symm.trans hi)
    rw [List.take_left, ← List.drop_drop, List.drop_left]
    rfl

theorem takeAndParseFrom_full (h : ¬result.columns.length < maxColumns) (value : Bytes) :
    takeAndParseFrom allowEmpty nValue result beg value = none := by
  rw [takeAndParseFrom, dif_neg h]

-- The text of pieces with the delimiter between them.
def joined (delimiter : UInt8) (init : List Bytes) (last : Bytes) : Bytes :=
  init.flatMap (· ++ [delimiter]) ++ last

-- There is no record when so many columns are full in front of the last piece.
theorem takeAndParseFrom_joined (hinit : ∀ piece ∈ init, result.delimiter ∉ piece) (hlast : result.delimiter ∉ last)
    (hend : beg + (joined result.delimiter init last).length = nValue) :
    (takeAndParseFrom allowEmpty nValue result beg (joined result.delimiter init last)).map (·.columns) =
      if result.columns.length + (kept allowEmpty init).length < maxColumns then
        some (result.columns ++ (kept allowEmpty init ++ keptLast allowEmpty last).map .of)
      else none := by
  induction init generalizing result beg with
  | nil =>
    by_cases h : result.columns.length < maxColumns
    case pos => exact (takeAndParseFrom_end h hlast hend).trans (if_pos h).symm
    case neg =>
      rw [takeAndParseFrom_full h]
      exact (if_neg h).symm
  | cons piece init ih =>
    obtain ⟨hpiece, hinit⟩ := List.forall_mem_cons.mp hinit
    have hjoined (d : UInt8) : joined d (piece :: init) last = piece ++ d :: joined d init last := by simp [joined]
    rw [hjoined, List.length_append, List.length_cons] at hend
    by_cases h : result.columns.length < maxColumns
    case neg =>
      rw [takeAndParseFrom_full h]
      exact (if_neg (by omega)).symm
    case pos =>
      rw [hjoined, takeAndParseFrom_piece h hpiece]
      by_cases hkept : allowEmpty = true ∨ 0 < piece.length
      case pos =>
        have hcons : kept allowEmpty (piece :: init) = piece :: kept allowEmpty init :=
          List.filter_cons_of_pos (decide_eq_true hkept)
        rw [if_pos hkept, hcons]
        have hih := @ih (beg + piece.length + 1) (result.push (.of piece) h) hinit hlast (by simp only [push]; omega)
        have hcolumns : (result.push (.of piece) h).columns = result.columns ++ [.of piece] := rfl
        rw [hcolumns, List.length_append, List.length_singleton, List.append_assoc] at hih
        rw [List.length_cons, Nat.add_comm (kept allowEmpty init).length 1, ← Nat.add_assoc]
        exact hih
      case neg =>
        have hcons : kept allowEmpty (piece :: init) = kept allowEmpty init :=
          List.filter_cons_of_neg (by simpa using hkept)
        rw [if_neg hkept, hcons]
        exact ih hinit hlast (by omega)

end Loop

section Pieces

variable {delimiter : UInt8}

-- A line is the text of its pieces.
theorem exists_joined (delimiter : UInt8) (line : Bytes) : ∃ init last, line.splitOn delimiter = init ++ [last] ∧
    line = joined delimiter init last ∧ (∀ piece ∈ init, delimiter ∉ piece) ∧ delimiter ∉ last := by
  induction hn : line.length using Nat.strong_induction_on generalizing line with
  | _ n ih =>
    by_cases hmem : delimiter ∈ line
    case neg => exact ⟨[], line, List.splitOn_eq_singleton hmem, rfl, by simp, hmem⟩
    case pos =>
      obtain ⟨piece, rest, rfl, hpiece⟩ := List.eq_append_cons_of_mem hmem
      rw [List.length_append, List.length_cons] at hn
      obtain ⟨init, last, hsplit, hrest, hinit, hlast⟩ := ih rest.length (by omega) rest rfl
      refine ⟨piece :: init, last, ?_, ?_, List.forall_mem_cons.mpr ⟨hpiece, hinit⟩, hlast⟩
      · rw [List.splitOn_append_cons_self_of_not_mem hpiece, hsplit]
        rfl
      · simp [joined, hrest]

theorem lastWord_joined (hlast : space ∉ last) : lastWord (joined space init last) = last := by
  have hall : ∀ c ∈ last.reverse, decide (c ≠ space) = true := by
    intro c hc
    exact decide_eq_true fun he => hlast (he ▸ List.mem_reverse.mp hc)
  rw [lastWord, joined, List.rtakeWhile, List.reverse_append, List.takeWhile_append_of_pos hall]
  cases init using List.reverseRecOn with
  | nil => simp
  | append_singleton init piece => simp

theorem bytes_of_mem_joined (hnul : 0 ∉ joined delimiter init last) {piece : Bytes} (hpiece : piece ∈ init ∨ piece = last) :
    (CString.of piece).bytes = piece := by
  refine CString.bytes_of fun hmem => hnul ?_
  rw [joined, List.mem_append]
  obtain hpiece | rfl := hpiece
  · exact .inl (List.mem_flatMap.mpr ⟨piece, hpiece, List.mem_append_left _ hmem⟩)
  · exact .inr hmem

theorem mem_keptLast {piece : Bytes} (h : piece ∈ keptLast allowEmpty last) : piece = last := by
  rw [keptLast] at h
  split at h
  case isTrue  => exact List.mem_singleton.mp h
  case isFalse => cases h

theorem splits_joined_iff {columns : List Bytes} (hnul : 0 ∉ joined delimiter init last)
    (hinit : ∀ piece ∈ init, delimiter ∉ piece) (hlast : delimiter ∉ last) :
    Splits (takeAndParse (.of (joined delimiter init last)) (joined delimiter init last).length delimiter allowEmpty)
      columns ↔ (kept allowEmpty init).length < maxColumns ∧ kept allowEmpty init ++ keptLast allowEmpty last = columns := by
  have hfields : ((kept allowEmpty init ++ keptLast allowEmpty last).map CString.of).map (·.bytes) =
      kept allowEmpty init ++ keptLast allowEmpty last := by
    rw [List.map_map]
    refine (List.map_congr_left fun piece hpiece => bytes_of_mem_joined hnul ?_).trans (List.map_id _)
    obtain hpiece | hpiece := List.mem_append.mp hpiece
    · exact .inl (List.mem_of_mem_filter hpiece)
    · exact .inr (mem_keptLast hpiece)
  have h := @takeAndParseFrom_joined init last allowEmpty _ 0 ⟨[], delimiter, Nat.zero_le _⟩ hinit hlast (Nat.zero_add _)
  simp only [List.length_nil, Nat.zero_add, List.nil_append] at h
  have hmap {r : Option Record} : Splits r columns ↔ (r.map (·.columns)).map (·.map (·.bytes)) = some columns := by
    rw [Splits, Option.map_map]
    rfl
  rw [takeAndParse, CString.bytes_of hnul, hmap, h]
  split
  case isTrue hlt => rw [Option.map_some, hfields, Option.some.injEq, and_iff_right hlt]
  case isFalse hnot => exact ⟨fun h => (by cases h), fun h => absurd h.1 hnot⟩

end Pieces

-- The line does not end with a word of one character, and not with a space when there are as many words as columns.
structure Regular (line : Bytes) : Prop where
  long  : (lastWord line).length ≠ 1
  space : (words line).length = maxColumns → lastWord line ≠ []

theorem kept_false (init : List Bytes) : kept false init = init.filter (· ≠ []) := by
  simp [kept, List.length_pos_iff]

theorem keptLast_false_iff : keptLast false last = [last].filter (· ≠ []) ↔ last.length ≠ 1 := by
  match last with
  | []          => simp [keptLast]
  | [c]         => simp [keptLast]
  | c :: d :: _ => simp [keptLast]

-- A word of one character at the end is lost, and so is the whole line when it has no column for what follows its words.
theorem parse_splits_iff (hnul : 0 ∉ line) :
    ((words line).length ≤ maxColumns → (Splits (parseSpaces line) (words line) ↔ Regular line)) ∧
    (Splits (parseColons line) (pieces line) ↔ (pieces line).length ≤ maxColumns) := by
  constructor
  · intro hwords
    obtain ⟨init, last, hsplit, rfl, hinit, hlast⟩ := exists_joined space line
    have hwordsEq : words (joined space init last) = kept false init ++ [last].filter (· ≠ []) := by
      rw [words, hsplit, List.filter_append, kept_false]
    have hlastEq := @lastWord_joined init _ hlast
    rw [parseSpaces, splits_joined_iff hnul hinit hlast, hwordsEq, List.append_cancel_left_eq, keptLast_false_iff]
    rw [hwordsEq, List.length_append] at hwords
    constructor
    · rintro ⟨hlt, hlong⟩
      refine ⟨by rwa [hlastEq], fun hfull hempty => ?_⟩
      rw [hlastEq] at hempty
      rw [hwordsEq, hempty] at hfull
      exact absurd hfull (by simpa using Nat.ne_of_lt hlt)
    · intro h
      have hlong := h.long
      rw [hlastEq] at hlong
      refine ⟨?_, hlong⟩
      cases last with
      | nil =>
        refine Nat.lt_of_le_of_ne (by simpa using hwords) fun hfull => ?_
        exact h.space (by rw [hwordsEq]; simpa using hfull) hlastEq
      | cons c last => exact Nat.lt_of_succ_le (by simpa using hwords)
  · obtain ⟨init, last, hsplit, rfl, hinit, hlast⟩ := exists_joined colon line
    have hkept : kept true init = init := List.filter_eq_self.mpr fun _ _ => rfl
    rw [parseColons, splits_joined_iff hnul hinit hlast, pieces, hsplit, hkept, keptLast, if_pos (.inl rfl),
      and_iff_left rfl, List.length_append, List.length_singleton]
    exact Iff.rfl

-- The line "ab  bc ".
theorem parse_splits_ab_bc : Splits (parseSpaces [97, 98, 32, 32, 98, 99, 32]) [[97, 98], [98, 99]] ∧
    Splits (parseColons [97, 98, 32, 32, 98, 99, 32]) [[97, 98, 32, 32, 98, 99, 32]] := by
  have hspaces := ((@parse_splits_iff [97, 98, 32, 32, 98, 99, 32] (by decide)).1 (by decide)).mpr
    ⟨by decide, by decide⟩
  have hcolons := (@parse_splits_iff [97, 98, 32, 32, 98, 99, 32] (by decide)).2.mpr (by decide)
  exact ⟨hspaces, hcolons⟩

-- The second word of "a b" is lost.
theorem not_splits_a_b : ¬Splits (parseSpaces [97, 32, 98]) (words [97, 32, 98]) := by
  have h := @splits_joined_iff [[97]] [98] false space (words [97, 32, 98]) (by decide) (by decide) (by decide)
  intro hsplits
  exact absurd (h.mp hsplits).2 (by decide)

end Record
