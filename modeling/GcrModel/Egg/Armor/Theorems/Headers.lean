import Mathlib.Data.List.Chain
import Mathlib.Data.List.Nodup
import GcrModel.Egg.Armor.Theorems.Parse

-- The lines of an armored text: what `egg_armor_write` makes and what the loops of the reader see in it.
namespace Armor

open GLib Search

variable {line text p q u e : Bytes} {header : Bytes × Bytes} {headers written : Headers} {fuel n i m : Nat} {c : UInt8}

-- A header that may be written: without newlines and spaces around, and with no colon in the name.
structure Plain (header : Bytes × Bytes) : Prop where
  nul     : 0 ∉ header.1 ∧ 0 ∉ header.2
  newline : newline ∉ header.1 ∧ newline ∉ header.2
  colon   : colon ∉ header.1
  strip   : strstrip header.1 = header.1 ∧ strstrip header.2 = header.2

-- A header line without the newline.
def nameValue (header : Bytes × Bytes) : Bytes :=
  header.1 ++ colon :: 32 :: header.2

theorem headerLine_eq (header : Bytes × Bytes) :
    headerLine header.1 header.2 = nameValue header ++ [newline] := by
  simp [headerLine, nameValue, ascii, colon]

theorem Plain.newline_not_mem (h : Plain header) : GLib.newline ∉ nameValue header := by
  simp only [nameValue, List.mem_append, List.mem_cons, not_or]
  exact ⟨h.newline.left, by decide, by decide, h.newline.right⟩

theorem Plain.nul_not_mem (h : Plain header) : 0 ∉ nameValue header := by
  simp only [nameValue, List.mem_append, List.mem_cons, not_or]
  exact ⟨h.nul.left, by decide, by decide, h.nul.right⟩

theorem idxOf?_append_cons (h : c ∉ p) (q : Bytes) : (p ++ c :: q).idxOf? c = some p.length := by
  induction p with
  | nil => simp [List.idxOf?_cons]
  | cons d p ih =>
    rw [List.mem_cons, not_or] at h
    simp [List.idxOf?_cons, Ne.symm h.left, ih h.right]

-- A line up to its first character that is no space.
theorem exists_dropSpaces (hl : newline ∉ line) (hc : c ∈ line) (hs : ¬isspace c) (q : Bytes) :
    ∃ k, k ≤ line.length ∧ skipSpaces (line ++ q) = .ok (k, false) := by
  induction line with
  | nil => simp at hc
  | cons d line ih =>
    rw [List.mem_cons, not_or] at hl
    rw [List.cons_append, skipSpaces]
    by_cases hd : isspace d
    case neg => exact ⟨0, Nat.zero_le _, by rw [if_neg hd]⟩
    case pos =>
      have hcl : c ∈ line := (List.mem_cons.mp hc).resolve_left fun he => hs (he ▸ hd)
      obtain ⟨k, hk, he⟩ := ih hl.right hcl
      exact ⟨k + 1, Nat.succ_le_succ hk, by rw [if_pos hd, if_neg (Ne.symm hl.left), he]; rfl⟩

-- The outer loop goes to the next line.
theorem findHeaderEnd_line {k : Nat} {found : Bool} (hl : newline ∉ line)
    (hk : skipSpaces q = .ok (k, found)) (hn : line.length + 1 + k ≤ n) (hle : n ≤ line.length + 1 + q.length) :
    findHeaderEnd (fuel + 1) (line ++ newline :: q) n =
      if found then .ok (some (line.length + 1 + k)) else (do
        let r ← findHeaderEnd fuel (q.drop k) (n - (line.length + 1 + k))
        .ok (r.map (line.length + 1 + k + ·))) := by
  have hslice : slice (line ++ newline :: q) n = .ok ((line ++ newline :: q).take n) := by
    rw [slice, if_pos (by simp only [List.length_append, List.length_cons]; omega)]
  have hidx : ((line ++ newline :: q).take n).idxOf? newline = some line.length := by
    obtain ⟨m, hm⟩ : ∃ m, n - line.length = m + 1 := ⟨n - line.length - 1, by omega⟩
    rw [List.take_append, List.take_of_length_le (by omega), hm, List.take_succ_cons]
    exact idxOf?_append_cons hl _
  have hdrop : (line ++ newline :: q).drop (line.length + 1) = q := by
    rw [drop_append_length, List.drop_succ_cons, List.drop_zero]
  rw [findHeaderEnd, hslice]
  simp only [bind, Except.bind, hidx, hdrop, hk, check, if_pos hn]
  rw [← List.drop_drop, hdrop]

theorem findHeaderEnd_none (hl : newline ∉ p.take n) (hn : n ≤ p.length) : findHeaderEnd (fuel + 1) p n = .ok none := by
  rw [findHeaderEnd, slice, if_pos hn]
  have hidx : (p.take n).idxOf? newline = none := List.idxOf?_eq_none_iff.mpr hl
  simp only [bind, Except.bind, hidx]

def headerLines (written : Headers) : Bytes :=
  written.flatMap fun header => headerLine header.1 header.2

theorem headerLines_cons (header : Bytes × Bytes) (written : Headers) (q : Bytes) :
    headerLines (header :: written) ++ q = nameValue header ++ newline :: (headerLines written ++ q) := by
  simp [headerLines, headerLine_eq]

theorem length_le_headerLines (written : Headers) : written.length ≤ (headerLines written).length := by
  induction written with
  | nil => exact Nat.zero_le _
  | cons header written ih =>
    have := congrArg List.length (headerLines_cons header written [])
    simp only [List.append_nil, List.length_append, List.length_cons] at this ⊢
    omega

-- The headers end at the blank line.
theorem findHeaderEnd_headers (hu : newline ∉ u) (hw : ∀ header ∈ written, Plain header) (hf : written.length < fuel)
    (hn : u.length + 1 + (headerLines written).length ≤ n)
    (hle : n ≤ u.length + 1 + (headerLines written).length + 1 + q.length) :
    findHeaderEnd fuel (u ++ newline :: (headerLines written ++ newline :: q)) n =
      .ok (some (u.length + 1 + (headerLines written).length)) := by
  induction written generalizing u fuel n with
  | nil =>
    cases fuel with
    | zero => exact absurd hf (Nat.lt_irrefl 0)
    | succ fuel =>
      have hskip : skipSpaces (newline :: q) = .ok (0, true) := rfl
      simp only [headerLines, List.flatMap_nil, List.length_nil, Nat.add_zero] at hn hle ⊢
      exact findHeaderEnd_line hu hskip (by omega) (by simp only [List.length_cons]; omega)
  | cons header written ih =>
    cases fuel with
    | zero => exact absurd hf (Nat.not_lt_zero _)
    | succ fuel =>
      have hheader := hw header (List.mem_cons_self ..)
      have hcolon : colon ∈ nameValue header := by simp [nameValue]
      obtain ⟨k, hk, hskip⟩ := exists_dropSpaces hheader.newline_not_mem hcolon (by decide)
        (newline :: (headerLines written ++ newline :: q))
      have hlen : (headerLines (header :: written)).length =
          (nameValue header).length + 1 + (headerLines written).length := by
        have := congrArg List.length (headerLines_cons header written [])
        simp only [List.append_nil, List.length_append, List.length_cons] at this
        omega
      have hu' : newline ∉ (nameValue header).drop k :=
        fun hm => hheader.newline_not_mem (List.mem_of_mem_drop hm)
      have hk' : ((nameValue header).drop k).length = (nameValue header).length - k := List.length_drop ..
      have hnext := ih hu' (fun h hh => hw h (List.mem_cons_of_mem _ hh)) (Nat.lt_of_succ_lt_succ hf)
        (n := n - (u.length + 1 + k)) (by omega) (by omega)
      rw [headerLines_cons, findHeaderEnd_line hu hskip (by omega) (by
        simp only [List.length_append, List.length_cons]
        omega), List.drop_append_of_le_length hk, hnext]
      simp only [Bool.false_eq_true, if_false, bind, Except.bind, Option.map_some]
      rw [show u.length + 1 + k + (((nameValue header).drop k).length + 1 + (headerLines written).length) =
        u.length + 1 + (headerLines (header :: written)).length by omega]

theorem breakLines_of_lt (h : e.length < 64) : breakLines m (e ++ [newline]) = e ++ [newline] := by
  cases m with
  | zero => rfl
  | succ m => rw [breakLines, if_neg (by simp only [List.length_append, List.length_singleton]; omega)]

theorem breakLines_of_le (h : 64 ≤ e.length) :
    breakLines (m + 1) (e ++ [newline]) = e.take 64 ++ newline :: breakLines m (e.drop 64 ++ [newline]) := by
  rw [breakLines, if_pos (by simp only [List.length_append, List.length_singleton]; omega),
    List.take_append_of_le_length h, List.drop_append_of_le_length h]

theorem skipSpaces_of_ne_nil (he : ∀ c ∈ e, ¬isspace c) (hne : e ≠ []) (q : Bytes) :
    skipSpaces (e ++ q) = .ok (0, false) := by
  obtain ⟨c, e, rfl⟩ := List.exists_cons_of_ne_nil hne
  rw [List.cons_append, skipSpaces, if_neg (he c (List.mem_cons_self ..))]

theorem newline_not_mem (he : ∀ c ∈ e, ¬isspace c) : newline ∉ e :=
  fun hm => he newline hm (by decide)

theorem findHeaderEnd_lastLine (hu : newline ∉ u) (he : ∀ c ∈ e, ¬isspace c) (h : e.length < 64) (q : Bytes) :
    findHeaderEnd (fuel + 3) (u ++ newline :: (e ++ [newline] ++ 45 :: q)) (u.length + 1 + (e.length + 1)) =
      .ok (if 64 ∣ e.length then some (u.length + (e.length + 1)) else none) := by
  by_cases hne : e = []
  case pos =>
    subst hne
    have hskip : skipSpaces (newline :: 45 :: q) = .ok (0, true) := rfl
    exact findHeaderEnd_line hu hskip (by omega) (by simp only [List.length_cons, List.length_nil]; omega)
  case neg =>
    have hpos := List.length_pos_iff.mpr hne
    have hskip := skipSpaces_of_ne_nil he hne (newline :: 45 :: q)
    have hskip' : skipSpaces (45 :: q) = .ok (0, false) := rfl
    have hnone : findHeaderEnd (fuel + 1) (45 :: q) 0 = .ok none :=
      findHeaderEnd_none (by simp) (Nat.zero_le _)
    have hlast := @findHeaderEnd_line e (45 :: q) (fuel + 1) (e.length + 1) 0 false (newline_not_mem he) hskip' (by omega)
      (by simp only [List.length_cons]; omega)
    rw [List.append_assoc, List.singleton_append, findHeaderEnd_line hu hskip (by omega) (by
      simp only [List.length_append, List.length_cons]
      omega)]
    simp only [Nat.add_zero, Nat.sub_self, List.drop_zero, Bool.false_eq_true, if_false, hnone, bind, Except.bind,
      Option.map_none] at hlast
    simp only [Nat.add_zero, List.drop_zero, Bool.false_eq_true, if_false, Nat.add_sub_cancel_left, hlast, bind,
      Except.bind, Option.map_none]
    rw [if_neg fun hd => by have := Nat.le_of_dvd hpos hd; omega]

-- In the base64 text there is a blank line only if the last line is full.
theorem findHeaderEnd_breakLines (hu : newline ∉ u) (he : ∀ c ∈ e, ¬isspace c) (hm : e.length / 64 ≤ m)
    (hf : e.length / 64 + 3 ≤ fuel) (q : Bytes) :
    findHeaderEnd fuel (u ++ newline :: (breakLines m (e ++ [newline]) ++ 45 :: q))
      (u.length + 1 + (breakLines m (e ++ [newline])).length) =
      .ok (if 64 ∣ e.length then some (u.length + (breakLines m (e ++ [newline])).length) else none) := by
  induction m generalizing u e fuel with
  | zero =>
    obtain ⟨k, rfl⟩ := Nat.exists_eq_add_of_le' (Nat.le_trans (Nat.le_add_left ..) hf)
    have h : e.length < 64 := by omega
    rw [breakLines_of_lt h, List.length_append, List.length_singleton]
    exact findHeaderEnd_lastLine hu he h q
  | succ m ih =>
    by_cases h : e.length < 64
    case pos =>
      obtain ⟨k, rfl⟩ := Nat.exists_eq_add_of_le' (Nat.le_trans (Nat.le_add_left ..) hf)
      rw [breakLines_of_lt h, List.length_append, List.length_singleton]
      exact findHeaderEnd_lastLine hu he h q
    case neg =>
      rw [Nat.not_lt] at h
      obtain ⟨fuel, rfl⟩ : ∃ k, fuel = k + 1 := ⟨fuel - 1, by omega⟩
      have htake : ∀ c ∈ e.take 64, ¬isspace c := fun c hc => he c (List.mem_of_mem_take hc)
      have hlen : (e.take 64).length = 64 := List.length_take_of_le h
      have hne : e.take 64 ≠ [] := by
        rw [← List.length_pos_iff, hlen]
        decide
      have hskip := skipSpaces_of_ne_nil htake hne
        (newline :: (breakLines m (e.drop 64 ++ [newline]) ++ 45 :: q))
      have hm' : (e.drop 64).length / 64 ≤ m := by
        rw [List.length_drop]
        omega
      have hf' : (e.drop 64).length / 64 + 3 ≤ fuel := by
        rw [List.length_drop]
        omega
      have hrest := ih (newline_not_mem htake) (fun c hc => he c (List.mem_of_mem_drop hc)) hm' hf'
      rw [breakLines_of_le h, List.append_assoc, List.cons_append, findHeaderEnd_line hu hskip (by omega) (by
        simp only [List.length_append, List.length_cons]
        omega)]
      have hdvd : 64 ∣ (e.drop 64).length ↔ 64 ∣ e.length := by
        rw [List.length_drop, Nat.dvd_sub_iff_left h (Nat.dvd_refl 64)]
      have hn : u.length + 1 + (e.take 64 ++ newline :: breakLines m (e.drop 64 ++ [newline])).length -
          (u.length + 1 + 0) = (e.take 64).length + 1 + (breakLines m (e.drop 64 ++ [newline])).length := by
        simp only [List.length_append, List.length_cons]
        omega
      rw [hn, List.drop_zero, hrest]
      simp only [Bool.false_eq_true, if_false, bind, Except.bind, hdvd, List.length_append, List.length_cons]
      split
      · simp only [Option.map_some, Except.ok.injEq, Option.some.injEq]
        omega
      · rfl

-- No line starts with '='.
def LineStart (c d : UInt8) : Prop :=
  c = newline → d ≠ 61

theorem isChain_line (he : newline ∉ e) (h : List.IsChain LineStart (newline :: q)) :
    List.IsChain LineStart (e ++ newline :: q) := by
  induction e with
  | nil => exact h
  | cons c e ih =>
    rw [List.mem_cons, not_or] at he
    exact List.isChain_cons.mpr ⟨fun d _ hc => absurd hc.symm he.left, ih he.right⟩

theorem isChain_newline_line (he : newline ∉ e) (h₀ : e[0]? ≠ some 61)
    (h : List.IsChain LineStart (newline :: q)) : List.IsChain LineStart (newline :: (e ++ newline :: q)) := by
  refine List.isChain_cons.mpr ⟨fun d hd _ => ?_, isChain_line he h⟩
  cases e with
  | nil =>
    cases hd
    decide
  | cons c e =>
    cases hd
    exact fun hc => h₀ (by simp [hc])

theorem breakLines_isChain (he : newline ∉ e) (hs : ∀ k, e[64 * k]? ≠ some 61) :
    List.IsChain LineStart (newline :: breakLines m (e ++ [newline])) := by
  have hlast : List.IsChain LineStart (newline :: (e ++ [newline])) :=
    isChain_newline_line he (hs 0) (.singleton _)
  induction m generalizing e with
  | zero => exact hlast
  | succ m ih =>
    by_cases h : e.length < 64
    case pos =>
      rw [breakLines_of_lt h]
      exact hlast
    case neg =>
      rw [breakLines_of_le (Nat.not_lt.mp h)]
      have hdrop : newline ∉ e.drop 64 := fun hm => he (List.mem_of_mem_drop hm)
      have hs' : ∀ k, (e.drop 64)[64 * k]? ≠ some 61 := by
        intro k
        rw [List.getElem?_drop, show 64 + 64 * k = 64 * (k + 1) by omega]
        exact hs (k + 1)
      refine isChain_newline_line (fun hm => he (List.mem_of_mem_take hm)) ?_
        (ih hdrop hs' (isChain_newline_line hdrop (hs' 0) (.singleton _)))
      rw [List.getElem?_take_of_lt (by decide)]
      exact hs 0

-- A block whose last lines do not start with '=' has no checksum line.
theorem endOffset_eq_length (hq : q ≠ []) (h : List.IsChain LineStart (newline :: q)) :
    endOffset (u ++ newline :: q ++ p) (u ++ newline :: q) = (u ++ newline :: q).length := by
  have hne : u ++ newline :: q ≠ [] := by simp
  unfold endOffset
  rw [if_neg hne]
  obtain ⟨i, hi, hle⟩ : ∃ i, strrstr [newline] (u ++ newline :: q).dropLast = some i ∧ u.length ≤ i := by
    refine le_strrstr ?_ (by simp)
    rw [List.dropLast_append_of_ne_nil (by simp), List.drop_left, List.dropLast_cons_of_ne_nil hq]
    exact ⟨_, rfl⟩
  have hlt := (prefix_of_strrstr hi).left
  have hnl := getElem?_of_prefix (prefix_of_strrstr hi).right (List.dropLast_prefix _)
  rw [List.length_dropLast, List.length_append, List.length_cons] at hlt
  obtain ⟨j, rfl⟩ := Nat.exists_eq_add_of_le hle
  rw [hi]
  simp only
  rw [if_neg]
  intro heq
  rw [List.append_assoc, Nat.add_assoc, List.getElem?_append_right (Nat.le_add_right ..), Nat.add_sub_cancel_left,
    List.getElem?_append_left (by simp only [List.length_cons]; omega)] at heq
  rw [List.getElem?_append_right (Nat.le_add_right ..), Nat.add_sub_cancel_left] at hnl
  obtain ⟨hj, hj'⟩ := List.getElem?_eq_some_iff.mp heq
  obtain ⟨_, hnl'⟩ := List.getElem?_eq_some_iff.mp hnl
  exact List.isChain_iff_getElem.mp h j hj hnl' hj'

end Armor

-- The headers: the order in which they are written, and what is read from a text.
namespace Armor

open GLib Search

variable {s u text line : Bytes} {header : Bytes × Bytes} {headers written : Headers} {result : Option Headers} {c : UInt8}

theorem strstrip_suffix (s : Bytes) : strstrip s <+: s.dropWhile asciiIsspace :=
  List.rdropWhile_prefix _ _

theorem infix_strstrip (s : Bytes) : strstrip s <:+: s :=
  (strstrip_suffix s).isInfix.trans (List.dropWhile_suffix _).isInfix

theorem strstrip_eq_self (h : strstrip s = s) :
    s.dropWhile asciiIsspace = s ∧ s.rdropWhile asciiIsspace = s := by
  have hle := (strstrip_suffix s).length_le
  rw [h] at hle
  have hd := (List.dropWhile_suffix asciiIsspace).eq_of_length_le hle
  exact ⟨hd, by rw [strstrip, hd] at h; exact h⟩

theorem rdropWhile_append_of_ne_nil {p : UInt8 → Bool} (hs : s ≠ []) (h : s.rdropWhile p = s) (u : Bytes) :
    (u ++ s).rdropWhile p = u ++ s := by
  rw [List.rdropWhile_eq_self_iff] at h ⊢
  intro hne
  rw [List.getLast_append_of_ne_nil hne hs]
  exact h hs

-- A header line that is stripped loses at most the space behind the colon.
theorem strstrip_nameValue (h : strstrip header.1 = header.1 ∧ strstrip header.2 = header.2) :
    ∃ q, strstrip (nameValue header) = header.1 ++ colon :: q ∧ strstrip q = header.2 := by
  obtain ⟨hname, -⟩ := strstrip_eq_self h.left
  obtain ⟨hvalue, hvalue'⟩ := strstrip_eq_self h.right
  have hd : (nameValue header).dropWhile asciiIsspace = nameValue header := by
    unfold nameValue
    cases hk : header.1 with
    | nil => rfl
    | cons c k =>
      rw [hk, List.dropWhile_eq_self_iff] at hname
      rw [List.dropWhile_eq_self_iff]
      intro hl
      exact hname (Nat.succ_pos _)
  by_cases hv : header.2 = []
  case pos =>
    refine ⟨[], ?_, by rw [hv]; rfl⟩
    rw [strstrip, hd, nameValue, hv, List.append_cons, List.rdropWhile_concat_pos _ _ _ (by decide),
      List.rdropWhile_concat_neg _ _ _ (by decide)]
  case neg =>
    refine ⟨32 :: header.2, ?_, ?_⟩
    · rw [strstrip, hd, nameValue]
      have := rdropWhile_append_of_ne_nil hv hvalue' (header.1 ++ [colon, 32])
      simpa using this
    · rw [strstrip, List.dropWhile_cons_of_pos (by decide), hvalue, hvalue']

theorem parseHeaderLine_nameValue (h : Plain header) (result : Option Headers) :
    parseHeaderLine result (nameValue header) = some (replace (result.getD []) header.1 header.2) := by
  obtain ⟨q, hq, hq'⟩ := strstrip_nameValue h.strip
  rw [parseHeaderLine, hq, idxOf?_append_cons h.colon]
  simp only [List.take_left, drop_append_length, List.drop_succ_cons, List.drop_zero, hq', h.strip.left]

theorem parseHeaderLine_of_not_mem (h : colon ∉ line) (result : Option Headers) :
    parseHeaderLine result line = result := by
  have : (strstrip line).idxOf? colon = none :=
    List.idxOf?_eq_none_iff.mpr fun hm => h ((infix_strstrip line).subset hm)
  simp only [parseHeaderLine, this]

theorem replace_of_not_mem {name value : Bytes} (h : name ∉ headers.map Prod.fst) :
    replace headers name value = (name, value) :: headers := by
  rw [replace, List.filter_eq_self.mpr]
  intro header hm
  simpa using fun he => h (List.mem_map.mpr ⟨header, hm, he⟩)

theorem foldl_nameValue (result : Option Headers) (hw : ∀ header ∈ written, Plain header)
    (hn : ((written ++ result.getD []).map Prod.fst).Nodup) (hne : written ≠ []) :
    ∃ headers, (written.map nameValue).foldl parseHeaderLine result = some headers ∧
      headers.Perm (written ++ result.getD []) := by
  induction written generalizing result with
  | nil => exact absurd rfl hne
  | cons header written ih =>
    rw [List.cons_append, List.map_cons, List.nodup_cons] at hn
    have hmem : header.1 ∉ (result.getD []).map Prod.fst := by
      refine fun hm => hn.left ?_
      rw [List.map_append]
      exact List.mem_append_right _ hm
    have hperm : (written ++ header :: result.getD []).Perm (header :: written ++ result.getD []) :=
      List.perm_middle
    rw [List.map_cons, List.foldl_cons, parseHeaderLine_nameValue (hw header (List.mem_cons_self ..)),
      replace_of_not_mem hmem]
    by_cases hw' : written = []
    case pos =>
      subst hw'
      exact ⟨_, rfl, .refl _⟩
    case neg =>
      obtain ⟨headers, he, hp⟩ := ih (some ((header.1, header.2) :: result.getD []))
        (fun h hh => hw h (List.mem_cons_of_mem _ hh)) ((hperm.map _).nodup_iff.mpr (List.nodup_cons.mpr hn)) hw'
      exact ⟨headers, he, hp.trans hperm⟩

theorem splitOn_headerLines (hu : newline ∉ u) (hw : ∀ header ∈ written, Plain header) :
    (u ++ newline :: headerLines written).splitOn newline = u :: (written.map nameValue ++ [[]]) := by
  induction written generalizing u with
  | nil =>
    rw [List.splitOn_eq_splitOnP, List.splitOnP_append_cons_of_forall_mem (fun c hc => ?_) _ (by simp)]
    · rfl
    · have hne : c ≠ newline := fun he => hu (he ▸ hc)
      simpa using hne
  | cons header written ih =>
    have hline := headerLines_cons header written []
    rw [List.append_nil, List.append_nil] at hline
    have hheader := (hw header (List.mem_cons_self ..)).newline_not_mem
    have hrest := ih hheader fun h hh => hw h (List.mem_cons_of_mem _ hh)
    rw [List.splitOn_eq_splitOnP] at hrest ⊢
    rw [List.splitOnP_append_cons_of_forall_mem (fun c hc => ?_) _ (by simp), hline, hrest]
    · rfl
    · have hne : c ≠ newline := fun he => hu (he ▸ hc)
      simpa using hne

-- The headers are read back, in some order.
theorem parseHeaderLines_headerLines (hu : newline ∉ u) (hz : 0 ∉ u) (hc : colon ∉ u)
    (hw : ∀ header ∈ written, Plain header) (hn : (written.map Prod.fst).Nodup) (hne : written ≠ []) :
    ∃ headers, parseHeaderLines (u ++ newline :: headerLines written) none = some headers ∧ headers.Perm written := by
  have hnul : 0 ∉ u ++ newline :: headerLines written := by
    simp only [List.mem_append, List.mem_cons, headerLines, List.mem_flatMap, headerLine_eq, not_or]
    refine ⟨hz, by decide, ?_⟩
    rintro ⟨header, hh, hm⟩
    rcases hm with hm | hm | hm
    · exact (hw header hh).nul_not_mem hm
    · exact absurd hm (by decide)
    · simp at hm
  obtain ⟨headers, he, hp⟩ := foldl_nameValue none hw (by simpa using hn) hne
  refine ⟨headers, ?_, by simpa using hp⟩
  rw [parseHeaderLines, cstr_eq hnul, splitOn_headerLines hu hw, List.foldl_cons, List.foldl_append,
    parseHeaderLine_of_not_mem hc, he]
  rfl

theorem infix_of_mem_splitOn (h : line ∈ s.splitOn c) : line <:+: s := by
  have hs : s = [c].intercalate (s.splitOn c) := (List.intercalate_splitOn c).symm
  rw [hs]
  generalize s.splitOn c = lines at h
  induction lines with
  | nil => simp at h
  | cons l lines ih =>
    cases lines with
    | nil =>
      cases List.mem_singleton.mp h
      rw [List.intercalate_singleton]
    | cons l' lines =>
      rw [List.intercalate_cons_cons]
      rcases List.mem_cons.mp h with rfl | h
      · exact ((List.prefix_append ..).trans (List.prefix_append ..)).isInfix
      · exact (ih h).trans (List.suffix_append ..).isInfix

-- What is read comes from the text.
theorem infix_parseHeaderLine (h : header ∈ (parseHeaderLine result line).getD []) :
    header ∈ result.getD [] ∨ header.1 <:+: line ∧ header.2 <:+: line := by
  unfold parseHeaderLine at h
  cases hi : (strstrip line).idxOf? colon with
  | none => exact .inl (by simpa [hi] using h)
  | some i =>
    simp only [hi, Option.getD_some, replace, List.mem_cons] at h
    rcases h with rfl | h
    · refine .inr ⟨?_, ?_⟩
      · exact (infix_strstrip _).trans ((List.take_prefix ..).isInfix.trans (infix_strstrip line))
      · exact (infix_strstrip _).trans ((List.drop_suffix ..).isInfix.trans (infix_strstrip line))
    · exact .inl (List.mem_of_mem_filter h)

theorem infix_parseHeaderLines (h : header ∈ (parseHeaderLines text result).getD []) :
    header ∈ result.getD [] ∨ header.1 <:+: text ∧ header.2 <:+: text := by
  have hlines : ∀ line ∈ (cstr text).splitOn newline, line <:+: text := fun line hm =>
    (infix_of_mem_splitOn hm).trans (List.takeWhile_prefix _).isInfix
  unfold parseHeaderLines at h
  generalize (cstr text).splitOn newline = lines at h hlines
  induction lines generalizing result with
  | nil => exact .inl h
  | cons line lines ih =>
    rcases ih h fun l hm => hlines l (List.mem_cons_of_mem _ hm) with h | h
    · refine (infix_parseHeaderLine h).imp_right fun hi => ?_
      have hline := hlines line (List.mem_cons_self ..)
      exact ⟨hi.left.trans hline, hi.right.trans hline⟩
    · exact .inr h

-- The headers in the order in which they are written.
def writtenHeaders (headers : Headers) : Headers :=
  orderedHeaders.filterMap (fun name => (headers.lookup name).map fun value => (name, value)) ++
    headers.filter fun header => !orderedHeaders.contains header.1

theorem headerLines_writtenHeaders (headers : Headers) :
    headerLines (writtenHeaders headers) =
      orderedHeaders.flatMap (fun name => (headers.lookup name).elim [] (headerLine name)) ++
        headers.flatMap appendEachHeader := by
  rw [headerLines, writtenHeaders, List.flatMap_append]
  congr 1
  · rw [List.filterMap_eq_flatMap_toList, List.flatMap_assoc]
    congr 1
    funext name
    cases headers.lookup name <;> simp
  · induction headers with
    | nil => rfl
    | cons header headers ih =>
      simp only [List.contains_eq_mem] at ih ⊢
      by_cases h : header.1 ∈ orderedHeaders <;> simp [appendEachHeader, h, ih]

theorem lookup_eq_some_iff_mem (hn : (headers.map Prod.fst).Nodup) {name value : Bytes} :
    headers.lookup name = some value ↔ (name, value) ∈ headers := by
  induction headers with
  | nil => simp
  | cons header headers ih =>
    rw [List.map_cons, List.nodup_cons] at hn
    rw [List.lookup_cons]
    by_cases he : name = header.1
    case neg =>
      have hne : (name, value) ≠ header := fun h => he (congrArg Prod.fst h)
      have hb : (name == header.1) = false := by simpa using he
      simp [hb, ih hn.right, hne]
    case pos =>
      subst he
      have hnot : (header.1, value) ∉ headers := fun hm => hn.left (List.mem_map.mpr ⟨_, hm, rfl⟩)
      simp [hnot, Prod.ext_iff, eq_comm]

theorem writtenHeaders_perm (hn : (headers.map Prod.fst).Nodup) : (writtenHeaders headers).Perm headers := by
  have hordered : (orderedHeaders.filterMap fun name => (headers.lookup name).map fun value => (name, value)).Perm
      (headers.filter fun header => header.1 ∈ orderedHeaders) := by
    refine (List.perm_ext_iff_of_nodup ?_ ?_).mpr fun header => ?_
    · refine List.Nodup.filterMap (fun name name' header h h' => ?_) (by decide)
      simp only [Option.mem_def, Option.map_eq_some_iff] at h h'
      obtain ⟨_, _, rfl⟩ := h
      obtain ⟨_, _, h'⟩ := h'
      exact (congrArg Prod.fst h').symm
    · exact (List.Nodup.of_map _ hn).filter _
    · simp only [List.mem_filterMap, List.mem_filter, Option.map_eq_some_iff, lookup_eq_some_iff_mem hn,
        decide_eq_true_eq]
      constructor
      · rintro ⟨name, hname, value, hm, rfl⟩
        exact ⟨hm, hname⟩
      · rintro ⟨hm, hname⟩
        exact ⟨header.1, hname, header.2, hm, rfl⟩
  refine (hordered.append_right _).trans ?_
  have := List.filter_append_perm (fun header : Bytes × Bytes => header.1 ∈ orderedHeaders) headers
  simpa using this

end Armor
