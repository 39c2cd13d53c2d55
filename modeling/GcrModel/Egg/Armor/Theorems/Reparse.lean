import GcrModel.Egg.Armor.Theorems.RoundTrip

-- What is read from a text that `egg_armor_write` has written, if anything is.
namespace Armor

open GLib Search

variable {data type t d l rest body : Bytes} {headers : Headers} {fuel pos n : Nat}

-- A text without a NUL that ends with a newline.
structure Text (l : Bytes) : Prop where
  nul  : 0 ∉ l
  last : ∀ c ∈ l.getLast?, c = newline

theorem Text.of_suffix (h : Text l) (hs : rest <:+ l) : Text rest where
  nul hz := h.nul (hs.subset hz)
  last c hc := by
    have hne : rest ≠ [] := fun he => by simp [he] at hc
    refine h.last c ?_
    obtain ⟨pre, rfl⟩ := hs
    rw [List.getLast?_append_of_ne_nil pre hne]
    exact hc

theorem Text.exists_append (h : Text l) (hne : l ≠ []) : ∃ s, l = s ++ [newline] := by
  have hlast := h.last _ (List.getLast?_eq_some_getLast hne)
  exact ⟨l.dropLast, by rw [← hlast, List.dropLast_append_getLast]⟩

theorem cstr_append (h : 0 ∉ l) : cstr (l ++ [0]) = l := by
  rw [cstr, List.takeWhile_append_of_pos]
  · simp
  · intro c hc
    have hne : c ≠ 0 := fun he => h (he ▸ hc)
    simpa using hne

-- There is no checksum line behind the last newline of a text.
theorem endOffset_nil (h : Text rest) (hne : rest ≠ []) : endOffset (rest ++ [0]) [] = 0 := by
  obtain ⟨s, hs⟩ := h.exists_append hne
  have hpre : [newline] <+: rest.drop s.length := by rw [hs, List.drop_left]
  obtain ⟨line, hline, hle⟩ := le_strrstr hpre (by simp)
  have hlt := (prefix_of_strrstr hline).left
  have hlen : rest.length = s.length + 1 := by rw [hs, List.length_append, List.length_singleton]
  have hend : (rest ++ [0])[line + 1]? = some 0 := by
    have heq : line + 1 = rest.length := by omega
    rw [heq, List.getElem?_append_right (Nat.le_refl _), Nat.sub_self]
    rfl
  rw [endOffset, if_pos rfl, cstr_append h.nul, hline]
  simp [hend]

theorem armorParseBlock_headers {table hs : Option Headers} (ht : table.getD [] = [])
    (h : armorParseBlock l n table = .ok (some (data, hs))) :
    ∀ header ∈ hs.getD [], header.1 <:+: l.take n ∧ header.2 <:+: l.take n := by
  rw [armorParseBlock] at h
  simp only [bind, Except.bind] at h
  split at h
  case h_1 => simp at h
  case h_2 =>
    split at h
    case h_1 => simp at h
    case h_2 hend _ =>
      split at h
      case h_1 => simp at h
      case h_2 block hblock =>
        have hslice : block = l.take n := by
          rw [slice] at hblock
          split at hblock
          · exact (Except.ok.inj hblock).symm
          · simp at hblock
        split at h
        case isTrue => simp at h
        case isFalse =>
          obtain ⟨-, rfl⟩ := Prod.mk.inj (Option.some.inj (Except.ok.inj h))
          intro header hh
          obtain _ | k := hend
          · simp [ht] at hh
          · rcases infix_parseHeaderLines hh with hh | ⟨hn, hv⟩
            · simp [ht] at hh
            · have htake : block.take k <:+: l.take n := hslice ▸ (List.take_prefix k block).isInfix
              exact ⟨hn.trans htake, hv.trans htake⟩

-- The headers that are read are in the body, where there is no END marker.
theorem not_infix_headers {found : List Found} {table : Option Headers} (ht : table.getD [] = []) (hl : Text l)
    (h : armorParseFrom fuel pos (l ++ [0]) l.length table = .ok found) :
    ∀ f ∈ found, ∀ header ∈ f.headers.getD [], ¬armorPrefEnd <:+: header.1 ∧ ¬armorPrefEnd <:+: header.2 := by
  induction fuel generalizing pos l table found with
  | zero => cases h
  | succ fuel ih =>
    rcases armorParseFrom_cases h with rfl | ⟨type, rest, body, after, block, found', r⟩
    · simp
    · obtain ⟨pre, _, rfl, -⟩ := r.begins.exists_append
      have hrest : Text rest := hl.of_suffix (List.suffix_append pre rest)
      have hne : rest ≠ [] := by
        rw [r.ends.eq]
        simp [armorPrefEnd, ascii]
      have hparse := r.parse
      have hblock : ∀ b ∈ block, ∀ header ∈ b.2.getD [],
          ¬armorPrefEnd <:+: header.1 ∧ ¬armorPrefEnd <:+: header.2 := by
        intro b hb header hh
        obtain rfl := Option.mem_def.mp hb
        by_cases hbody : body = []
        case pos =>
          subst hbody
          rw [endOffset_nil hrest hne] at hparse
          simp at hparse
        case neg =>
          split at hparse
          case isFalse => simp at hparse
          case isTrue =>
            have hheaders := armorParseBlock_headers ht hparse header hh
            have htake : (rest ++ [0]).take (endOffset (rest ++ [0]) body) <:+: body := by
              have hle : endOffset (rest ++ [0]) body ≤ body.length := endOffset_le hbody
              rw [r.ends.eq, List.append_assoc, List.take_append_of_le_length (by rw [← List.append_assoc, ← r.ends.eq]; exact hle)]
              exact (List.take_prefix _ _).isInfix
            have hnot := r.ends.toFirst.not_infix (by decide)
            exact ⟨fun hi => hnot (hi.trans (hheaders.1.trans htake)), fun hi => hnot (hi.trans (hheaders.2.trans htake))⟩
      obtain ⟨pos', -, hnext⟩ := r.next
      obtain ⟨outerBeg, outerEnd, -, -, rfl⟩ := r.result
      have htable : (block.elim table fun block => block.2.map fun _ => []).getD [] = [] := by
        cases block
        case none => exact ht
        case some b => cases hb : b.2 <;> simp [hb]
      have hlater := ih htable (hrest.of_suffix (List.drop_suffix _ rest)) hnext
      intro f hf
      rcases List.mem_append.mp hf with hf | hf
      · obtain _ | b := block
        · simp at hf
        · obtain rfl := List.mem_singleton.mp hf
          exact hblock b rfl
      · exact hlater f hf

theorem text_armored (w : Writable type headers) (data : Bytes) : Text (armored data type headers) := by
  obtain ⟨t, d, h⟩ := exists_dashes type
  have hbody := nul_not_mem_body w h data
  refine ⟨?_, ?_⟩
  · have hnul : 0 ∉ headerPart headers ++ newline :: base64Lines data := by
      intro hz
      rw [body, List.append_assoc] at hbody
      exact hbody (List.mem_append_right d hz)
    have hparts : 0 ∉ armorPrefBegin ∧ 0 ∉ armorSuff ∧ 0 ∉ armorPrefEnd := by decide
    simp only [List.mem_append, List.mem_cons, not_or] at hnul
    simp only [armored, List.mem_append, List.mem_cons, not_or]
    exact ⟨hparts.1, w.nul, hparts.2.1, hnul.1, hnul.2.1, hnul.2.2, hparts.2.2, w.nul, hparts.2.1, by decide, by simp⟩
  · have happ : armored data type headers = armorPrefBegin ++ (type ++ (armorSuff ++ (headerPart headers ++ newline ::
        (base64Lines data ++ (armorPrefEnd ++ (type ++ armorSuff)))))) ++ [newline] := by
      simp [armored]
    rw [happ, List.getLast?_concat]
    intro c hc
    exact (Option.some.inj hc).symm

-- What is written is read back if and only if the type is neither empty nor ends with a dash, no
-- header has the start of an END marker, and, without headers, the last line of the base64 text is not
-- a full one.
theorem eggArmorParse_eggArmorWrite_iff (w : Writable type headers) (hdata : data ≠ []) :
    (∃ text f, eggArmorWrite data type headers = .ok text ∧ reparse text = .ok [f] ∧ f.type = type ∧
      f.data = data ∧ (f.headers.getD []).Perm headers) ↔
    type ≠ [] ∧ type.getLast? ≠ some 45 ∧
      (∀ header ∈ headers, ¬armorPrefEnd <:+: header.1 ∧ ¬armorPrefEnd <:+: header.2) ∧
      (headers ≠ [] ∨ ¬64 ∣ 4 * ((data.length + 2) / 3)) := by
  rw [← Base64.length_encode, eggArmorWrite_eq]
  constructor
  · rintro ⟨text, f, htext, hf, htype, -, hheaders⟩
    obtain rfl := Except.ok.inj htext
    obtain ⟨t, d, h⟩ := exists_dashes type
    have hend : ∀ header ∈ headers, ¬armorPrefEnd <:+: header.1 ∧ ¬armorPrefEnd <:+: header.2 := fun header hh =>
      not_infix_headers rfl (text_armored w data) hf f (List.mem_singleton_self f) header (hheaders.mem_iff.mpr hh)
    have ht : t ≠ [] := by
      rintro rfl
      rw [reparse, eggArmorParse, armorParseFrom_type_nil [0] (begins_armored w h data)] at hf
      simp at hf
    obtain ⟨block, outerBeg, outerEnd, hblock, hparse⟩ := reparse_armored w h ht hend data
    rw [hf] at hparse
    obtain _ | block := block
    · simp at hparse
    · obtain rfl := List.singleton_inj.mp (Except.ok.inj hparse)
      have htype' : t = type := htype
      refine ⟨htype' ▸ ht, fun hlast => h.last 45 (htype' ▸ hlast) rfl, hend, ?_⟩
      refine or_iff_not_imp_left.mpr fun hnil hdvd => ?_
      rw [not_not] at hnil
      subst hnil
      rw [parseBlock_base64Lines h hdata, if_pos hdvd] at hblock
      simp at hblock
  · rintro ⟨htype, hlast, hend, hlen⟩
    have h : Dashes type type [] := by
      refine ⟨(List.append_nil type).symm, by simp, fun c hc he => hlast ?_⟩
      rw [← he]
      exact hc
    obtain ⟨block, outerBeg, outerEnd, hblock, hparse⟩ := reparse_armored w h htype hend data
    by_cases hheaders : headers = []
    case pos =>
      subst hheaders
      rw [parseBlock_base64Lines h hdata, if_neg (hlen.resolve_left (not_not.mpr rfl))] at hblock
      obtain rfl := Except.ok.inj hblock
      exact ⟨_, _, rfl, hparse, rfl, rfl, .refl _⟩
    case neg =>
      obtain ⟨result, hresult, hperm⟩ := parseBlock_headers w h hdata hheaders _
      rw [hresult] at hblock
      obtain rfl := Except.ok.inj hblock
      exact ⟨_, _, rfl, hparse, rfl, rfl, hperm⟩

theorem writable_small : Writable (ascii ['A', 'B']) [(ascii ['K'], ascii ['V'])] where
  nul     := by decide
  newline := by decide
  suff    := by decide
  names   := by decide
  plain header hh := by
    obtain rfl := List.mem_singleton.mp hh
    exact ⟨by decide, by decide, by decide, by decide⟩

theorem eggArmorParse_eggArmorWrite_small :
    (∃ text f, eggArmorWrite [1] (ascii ['A', 'B']) [(ascii ['K'], ascii ['V'])] = .ok text ∧ reparse text = .ok [f] ∧
      f.type = ascii ['A', 'B'] ∧ f.data = [1] ∧ (f.headers.getD []).Perm [(ascii ['K'], ascii ['V'])]) ↔
    ascii ['A', 'B'] ≠ [] ∧ (ascii ['A', 'B']).getLast? ≠ some 45 ∧
      (∀ header ∈ [(ascii ['K'], ascii ['V'])], ¬armorPrefEnd <:+: header.1 ∧ ¬armorPrefEnd <:+: header.2) ∧
      ([(ascii ['K'], ascii ['V'])] ≠ [] ∨ ¬64 ∣ 4 * ((([1] : Bytes).length + 2) / 3)) :=
  eggArmorParse_eggArmorWrite_iff writable_small (by decide)

-- The base64 text of 48 bytes is one full line, behind which there is a blank one.
theorem eggArmorParse_eggArmorWrite_full : ∃ (data type : Bytes) (headers : Headers), Writable type headers ∧ data ≠ [] ∧
    ¬∃ text f, eggArmorWrite data type headers = .ok text ∧ reparse text = .ok [f] ∧ f.type = type ∧
      f.data = data ∧ (f.headers.getD []).Perm headers := by
  refine ⟨List.replicate 48 7, ascii ['A', 'B'], [], ⟨by decide, by decide, by decide, by decide, by simp⟩, by decide, ?_⟩
  rintro ⟨text, f, htext, hf, -⟩
  have hnone : (eggArmorWrite (List.replicate 48 7) (ascii ['A', 'B']) [] >>= reparse) = .ok [] := by
    decide +kernel
  rw [htext] at hnone
  exact absurd (hf.symm.trans hnone) (by simp)

end Armor
