import GcrModel.Gcr.Record.Record

open GLib

namespace Record

-- The bytes that are written in hexadecimal digits. They can't be read again.
def HexEscaped (extra c : UInt8) : Prop :=
  escapeLetter c = none ∧ (c < 32 ∨ c = extra ∧ extra < 128)

def escapeByte (extra c : UInt8) : Bytes :=
  if needsEscape extra c then escapeChar c else [c]

def escapeText (extra : UInt8) (s : Bytes) : Bytes :=
  s.flatMap (escapeByte extra)

variable {extra c e : UInt8} {s : Bytes} {n : Nat}

theorem escapeText_cons (extra c : UInt8) (s : Bytes) :
    escapeText extra (c :: s) = escapeByte extra c ++ escapeText extra s :=
  List.flatMap_cons

theorem colonsEscapeFrom_getD (extra : UInt8) (before s : Bytes) (dest : Option Bytes) :
    (colonsEscapeFrom extra before dest s).getD (before ++ s) = dest.getD before ++ escapeText extra s := by
  induction s generalizing before dest with
  | nil => simp [colonsEscapeFrom, escapeText]
  | cons c s ih =>
    rw [colonsEscapeFrom, escapeText_cons, escapeByte, List.append_cons before c s]
    split
    case isTrue =>
      rw [ih, Option.getD_some, List.append_assoc]
    case isFalse =>
      rw [ih, ← List.append_assoc]
      cases dest <;> rfl

theorem colonsEscape_getD (s : Bytes) (extra : UInt8) : (colonsEscape s extra).getD s = escapeText extra s :=
  colonsEscapeFrom_getD extra [] s none

theorem needsEscape_iff : needsEscape extra c ↔ (escapeLetter c).isSome ∨ c < 32 ∨ c = extra ∧ extra < 128 := by
  have hbyte : ¬295 ≤ c.toNat := Nat.not_le.mpr (Nat.lt_trans c.toNat_lt (by decide))
  simp [needsEscape, hbyte]

-- A byte is kept, or it gets a letter, or it is written in digits.
theorem escapeByte_cases (extra c : UInt8) :
    (escapeByte extra c = [c] ∧ c ≠ backslash ∧ ¬HexEscaped extra c) ∨
    (∃ e, escapeByte extra c = [backslash, e] ∧ escapeLetter c = some e ∧ ¬HexEscaped extra c) ∨
    (HexEscaped extra c ∧ ∃ high low, escapeByte extra c = [backslash, 120, high, low]) := by
  rw [escapeByte]
  cases hc : escapeLetter c with
  | some e =>
    have hneeds : needsEscape extra c := (needsEscape_iff).mpr (.inl (by simp [hc]))
    refine .inr (.inl ⟨e, ?_, rfl, fun h => by simp [HexEscaped, hc] at h⟩)
    simp [hneeds, escapeChar, hc]
  | none =>
    by_cases hneeds : needsEscape extra c
    case pos =>
      have hhex := ((needsEscape_iff).mp hneeds).resolve_left (by simp [hc])
      refine .inr (.inr ⟨⟨hc, hhex⟩, ?_⟩)
      exact ⟨_, _, by simp [hneeds, escapeChar, hc]; exact ⟨rfl, rfl⟩⟩
    case neg =>
      refine .inl ⟨if_neg hneeds, ?_, fun h => hneeds (needsEscape_iff.mpr (.inr h.2))⟩
      rintro rfl
      simp [escapeLetter, backslash] at hc

-- The letter behind a backslash gives the byte back.
theorem unescapeChar_letter (h : escapeLetter c = some e) (s : Bytes) : unescapeChar (e :: s) = some (c, s) := by
  unfold escapeLetter at h
  repeat' split at h
  all_goals cases h
  all_goals subst_vars; rfl

-- The x itself is taken for the first digit.
theorem unescapeChar_hex (s : Bytes) : unescapeChar (120 :: s) = none := by
  have hx : (hexcLower ++ [0]).idxOf? (asciiTolower 120) = none := by decide
  simp [unescapeChar, hexDigits, hx]

theorem colonsUnescapeFrom_backslash {q : UInt8} {p p' : Bytes} (h : unescapeChar p = some (q, p')) (before : Bytes)
    (dest : Option Bytes) : colonsUnescapeFrom before dest (backslash :: p) =
      colonsUnescapeFrom before (some (dest.getD before ++ [q])) p' := by
  rw [colonsUnescapeFrom, if_pos rfl]
  split
  case h_1 hnone => rw [h] at hnone; cases hnone
  case h_2 hsome =>
    rw [h] at hsome
    cases hsome
    rfl

theorem colonsUnescapeFrom_none {p : Bytes} (h : unescapeChar p = none) (before : Bytes) (dest : Option Bytes) :
    colonsUnescapeFrom before dest (backslash :: p) = none := by
  rw [colonsUnescapeFrom, if_pos rfl]
  split
  case h_1       => rfl
  case h_2 hsome => rw [h] at hsome; cases hsome

theorem colonsUnescapeFrom_keep (h : c ≠ backslash) (before s : Bytes) (dest : Option Bytes) :
    colonsUnescapeFrom before dest (c :: s) = colonsUnescapeFrom (before ++ [c]) (dest.map (· ++ [c])) s := by
  rw [colonsUnescapeFrom, if_neg h]

-- Once the text is copied, all of it is.
theorem colonsUnescapeFrom_some (h : ∀ c ∈ s, ¬HexEscaped extra c) (before dest : Bytes) :
    colonsUnescapeFrom before (some dest) (escapeText extra s) = some (dest ++ s) := by
  induction s generalizing before dest with
  | nil => simp [escapeText, colonsUnescapeFrom]
  | cons c s ih =>
    obtain ⟨hc, hs⟩ := List.forall_mem_cons.mp h
    rw [escapeText_cons]
    rcases escapeByte_cases extra c with ⟨heq, hne, -⟩ | ⟨e, heq, he, -⟩ | ⟨hhex, -⟩
    · rw [heq, List.singleton_append, colonsUnescapeFrom_keep hne, Option.map_some, ih hs,
        List.append_cons dest c s]
    · rw [heq, List.cons_append, List.singleton_append, colonsUnescapeFrom_backslash (unescapeChar_letter he _),
        ih hs, Option.getD_some, List.append_cons dest c s]
    · exact absurd hhex hc

-- No copy means that nothing had to be changed.
theorem colonsUnescapeFrom_getD (h : ∀ c ∈ s, ¬HexEscaped extra c) (before : Bytes) :
    (colonsUnescapeFrom before none (escapeText extra s)).getD (before ++ escapeText extra s) = before ++ s := by
  induction s generalizing before with
  | nil => simp [escapeText, colonsUnescapeFrom]
  | cons c s ih =>
    obtain ⟨hc, hs⟩ := List.forall_mem_cons.mp h
    rw [escapeText_cons]
    rcases escapeByte_cases extra c with ⟨heq, hne, -⟩ | ⟨e, heq, he, -⟩ | ⟨hhex, -⟩
    · rw [heq, List.singleton_append, colonsUnescapeFrom_keep hne, Option.map_none,
        List.append_cons before c (escapeText extra s), ih hs, List.append_cons before c s]
    · rw [heq, List.cons_append, List.singleton_append, colonsUnescapeFrom_backslash (unescapeChar_letter he _),
        colonsUnescapeFrom_some hs, Option.getD_some, Option.getD_none, List.append_cons before c s]
    · exact absurd hhex hc

theorem colonsUnescape_getD (h : ∀ c ∈ s, ¬HexEscaped extra c) :
    (colonsUnescape (escapeText extra s)).getD (escapeText extra s) = s :=
  colonsUnescapeFrom_getD h []

theorem colonsUnescapeFrom_hex (h : ∃ c ∈ s, HexEscaped extra c) (before : Bytes) (dest : Option Bytes) :
    colonsUnescapeFrom before dest (escapeText extra s) = none := by
  induction s generalizing before dest with
  | nil => simp at h
  | cons c s ih =>
    have hs (hc : ¬HexEscaped extra c) : ∃ c ∈ s, HexEscaped extra c := by simpa [hc] using h
    rw [escapeText_cons]
    rcases escapeByte_cases extra c with ⟨heq, hne, hc⟩ | ⟨e, heq, he, hc⟩ | ⟨-, high, low, heq⟩
    · rw [heq, List.singleton_append, colonsUnescapeFrom_keep hne, ih (hs hc)]
    · rw [heq, List.cons_append, List.singleton_append, colonsUnescapeFrom_backslash (unescapeChar_letter he _),
        ih (hs hc)]
    · rw [heq]
      exact colonsUnescapeFrom_none (unescapeChar_hex _) before dest

theorem length_escapeByte (extra c : UInt8) :
    1 ≤ (escapeByte extra c).length ∧ (HexEscaped extra c → (escapeByte extra c).length = 4) := by
  rcases escapeByte_cases extra c with ⟨heq, -, hc⟩ | ⟨e, heq, -, hc⟩ | ⟨-, high, low, heq⟩
  · exact ⟨by simp [heq], fun h => absurd h hc⟩
  · exact ⟨by simp [heq], fun h => absurd h hc⟩
  · simp [heq]

theorem length_le_escapeText (extra : UInt8) (s : Bytes) : s.length ≤ (escapeText extra s).length := by
  induction s with
  | nil => exact Nat.le_refl 0
  | cons c s ih =>
    have hc := (length_escapeByte extra c).1
    rw [escapeText_cons, List.length_append, List.length_cons]
    omega

theorem length_lt_escapeText (h : ∃ c ∈ s, HexEscaped extra c) : s.length < (escapeText extra s).length := by
  induction s with
  | nil => simp at h
  | cons c s ih =>
    obtain ⟨hc, hhex⟩ := length_escapeByte extra c
    rw [escapeText_cons, List.length_append, List.length_cons]
    by_cases hs : ∃ c ∈ s, HexEscaped extra c
    case pos =>
      have := ih hs
      omega
    case neg =>
      have hc : HexEscaped extra c := by simpa [hs] using h
      have := length_le_escapeText extra s
      have := hhex hc
      omega

theorem hexcLower_getD : ∀ n < 16, 32 < hexcLower.getD n 0 ∧ hexcLower.getD n 0 ≠ colon := by
  decide

theorem escapeLetter_printable (h : escapeLetter c = some e) : 32 < e ∧ e ≠ colon := by
  unfold escapeLetter at h
  repeat' split at h
  all_goals cases h
  all_goals decide

-- What is written for a byte is printable.
theorem mem_escapeChar {b : UInt8} (h : b ∈ escapeChar c) : 32 < b ∧ b ≠ colon := by
  have hlt := c.toNat_lt
  rw [escapeChar] at h
  split at h
  case h_1 e he =>
    simp only [List.mem_cons, List.not_mem_nil, or_false] at h
    rcases h with rfl | rfl
    · decide
    · exact escapeLetter_printable he
  case h_2 =>
    simp only [List.mem_cons, List.not_mem_nil, or_false] at h
    rcases h with rfl | rfl | rfl | rfl
    · decide
    · decide
    · exact hexcLower_getD _ (by omega)
    · exact hexcLower_getD _ (by omega)

theorem mem_escapeText {b : UInt8} (h : b ∈ escapeText extra s) : 32 ≤ b ∧ (extra = colon → b ≠ colon) := by
  obtain ⟨c, -, hb⟩ := List.mem_flatMap.mp h
  rw [escapeByte] at hb
  split at hb
  case isTrue =>
    obtain ⟨hlt, hne⟩ := mem_escapeChar hb
    exact ⟨UInt8.le_of_lt hlt, fun _ => hne⟩
  case isFalse hneeds =>
    cases List.mem_singleton.mp hb
    obtain ⟨hctl, hne⟩ := not_or.mp (not_or.mp (needsEscape_iff.not.mp hneeds)).2
    exact ⟨UInt8.not_lt.mp hctl, fun hextra hb => hne ⟨hb.trans hextra.symm, hextra ▸ by decide⟩⟩

theorem nul_notMem_escapeText (extra : UInt8) (s : Bytes) : 0 ∉ escapeText extra s :=
  fun h => absurd (mem_escapeText h).1 (by decide)

end Record

open GLib

namespace Record

-- What can be put in a column.
inductive Value where
  | string (s : CString) (valid : utf8Validate s.bytes)
  | ulong (value : UInt64)
  | uint (value : UInt32)
  | base64 (data : Bytes)

def set (r : Record) (column : Nat) : Value → Record
  | .string s _   => r.setString column s
  | .ulong value  => r.setUlong column value
  | .uint value   => r.setUint column value
  | .base64 data  => r.setBase64 column data

def Reads (r : Record) (column : Nat) : Value → Prop
  | .string s _   => r.getString column = some s.bytes
  | .ulong value  => r.getUlong column = some value
  | .uint value   => r.getUint column = some value
  | .base64 data  => r.getBase64 column = some data

-- The values that can be read again.
def Value.Survives (delimiter : UInt8) : Value → Prop
  | .string s _   => ∀ c ∈ s.bytes, ¬HexEscaped delimiter c
  | .ulong value  => value.toNat < 4294967296
  | .uint _       => True
  | .base64 _     => True

-- The text of a value in a column.
def Value.text (delimiter : UInt8) : Value → Bytes
  | .string s _   => escapeText delimiter s.bytes
  | .ulong value  => printUnsigned value.toNat
  | .uint value   => printUnsigned value.toNat
  | .base64 data  => Base64.encode data

variable {r r' : Record} {column j : Nat} {v : Value} {block : CString} {delimiter c : UInt8} {n : Nat}
  {data : Bytes}

theorem getRaw_takeColumn (h : column < r.columns.length) (block : CString) :
    (r.takeColumn column block).getRaw column = some block := by
  simp [getRaw, takeColumn, h]

theorem getRaw_takeColumn_ne (h : j ≠ column) (block : CString) :
    (r.takeColumn column block).getRaw j = r.getRaw j := by
  simp [getRaw, takeColumn, Ne.symm h]

theorem mem_printUnsigned (h : c ∈ printUnsigned n) : 32 ≤ c ∧ c ≠ colon := by
  have hdigit := isdigit_of_mem_printUnsigned h
  simp only [isdigit, decide_eq_true_eq] at hdigit
  refine ⟨UInt8.le_trans (by decide) hdigit.1, ?_⟩
  rintro rfl
  exact absurd hdigit.2 (by decide)

theorem mem_encode (h : c ∈ Base64.encode data) : 32 < c ∧ c ≠ colon := by
  have hrank := Base64.isSome_rank_of_mem_encode h
  refine ⟨UInt8.lt_trans (by decide) (Base64.lt_of_isSome_rank hrank), ?_⟩
  rintro rfl
  exact absurd hrank (by decide)

-- The line break at the end is the only space in the text.
theorem rdropWhile_encode (data : Bytes) :
    (Base64.encode data ++ [newline]).rdropWhile asciiIsspace = Base64.encode data := by
  rw [List.rdropWhile_concat_pos _ _ _ (by decide), List.rdropWhile_eq_self_iff]
  intro hne hspace
  have hlt := (mem_encode (List.getLast_mem hne)).1
  simp only [asciiIsspace, decide_eq_true_eq] at hspace
  rcases hspace with h | h | h | h | h
  all_goals
    rw [h] at hlt
    exact absurd hlt (by decide)

-- Apart from the delimiter the text of a value is printable.
theorem Value.mem_text (h : c ∈ v.text delimiter) : 32 ≤ c ∧ (delimiter = colon → c ≠ colon) := by
  cases v with
  | string s valid => exact mem_escapeText h
  | ulong value    => exact ⟨(mem_printUnsigned h).1, fun _ => (mem_printUnsigned h).2⟩
  | uint value     => exact ⟨(mem_printUnsigned h).1, fun _ => (mem_printUnsigned h).2⟩
  | base64 data    => exact ⟨UInt8.le_of_lt (mem_encode h).1, fun _ => (mem_encode h).2⟩

theorem set_eq (r : Record) (column : Nat) (v : Value) :
    r.set column v = r.takeColumn column (.of (v.text r.delimiter)) := by
  cases v with
  | string s valid => rw [set, setString, colonsEscape_getD, Value.text]
  | ulong value    => rfl
  | uint value     => rfl
  | base64 data    => rw [set, setBase64, rdropWhile_encode, Value.text]

theorem getRaw_set (h : column < r.columns.length) (v : Value) :
    (r.set column v).getRaw column = some (.of (v.text r.delimiter)) := by
  rw [set_eq]
  exact getRaw_takeColumn h _

theorem getRaw_set_ne (h : j ≠ column) (v : Value) : (r.set column v).getRaw j = r.getRaw j := by
  rw [set_eq]
  exact getRaw_takeColumn_ne h _

theorem getString_iff {s : CString} (valid : utf8Validate s.bytes)
    (h : r.getRaw column = some (.of (escapeText delimiter s.bytes))) :
    r.getString column = some s.bytes ↔ ∀ c ∈ s.bytes, ¬HexEscaped delimiter c := by
  have hraw : (CString.of (escapeText delimiter s.bytes)).bytes = escapeText delimiter s.bytes :=
    CString.bytes_of (nul_notMem_escapeText _ _)
  rw [getString, h, Option.map_some, Option.some.injEq, hraw]
  constructor
  case mp =>
    intro heq
    by_contra hhex
    have hhex : ∃ c ∈ s.bytes, HexEscaped delimiter c := by simpa using hhex
    -- The text that is still escaped is longer, also after the conversion from latin1.
    have hlen := length_lt_escapeText hhex
    rw [colonsUnescape, colonsUnescapeFrom_hex hhex, Option.getD_none, cstr_eq (nul_notMem_escapeText _ _)] at heq
    have hle := length_le_latin1ToUtf8 (escapeText delimiter s.bytes)
    dsimp only at heq
    split at heq
    case isTrue  => rw [heq] at hlen; exact Nat.lt_irrefl _ hlen
    case isFalse => rw [heq] at hle; exact absurd hlen (Nat.not_lt.mpr hle)
  case mpr =>
    intro hhex
    rw [colonsUnescape_getD hhex, cstr_eq s.nul]
    exact if_pos valid

theorem getUint_eq {value : UInt32} (h : r.getRaw column = some (.of (printUnsigned value.toNat))) :
    r.getUint column = some value := by
  have hlt := value.toNat_lt
  have hraw : (CString.of (printUnsigned value.toNat)).bytes = printUnsigned value.toNat :=
    CString.bytes_of fun hmem => absurd (mem_printUnsigned hmem).1 (by decide)
  have hmax : value.toNat ≤ maxInt64 := Nat.le_trans (Nat.le_of_lt hlt) (by decide)
  have hrange : ¬((value.toNat : Int) < 0 ∨ (4294967295 : Int) < value.toNat) := by omega
  rw [getUint, h, Option.bind_some, hraw, asciiStrtoll_printUnsigned hmax]
  simp only [ne_eq, not_true_eq_false, if_false, if_neg hrange, Int.toNat_natCast, UInt32.ofNat_toNat]

theorem getUlong_iff {value : UInt64} (h : r.getRaw column = some (.of (printUnsigned value.toNat))) :
    r.getUlong column = some value ↔ value.toNat < 4294967296 := by
  have hlt := value.toNat_lt
  have hraw : (CString.of (printUnsigned value.toNat)).bytes = printUnsigned value.toNat :=
    CString.bytes_of fun hmem => absurd (mem_printUnsigned hmem).1 (by decide)
  have hmax : value.toNat ≤ maxUint64 := Nat.le_of_lt_succ hlt
  rw [getUlong, h, Option.bind_some, hraw, asciiStrtoull_printUnsigned hmax]
  simp only [ne_eq, not_true_eq_false, if_false]
  split
  case isTrue hrange =>
    simp only [reduceCtorEq, false_iff, Nat.not_lt]
    rcases hrange with h | h
    · rw [toGint64] at h
      split at h
      case isTrue => omega
      case isFalse hlarge =>
        simp only [maxInt64, Nat.not_le] at hlarge
        omega
    · exact absurd hmax (Nat.not_le.mpr h)
  case isFalse =>
    have hmod : (UInt64.ofNat (value.toNat % 4294967296)).toNat = value.toNat % 4294967296 := by
      rw [UInt64.toNat_ofNat']
      exact Nat.mod_eq_of_lt (Nat.lt_of_le_of_lt (Nat.mod_le _ _) hlt)
    rw [Option.some.injEq, ← UInt64.toNat_inj, hmod]
    omega

theorem getBase64_eq (h : r.getRaw column = some (.of (Base64.encode data))) : r.getBase64 column = some data := by
  have hraw : (CString.of (Base64.encode data)).bytes = Base64.encode data :=
    CString.bytes_of fun hmem => absurd (mem_encode hmem).1 (by decide)
  rw [getBase64, h, Option.map_some, hraw, Base64.decode, Base64.decodeFrom_encode]

-- What is read where the text of a value stands.
theorem reads_iff (h : r.getRaw column = some (.of (v.text delimiter))) : r.Reads column v ↔ v.Survives delimiter := by
  cases v with
  | string s valid => exact getString_iff valid h
  | ulong value    => exact getUlong_iff h
  | uint value     => exact iff_true_intro (getUint_eq h)
  | base64 data    => exact iff_true_intro (getBase64_eq h)

end Record
