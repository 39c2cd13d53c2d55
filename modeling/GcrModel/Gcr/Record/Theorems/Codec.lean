import GcrModel.Gcr.Record.Theorems.Columns

open GLib

namespace Record

variable {r r' result : Record} {line value data : Bytes} {nValue beg i : Nat} {delimiter c : UInt8}
  {cs : List CString} {ls : List Bytes} {rs rs' : List Record}

section Traverse

variable {α β : Type*} {f : α → Option β} {l : List α} {l' : List β}

theorem exists_mapM (h : ∀ a ∈ l, ∃ b, f a = some b) : ∃ l', l.mapM f = some l' := by
  induction l with
  | nil => exact ⟨[], rfl⟩
  | cons a l ih =>
    obtain ⟨ha, hl⟩ := List.forall_mem_cons.mp h
    obtain ⟨b, hb⟩ := ha
    obtain ⟨l', hl'⟩ := ih hl
    exact ⟨b :: l', by simp [List.mapM_cons, hb, hl']⟩

theorem getElem?_mapM (h : l.mapM f = some l') (k : Nat) : l'[k]? = l[k]?.bind f := by
  induction l generalizing l' k with
  | nil =>
    cases h
    simp
  | cons a l ih =>
    simp only [List.mapM_cons, Option.bind_eq_bind, Option.bind_eq_some_iff, Option.pure_def,
      Option.some.injEq] at h
    obtain ⟨b, hb, l₀, hl, rfl⟩ := h
    cases k with
    | zero   => simp [hb]
    | succ k => simpa using ih hl k

end Traverse

theorem takeAndParseFrom_cut (h : result.columns.length < maxColumns)
    (hat : value.idxOf? result.delimiter = some i) : takeAndParseFrom true nValue result beg value =
      takeAndParseFrom true nValue (result.push (.of (value.take i)) h) (beg + i + 1) (value.drop (i + 1)) := by
  rw [takeAndParseFrom, dif_pos h]
  split
  case h_1 hnone => rw [hat] at hnone; cases hnone
  case h_2 hsome =>
    rw [hat] at hsome
    cases hsome
    simp

theorem takeAndParseFrom_last (h : result.columns.length < maxColumns) (hat : result.delimiter ∉ value) :
    takeAndParseFrom true nValue result beg value = some (result.push (.of value) h) := by
  have hnone : value.idxOf? result.delimiter = none := List.idxOf?_eq_none_iff.mpr hat
  rw [takeAndParseFrom, dif_pos h]
  split
  case h_1       => simp
  case h_2 hsome => rw [hnone] at hsome; cases hsome

-- The delimiter behind the last column makes an empty one.
theorem takeAndParseFrom_columns (nValue beg : Nat) (result : Record) (hcs : ∀ s ∈ cs, result.delimiter ∉ s.bytes)
    (hlen : result.columns.length + cs.length < maxColumns) :
    ∃ r, takeAndParseFrom true nValue result beg (cs.flatMap fun s => s.bytes ++ [result.delimiter]) = some r ∧
      r.columns = result.columns ++ cs ++ [empty] := by
  induction cs generalizing result beg with
  | nil => exact ⟨_, takeAndParseFrom_last hlen (by simp), by simp [push, empty]⟩
  | cons s cs ih =>
    obtain ⟨hs, hcs⟩ := List.forall_mem_cons.mp hcs
    rw [List.length_cons] at hlen
    have hlt : result.columns.length < maxColumns := by omega
    let rest := cs.flatMap fun s => s.bytes ++ [result.delimiter]
    have heq : ((s :: cs).flatMap fun s => s.bytes ++ [result.delimiter]) = s.bytes ++ result.delimiter :: rest := by
      simp [rest]
    rw [heq, takeAndParseFrom_cut hlt (idxOf?_append_cons hs), List.take_left, ← List.drop_drop, List.drop_left,
      CString.of_bytes]
    obtain ⟨r, hr, hcolumns⟩ := ih (beg + s.bytes.length + 1) (result.push s hlt) hcs (by simp [push]; omega)
    exact ⟨r, hr, by simp [hcolumns, push]⟩

-- The columns are pieces of the line without the delimiter.
theorem mem_takeAndParseFrom (h : takeAndParseFrom true nValue result beg value = some r) {s : CString}
    (hs : s ∈ r.columns) : s ∈ result.columns ∨ result.delimiter ∉ s.bytes ∧ ∀ c ∈ s.bytes, c ∈ value := by
  induction hn : value.length using Nat.strong_induction_on generalizing result beg value with
  | _ n ih =>
    by_cases hlt : result.columns.length < maxColumns
    case neg =>
      rw [takeAndParseFrom, dif_neg hlt] at h
      cases h
    case pos =>
      cases hat : value.idxOf? result.delimiter with
      | none =>
        have hfree : result.delimiter ∉ value := List.idxOf?_eq_none_iff.mp hat
        rw [takeAndParseFrom_last hlt hfree] at h
        cases h
        rcases List.mem_append.mp hs with hs | hs
        · exact .inl hs
        · cases List.mem_singleton.mp hs
          exact .inr ⟨fun hc => hfree (CString.mem_of hc), fun c hc => CString.mem_of hc⟩
      | some i =>
        obtain ⟨hi, hfree⟩ := notMem_take_idxOf? hat
        rw [takeAndParseFrom_cut hlt hat] at h
        rcases ih _ (by simp; omega) h rfl with hs | ⟨hd, hsub⟩
        · rcases List.mem_append.mp hs with hs | hs
          · exact .inl hs
          · cases List.mem_singleton.mp hs
            exact .inr ⟨fun hc => hfree (CString.mem_of hc), fun c hc => List.mem_of_mem_take (CString.mem_of hc)⟩
        · exact .inr ⟨hd, fun c hc => List.mem_of_mem_drop (hsub c hc)⟩

-- No column holds a certain byte.
def Free (r : Record) (c : UInt8) : Prop :=
  ∀ s ∈ r.columns, c ∉ s.bytes

theorem notMem_format (hr : r.Free c) (hc : r.delimiter ≠ c) : c ∉ r.format := by
  intro h
  obtain ⟨s, hs, hmem⟩ := List.mem_flatMap.mp h
  rcases List.mem_append.mp hmem with hmem | hmem
  · exact hr s hs hmem
  · exact hc (List.mem_singleton.mp hmem).symm

theorem nul_notMem_format (hc : r.delimiter ≠ 0) : 0 ∉ r.format :=
  notMem_format (fun s _ => s.nul) hc

theorem takeAndParse_format (nValue : Nat) (hd : r.delimiter = colon) (hfree : r.Free colon)
    (hlen : r.columns.length < maxColumns) :
    ∃ r', takeAndParse (.of r.format) nValue colon true = some r' ∧ r'.columns = r.columns ++ [empty] := by
  have hnul : 0 ∉ r.format := nul_notMem_format (by rw [hd]; decide)
  obtain ⟨r', hr', hcolumns⟩ := takeAndParseFrom_columns nValue 0 ⟨[], colon, Nat.zero_le _⟩ hfree (by simpa using hlen)
  refine ⟨r', ?_, hcolumns⟩
  rw [takeAndParse, CString.bytes_of hnul, format, hd]
  exact hr'

theorem free_takeAndParse {line : CString} (h : takeAndParse line nValue colon true = some r) : r.Free colon :=
  fun _ hs => ((mem_takeAndParseFrom h hs).resolve_left List.not_mem_nil).1

theorem mem_of_takeAndParse {line s : CString} (h : takeAndParse line nValue colon true = some r)
    (hs : s ∈ r.columns) (hc : c ∈ s.bytes) : c ∈ line.bytes :=
  ((mem_takeAndParseFrom h hs).resolve_left List.not_mem_nil).2 c hc

theorem strnsplitFrom_cut (hat : value.idxOf? delimiter = some i) : strnsplitFrom delimiter value =
    (value.take i :: (strnsplitFrom delimiter (value.drop (i + 1))).1,
      (strnsplitFrom delimiter (value.drop (i + 1))).2) := by
  rw [strnsplitFrom]
  split
  case h_1 hnone => rw [hat] at hnone; cases hnone
  case h_2 hsome =>
    rw [hat] at hsome
    cases hsome
    rfl

theorem strnsplitFrom_last (hat : delimiter ∉ value) : strnsplitFrom delimiter value = ([], value) := by
  have hnone : value.idxOf? delimiter = none := List.idxOf?_eq_none_iff.mpr hat
  rw [strnsplitFrom]
  split
  case h_1       => rfl
  case h_2 hsome => rw [hnone] at hsome; cases hsome

theorem strnsplitFrom_lines (h : ∀ l ∈ ls, delimiter ∉ l) :
    strnsplitFrom delimiter (ls.flatMap (· ++ [delimiter])) = (ls, []) := by
  induction ls with
  | nil => exact strnsplitFrom_last (by simp)
  | cons l ls ih =>
    obtain ⟨hl, hls⟩ := List.forall_mem_cons.mp h
    have heq : ((l :: ls).flatMap (· ++ [delimiter])) = l ++ delimiter :: ls.flatMap (· ++ [delimiter]) := by
      simp
    rw [heq, strnsplitFrom_cut (idxOf?_append_cons hl), List.take_left, ← List.drop_drop, List.drop_left]
    simp only [List.drop_succ_cons, List.drop_zero, ih hls]

-- No piece of the text holds the delimiter.
theorem notMem_strnsplitFrom (delimiter : UInt8) (value : Bytes) :
    (∀ l ∈ (strnsplitFrom delimiter value).1, delimiter ∉ l) ∧ delimiter ∉ (strnsplitFrom delimiter value).2 := by
  induction hn : value.length using Nat.strong_induction_on generalizing value with
  | _ n ih =>
    cases hat : value.idxOf? delimiter with
    | none =>
      have hfree : delimiter ∉ value := List.idxOf?_eq_none_iff.mp hat
      rw [strnsplitFrom_last hfree]
      exact ⟨by simp, hfree⟩
    | some i =>
      obtain ⟨hi, hfree⟩ := notMem_take_idxOf? hat
      obtain ⟨hlines, hrest⟩ := ih _ (by simp; omega) (value.drop (i + 1)) rfl
      rw [strnsplitFrom_cut hat]
      exact ⟨List.forall_mem_cons.mpr ⟨hfree, hlines⟩, hrest⟩

theorem notMem_strnsplit {l : CString} (h : l ∈ strnsplit value delimiter) : delimiter ∉ l.bytes := by
  obtain ⟨hlines, hrest⟩ := notMem_strnsplitFrom delimiter value
  obtain ⟨s, hs, rfl⟩ := List.mem_map.mp h
  intro hc
  split at hs
  case isFalse => exact hlines s hs (CString.mem_of hc)
  case isTrue =>
    rcases List.mem_append.mp hs with hs | hs
    · exact hlines s hs (CString.mem_of hc)
    · exact hrest (List.mem_singleton.mp hs ▸ CString.mem_of hc)

-- Behind the line break of the last record there is an empty line.
theorem strnsplit_recordsFormat (hd : ∀ r ∈ rs, r.delimiter = colon) (hfree : ∀ r ∈ rs, r.Free newline) (hne : rs ≠ []) :
    strnsplit (recordsFormat rs) newline = rs.map (fun r => .of r.format) ++ [empty] := by
  have hlines : ∀ l ∈ rs.map format, newline ∉ l := by
    intro l hl
    obtain ⟨r, hr, rfl⟩ := List.mem_map.mp hl
    exact notMem_format (hfree r hr) (by rw [hd r hr]; decide)
  have hformat : recordsFormat rs = (rs.map format).flatMap (· ++ [newline]) := by
    rw [recordsFormat, List.flatMap_map]
  have hhead : (recordsFormat rs).headD 0 ≠ 0 := by
    obtain ⟨r, rs, rfl⟩ := List.exists_cons_of_ne_nil hne
    have hnul : 0 ∉ r.format := nul_notMem_format (by rw [hd r (by simp)]; decide)
    rw [recordsFormat, List.flatMap_cons]
    cases hr : r.format with
    | nil => simp [newline]
    | cons c l =>
      intro he
      apply hnul
      rw [hr, ← show c = 0 by simpa using he]
      exact List.mem_cons_self
  have hsplit := strnsplitFrom_lines hlines
  rw [← hformat] at hsplit
  simp only [strnsplit, hsplit, if_pos hhead, List.map_append, List.map_map, List.map_cons, List.map_nil, empty]
  rfl

-- The records that the printed lines are read as, and one empty record behind them.
theorem recordsParseColons_format (hrs : ∀ r ∈ rs, r.delimiter = colon ∧ r.columns.length < maxColumns)
    (hfree : ∀ r ∈ rs, r.Free colon ∧ r.Free newline) (hne : rs ≠ []) :
    ∃ rs', recordsParseColons (recordsFormat rs) = some rs' ∧
      ∀ (k : Nat) (r : Record), rs[k]? = some r → ∃ r' : Record, rs'[k]? = some r' ∧ r'.columns = r.columns ++ [empty] := by
  have hsplit := strnsplit_recordsFormat (fun r hr => (hrs r hr).1) (fun r hr => (hfree r hr).2) hne
  have hparse : ∀ l ∈ strnsplit (recordsFormat rs) newline,
      ∃ r', takeAndParse l l.bytes.length colon true = some r' := by
    intro l hl
    rw [hsplit, List.mem_append, List.mem_map, List.mem_singleton] at hl
    rcases hl with ⟨r, hr, rfl⟩ | rfl
    · obtain ⟨r', hr', -⟩ := takeAndParse_format _ (hrs r hr).1 (hfree r hr).1 (hrs r hr).2
      exact ⟨r', hr'⟩
    · exact ⟨_, takeAndParseFrom_last (by decide) (by simp [empty, CString.of, cstr])⟩
  obtain ⟨rs', hrs'⟩ := exists_mapM hparse
  refine ⟨rs', hrs', fun k r hk => ?_⟩
  have hmem := List.mem_of_getElem? hk
  obtain ⟨r', hr', hcolumns⟩ := takeAndParse_format (CString.of r.format).bytes.length (hrs r hmem).1
    (hfree r hmem).1 (hrs r hmem).2
  have hline : (strnsplit (recordsFormat rs) newline)[k]? = some (.of r.format) := by
    have hlt := (List.getElem?_eq_some_iff.mp hk).1
    rw [hsplit, List.getElem?_append_left (by simpa using hlt), List.getElem?_map, hk, Option.map_some]
  exact ⟨r', by rw [getElem?_mapM hrs', hline, Option.bind_some, hr'], hcolumns⟩

theorem free_recordsParseColons (h : recordsParseColons data = some rs) (hr : r ∈ rs) : r.Free colon ∧ r.Free newline := by
  obtain ⟨k, hk⟩ := List.mem_iff_getElem?.mp hr
  rw [getElem?_mapM h, Option.bind_eq_some_iff] at hk
  obtain ⟨l, hl, hparse⟩ := hk
  refine ⟨free_takeAndParse hparse, fun s hs hc => ?_⟩
  exact notMem_strnsplit (List.mem_of_getElem? hl) (mem_of_takeAndParse hparse hs hc)

end Record

open GLib

namespace Record

-- A column reads as the value that was set, and the others are as they were.
structure SetGet (r : Record) (column : Nat) (v : Value) : Prop where
  reads  : (r.set column v).Reads column v
  others : ∀ j ≠ column, (r.set column v).getRaw j = r.getRaw j

-- This also holds for the record that is parsed from the text of the record.
def ParseGet (r : Record) (column : Nat) (v : Value) : Prop :=
  ∃ r', parseColons (r.set column v).format = some r' ∧ r'.Reads column v ∧
    ∀ j s, j ≠ column → r.getRaw j = some s → r'.getRaw j = some s

def OthersFree (r : Record) (column : Nat) (c : UInt8) : Prop :=
  ∀ j s, j ≠ column → r.getRaw j = some s → c ∉ s.bytes

variable {r r' : Record} {column i j : Nat} {v : Value} {c : UInt8} {s : CString} {rs rs' : List Record}

theorem setGet_iff (hc : column < r.columns.length) : r.SetGet column v ↔ v.Survives r.delimiter where
  mp h  := (reads_iff (getRaw_set hc v)).mp h.reads
  mpr h := ⟨(reads_iff (getRaw_set hc v)).mpr h, fun _ hj => getRaw_set_ne hj v⟩

theorem mem_columns_iff : s ∈ r.columns ↔ ∃ j, r.getRaw j = some s :=
  List.mem_iff_getElem?

theorem columns_set (r : Record) (column : Nat) (v : Value) :
    (r.set column v).columns.length = r.columns.length ∧ (r.set column v).delimiter = r.delimiter := by
  rw [set_eq]
  exact ⟨List.length_set, rfl⟩

-- The text of a value holds no byte that ends a column or a line.
theorem free_set (hd : r.delimiter = colon) (hc : c = colon ∨ c < 32) (h : r.OthersFree column c) :
    (r.set column v).Free c := by
  intro s hs hmem
  obtain ⟨j, hj⟩ := (mem_columns_iff).mp hs
  by_cases hne : j = column
  case neg =>
    rw [getRaw_set_ne hne] at hj
    exact h j s hne hj hmem
  case pos =>
    have hlt : column < r.columns.length := by
      have hsome := (List.getElem?_eq_some_iff.mp hj).1
      rwa [(columns_set r column v).1, hne] at hsome
    rw [hne, getRaw_set hlt] at hj
    cases hj
    obtain ⟨hle, hcolon⟩ := Value.mem_text (CString.mem_of hmem)
    rcases hc with rfl | hctl
    · exact hcolon hd rfl
    · exact absurd hctl (UInt8.not_lt.mpr hle)

theorem othersFree_of_free (h : r.Free c) : r.OthersFree column c :=
  fun _ s _ hs => h s ((mem_columns_iff).mpr ⟨_, hs⟩)

-- One more column at the end changes none of those before it.
theorem getRaw_of_columns (h : r'.columns = r.columns ++ [empty]) (hj : r.getRaw j = some s) : r'.getRaw j = some s := by
  have hlt := (List.getElem?_eq_some_iff.mp hj).1
  rw [getRaw, h, List.getElem?_append_left hlt]
  exact hj

theorem parseGet_iff (hd : r.delimiter = colon) (hlen : r.columns.length < maxColumns) (hc : column < r.columns.length) :
    r.ParseGet column v ↔ v.Survives colon ∧ r.OthersFree column colon := by
  obtain ⟨hsetlen, hsetd⟩ := columns_set r column v
  have hraw := getRaw_set hc v
  have hparse (hfree : r.OthersFree column colon) : ∃ r', parseColons (r.set column v).format = some r' ∧
      r'.columns = (r.set column v).columns ++ [empty] :=
    takeAndParse_format _ (hsetd.trans hd) (free_set hd (.inl rfl) hfree) (hsetlen ▸ hlen)
  rw [hd] at hraw
  constructor
  case mp =>
    rintro ⟨r', hr', hreads, hothers⟩
    have hfree : r.OthersFree column colon := fun j s hj hs =>
      free_takeAndParse hr' s ((mem_columns_iff).mpr ⟨j, hothers j s hj hs⟩)
    obtain ⟨r'', hr'', hcolumns⟩ := hparse hfree
    cases hr'.symm.trans hr''
    exact ⟨(reads_iff (getRaw_of_columns hcolumns hraw)).mp hreads, hfree⟩
  case mpr =>
    rintro ⟨hv, hfree⟩
    obtain ⟨r', hr', hcolumns⟩ := hparse hfree
    refine ⟨r', hr', (reads_iff (getRaw_of_columns hcolumns hraw)).mpr hv, fun j s hj hs => ?_⟩
    exact getRaw_of_columns hcolumns ((getRaw_set_ne hj v).trans hs)

end Record

namespace Records

open Record

def getRaw (rs : List Record) (i column : Nat) : Option CString :=
  rs[i]?.bind fun r => r.getRaw column

def set (rs : List Record) (i column : Nat) (v : Value) : List Record :=
  rs.modify i fun r => r.set column v

-- The same for the records that are parsed from the text of all records.
def ParseGet (rs : List Record) (i column : Nat) (v : Value) : Prop :=
  ∃ rs', recordsParseColons (recordsFormat (set rs i column v)) = some rs' ∧
    (∃ r', rs'[i]? = some r' ∧ r'.Reads column v) ∧
    ∀ k j s, (k ≠ i ∨ j ≠ column) → getRaw rs k j = some s → getRaw rs' k j = some s

def OthersFree (rs : List Record) (i column : Nat) (c : UInt8) : Prop :=
  ∀ k j s, (k ≠ i ∨ j ≠ column) → getRaw rs k j = some s → c ∉ s.bytes

variable {r : Record} {column i j k : Nat} {v : Value} {c : UInt8} {s : CString} {rs rs' : List Record}

theorem getRaw_set_ne (h : k ≠ i ∨ j ≠ column) : getRaw (set rs i column v) k j = getRaw rs k j := by
  rw [getRaw, getRaw, set, List.getElem?_modify]
  by_cases hk : i = k
  case neg => simp [hk]
  case pos =>
    have hj := h.resolve_left (not_not.mpr hk.symm)
    cases rs[k]? with
    | none   => simp
    | some r => simp [hk, Record.getRaw_set_ne hj]

theorem getElem?_set (hi : rs[i]? = some r) : (set rs i column v)[i]? = some (r.set column v) := by
  simp [set, hi]

-- A record after the setting is one of the others or the one that was changed.
theorem mem_set (hi : rs[i]? = some r) {r' : Record} (h : r' ∈ set rs i column v) :
    r' = r.set column v ∨ ∃ k ≠ i, rs[k]? = some r' := by
  obtain ⟨k, hk⟩ := List.mem_iff_getElem?.mp h
  by_cases hki : k = i
  case pos =>
    rw [hki, getElem?_set hi] at hk
    exact .inl (Option.some.inj hk).symm
  case neg =>
    exact .inr ⟨k, hki, by simpa [set, List.getElem?_modify, Ne.symm hki] using hk⟩

theorem free_set (hd : ∀ r ∈ rs, r.delimiter = colon) (hi : rs[i]? = some r) (hc : c = colon ∨ c < 32)
    (h : OthersFree rs i column c) : ∀ r ∈ set rs i column v, r.Free c := by
  intro r' hr'
  rcases mem_set hi hr' with rfl | ⟨k, hki, hk⟩
  · apply Record.free_set (hd r (List.mem_of_getElem? hi)) hc
    intro j s hj hs
    exact h i j s (.inr hj) (by simp [getRaw, hi, hs])
  · intro s hs
    obtain ⟨j, hj⟩ := (mem_columns_iff).mp hs
    exact h k j s (.inl hki) (by simp [getRaw, hk, hj])

theorem othersFree_of_free (h : ∀ r ∈ rs, r.Free c) : OthersFree rs i column c := by
  intro k j s _ hs
  obtain ⟨r, hr, hj⟩ := Option.bind_eq_some_iff.mp hs
  exact h r (List.mem_of_getElem? hr) s ((mem_columns_iff).mpr ⟨j, hj⟩)

theorem parseGet_iff (hrs : ∀ r ∈ rs, r.delimiter = colon ∧ r.columns.length < maxColumns) (hi : rs[i]? = some r)
    (hc : column < r.columns.length) : ParseGet rs i column v ↔
      v.Survives colon ∧ OthersFree rs i column colon ∧ OthersFree rs i column newline := by
  have hd : ∀ r ∈ rs, r.delimiter = colon := fun r hr => (hrs r hr).1
  have hraw := getRaw_set hc v
  have hset : ∀ r ∈ set rs i column v, r.delimiter = colon ∧ r.columns.length < maxColumns := by
    intro r' hr'
    rcases mem_set hi hr' with rfl | ⟨k, -, hk⟩
    · obtain ⟨hlen, hdelim⟩ := columns_set r column v
      rw [hlen, hdelim]
      exact hrs r (List.mem_of_getElem? hi)
    · exact hrs r' (List.mem_of_getElem? hk)
  have hne : set rs i column v ≠ [] := List.ne_nil_of_mem (List.mem_of_getElem? (getElem?_set hi))
  rw [hd r (List.mem_of_getElem? hi)] at hraw
  have hparse (hcolon : OthersFree rs i column colon) (hnewline : OthersFree rs i column newline) :=
    recordsParseColons_format hset (fun r hr => ⟨free_set hd hi (.inl rfl) hcolon r hr,
      free_set hd hi (.inr (by decide)) hnewline r hr⟩) hne
  constructor
  case mp =>
    rintro ⟨rs', hrs', ⟨r', hr', hreads⟩, hothers⟩
    have hfree : ∀ k j s, (k ≠ i ∨ j ≠ column) → getRaw rs k j = some s → colon ∉ s.bytes ∧ newline ∉ s.bytes := by
      intro k j s hkj hs
      obtain ⟨r₀, hr₀, hj⟩ := Option.bind_eq_some_iff.mp (hothers k j s hkj hs)
      obtain ⟨hcolon, hnewline⟩ := free_recordsParseColons hrs' (List.mem_of_getElem? hr₀)
      exact ⟨hcolon s ((mem_columns_iff).mpr ⟨j, hj⟩), hnewline s ((mem_columns_iff).mpr ⟨j, hj⟩)⟩
    have hcolon : OthersFree rs i column colon := fun k j s hkj hs => (hfree k j s hkj hs).1
    have hnewline : OthersFree rs i column newline := fun k j s hkj hs => (hfree k j s hkj hs).2
    obtain ⟨rs'', hrs'', hcolumns⟩ := hparse hcolon hnewline
    cases hrs'.symm.trans hrs''
    obtain ⟨r'', hr'', heq⟩ := hcolumns i _ (getElem?_set hi)
    cases hr'.symm.trans hr''
    exact ⟨(reads_iff (getRaw_of_columns heq hraw)).mp hreads, hcolon, hnewline⟩
  case mpr =>
    rintro ⟨hv, hcolon, hnewline⟩
    obtain ⟨rs', hrs', hcolumns⟩ := hparse hcolon hnewline
    refine ⟨rs', hrs', ?_, fun k j s hkj hs => ?_⟩
    · obtain ⟨r', hr', heq⟩ := hcolumns i _ (getElem?_set hi)
      exact ⟨r', hr', (reads_iff (getRaw_of_columns heq hraw)).mpr hv⟩
    · rw [← getRaw_set_ne hkj, getRaw, Option.bind_eq_some_iff] at hs
      obtain ⟨r₀, hr₀, hj⟩ := hs
      obtain ⟨r', hr', heq⟩ := hcolumns k r₀ hr₀
      rw [getRaw, hr', Option.bind_some]
      exact getRaw_of_columns heq hj

-- What is set in a column is read again: at once, after the record was printed and parsed, and after
-- all the records were, exactly when the value has no byte in hexadecimal digits and no more than 32
-- bits, and when the other columns hold no colon and no line break.
theorem codec_iff (v : Value) (hi : rs[i]? = some r) (hc : column < r.columns.length) :
    (r.SetGet column v ↔ v.Survives r.delimiter) ∧
    (r.delimiter = colon → r.columns.length < maxColumns →
      (r.ParseGet column v ↔ v.Survives colon ∧ r.OthersFree column colon)) ∧
    ((∀ r ∈ rs, r.delimiter = colon ∧ r.columns.length < maxColumns) →
      (ParseGet rs i column v ↔
        v.Survives colon ∧ OthersFree rs i column colon ∧ OthersFree rs i column newline)) :=
  ⟨setGet_iff hc, fun hd hlen => Record.parseGet_iff hd hlen hc, fun hrs => parseGet_iff hrs hi hc⟩

def uid : CString :=
  .of (ascii ['u', 'i', 'd'])

def uidRecord : Record :=
  .new uid 3 colon (by decide)

theorem free_uidRecord (h : c = colon ∨ c = newline) : uidRecord.Free c := by
  intro s hs
  have hcases : s = uid ∨ s = empty ∨ s = empty := by simpa [uidRecord, Record.new, List.replicate] using hs
  rcases h with rfl | rfl <;> rcases hcases with rfl | rfl | rfl <;> decide

theorem survives_lines : (Value.string (.of [92, newline]) (by decide)).Survives colon := by
  intro c hc
  have hcases : c = 92 ∨ c = newline := by simpa [CString.of, cstr, newline] using hc
  rintro ⟨hletter, -⟩
  rcases hcases with rfl | rfl <;> exact absurd hletter (by decide)

theorem codec_iff_uid : uidRecord.SetGet 1 (.string (.of [92, newline]) (by decide)) ∧
    uidRecord.ParseGet 1 (.string (.of [92, newline]) (by decide)) ∧
    ParseGet [uidRecord, uidRecord] 1 1 (.string (.of [92, newline]) (by decide)) := by
  have hrs : ∀ r ∈ [uidRecord, uidRecord], r = uidRecord := by simp
  have hi : [uidRecord, uidRecord][1]? = some uidRecord := rfl
  have hc : 1 < uidRecord.columns.length := by decide
  obtain ⟨hset, hparse, hrecords⟩ := codec_iff (.string (.of [92, newline]) (by decide)) hi hc
  refine ⟨hset.mpr survives_lines, (hparse rfl (by decide)).mpr ⟨survives_lines, ?_⟩,
    (hrecords ?_).mpr ⟨survives_lines, ?_, ?_⟩⟩
  · exact Record.othersFree_of_free (free_uidRecord (.inl rfl))
  · exact fun r hr => hrs r hr ▸ ⟨rfl, by decide⟩
  · exact Records.othersFree_of_free fun r hr => hrs r hr ▸ free_uidRecord (.inl rfl)
  · exact Records.othersFree_of_free fun r hr => hrs r hr ▸ free_uidRecord (.inr rfl)

-- A colon does not survive, not even without printing the record.
theorem not_setGet_colon : ¬uidRecord.SetGet 1 (.string (.of [97, colon, 98]) (by decide)) := by
  intro h
  have hsurvives := (setGet_iff (by decide)).mp h
  exact hsurvives colon (by decide) ⟨by decide, .inr ⟨rfl, by decide⟩⟩

end Records
