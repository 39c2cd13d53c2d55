import GcrModel.Egg.Armor.Theorems.Headers

-- Reading what `egg_armor_write` has written.
namespace Armor

open GLib Search

variable {data type t d e q u text : Bytes} {headers : Headers} {header : Bytes × Bytes} {c : UInt8} {m : Nat}

-- What the arguments of `egg_armor_write` have to be: C strings, a type on one line without the suffix
-- of a marker, and a table of plain headers.
structure Writable (type : Bytes) (headers : Headers) : Prop where
  nul     : 0 ∉ type
  newline : newline ∉ type
  suff    : ¬armorSuff <:+: type
  names   : (headers.map Prod.fst).Nodup
  plain   : ∀ header ∈ headers, Plain header

-- The lines between the BEGIN marker and the base64 text, without the last newline.
def headerPart (headers : Headers) : Bytes :=
  if headers = [] then [] else newline :: headerLines (writtenHeaders headers)

def base64Lines (data : Bytes) : Bytes :=
  breakLines (Base64.encode data ++ [newline]).length (Base64.encode data ++ [newline])

def armored (data type : Bytes) (headers : Headers) : Bytes :=
  armorPrefBegin ++ (type ++ (armorSuff ++ (headerPart headers ++ newline :: (base64Lines data ++
    (armorPrefEnd ++ (type ++ (armorSuff ++ [newline])))))))

theorem eggArmorWrite_eq (data type : Bytes) (headers : Headers) :
    eggArmorWrite data type headers = .ok (armored data type headers) := by
  have hle : (Base64.encode data ++ [newline]).length ≤ data.length * 4 / 3 + data.length * 4 / (3 * 65) + 7 := by
    rw [List.length_append, Base64.length_encode, List.length_singleton]
    omega
  have hheaders : orderedHeaders.flatMap (fun name => (headers.lookup name).elim [] (headerLine name)) ++
      (if 0 < headers.length then headers.flatMap appendEachHeader ++ [newline] else []) =
      if headers = [] then [] else headerLines (writtenHeaders headers) ++ [newline] := by
    by_cases h : headers = []
    case pos => simp [h]
    case neg =>
      rw [if_pos (List.length_pos_iff.mpr h), if_neg h, headerLines_writtenHeaders, List.append_assoc]
  simp only [eggArmorWrite, check, if_pos hle, bind, Except.bind, armored, base64Lines, headerPart]
  rw [List.append_assoc _ (orderedHeaders.flatMap _), hheaders]
  by_cases h : headers = [] <;> simp [h]

theorem not_isspace_of_rank (h : (Base64.rank c).isSome) : ¬isspace c ∧ c ≠ 45 ∧ c ≠ 0 := by
  have hall : ∀ n < 256, (Base64.rank (UInt8.ofNat n)).isSome →
      ¬isspace (UInt8.ofNat n) ∧ UInt8.ofNat n ≠ 45 ∧ UInt8.ofNat n ≠ 0 := by
    decide +kernel
  have := hall c.toNat c.toNat_lt
  rw [UInt8.ofNat_toNat] at this
  exact this h

theorem mem_breakLines (h : c ∈ breakLines m text) : c = newline ∨ c ∈ text := by
  induction m generalizing text with
  | zero => exact .inr h
  | succ m ih =>
    rw [breakLines] at h
    split at h
    · rcases List.mem_append.mp h with h | h
      · exact .inr (List.mem_of_mem_take h)
      · rcases List.mem_cons.mp h with h | h
        · exact .inl h
        · exact (ih h).imp_right List.mem_of_mem_drop
    · exact .inr h

theorem mem_base64Lines (h : c ∈ base64Lines data) : c = newline ∨ (Base64.rank c).isSome := by
  rcases mem_breakLines h with h | h
  · exact .inl h
  · rcases List.mem_append.mp h with h | h
    · exact .inr (Base64.isSome_rank_of_mem_encode h)
    · exact .inl (List.mem_singleton.mp h)

theorem filter_breakLines {p : UInt8 → Bool} (hp : ¬p newline) (m : Nat) (text : Bytes) :
    (breakLines m text).filter p = text.filter p := by
  induction m generalizing text with
  | zero => rfl
  | succ m ih =>
    rw [breakLines]
    split
    · rw [List.filter_append, List.filter_cons_of_neg hp, ih, ← List.filter_append, List.take_append_drop]
    · rfl

theorem le_length_breakLines (m : Nat) (text : Bytes) : text.length ≤ (breakLines m text).length := by
  induction m generalizing text with
  | zero => exact le_refl _
  | succ m ih =>
    rw [breakLines]
    split
    · have := ih (text.drop 64)
      simp only [List.length_append, List.length_cons, List.length_drop, List.length_take] at this ⊢
      omega
    · exact le_refl _

theorem exists_breakLines (m : Nat) (e : Bytes) : ∃ s, breakLines m (e ++ [newline]) = s ++ [newline] := by
  induction m generalizing e with
  | zero => exact ⟨e, rfl⟩
  | succ m ih =>
    by_cases h : e.length < 64
    case pos => exact ⟨e, breakLines_of_lt h⟩
    case neg =>
      obtain ⟨s, hs⟩ := ih (e.drop 64)
      exact ⟨e.take 64 ++ newline :: s, by rw [breakLines_of_le (Nat.not_lt.mp h), hs]; simp⟩

-- The data is decoded whatever there is before it, as long as that is not in the alphabet.
theorem decode_base64Lines (hu : ∀ c ∈ u, Base64.rank c = none) (data : Bytes) :
    Base64.decode (u ++ newline :: base64Lines data) = data := by
  have hskip : (u ++ newline :: base64Lines data).filter (fun c => (Base64.rank c).isSome) =
      (Base64.encode data).filter fun c => (Base64.rank c).isSome := by
    have hnil : u.filter (fun c => (Base64.rank c).isSome) = [] :=
      List.filter_eq_nil_iff.mpr fun c hc => by simp [hu c hc]
    rw [List.filter_append, hnil, List.nil_append, List.filter_cons_of_neg (by decide), base64Lines,
      filter_breakLines (by decide), List.filter_append, List.filter_cons_of_neg (by decide), List.filter_nil,
      List.append_nil]
  rw [Base64.decode_congr hskip]
  exact Base64.decodeFrom_encode 0 0 data

-- A type without the dashes at its end, which are read as a part of the suffix.
structure Dashes (type t d : Bytes) : Prop where
  eq   : type = t ++ d
  all  : ∀ c ∈ d, c = 45
  last : ∀ c ∈ t.getLast?, c ≠ 45

theorem exists_dashes (type : Bytes) : ∃ t d, Dashes type t d := by
  refine ⟨type.rdropWhile (· = 45), type.rtakeWhile (· = 45), List.rdropWhile_append_rtakeWhile.symm, ?_, ?_⟩
  · intro c hc
    simpa using List.mem_rtakeWhile_imp hc
  · intro c hc
    have hne : type.rdropWhile (· = 45) ≠ [] := fun he => by simp [he] at hc
    rw [List.getLast?_eq_some_getLast hne, Option.mem_some_iff] at hc
    simpa [hc] using List.rdropWhile_last_not _ _ hne

theorem Dashes.suff (h : Dashes type t d) (q : Bytes) : type ++ (armorSuff ++ q) = t ++ (armorSuff ++ (d ++ q)) := by
  have hcomm : d ++ armorSuff = armorSuff ++ d := by
    have hsuff : armorSuff = List.replicate 5 45 := rfl
    rw [List.eq_replicate_of_mem h.all, hsuff, List.replicate_append_replicate, List.replicate_append_replicate,
      Nat.add_comm]
  rw [h.eq, List.append_assoc, ← List.append_assoc d, hcomm, List.append_assoc]

-- The text behind the BEGIN marker, up to the END marker and what follows its type.
def body (data d : Bytes) (headers : Headers) : Bytes :=
  d ++ headerPart headers ++ newline :: base64Lines data

theorem begins_armored (w : Writable type headers) (h : Dashes type t d) (data : Bytes) :
    Begins (armored data type headers) t
      (body data d headers ++ (armorPrefEnd ++ (t ++ (armorSuff ++ (d ++ [newline]))))) := by
  have hpre : t <+: type := h.eq ▸ List.prefix_append t d
  have hsuff : ¬armorSuff <:+: t := fun hi => w.suff (hi.trans hpre.isInfix)
  have hlast : ∀ c ∈ t.getLast?, c ∉ armorSuff := by
    intro c hc hm
    have hdash : c ∈ List.replicate 5 (45 : UInt8) := hm
    exact h.last c hc (List.eq_of_mem_replicate hdash)
  refine ⟨[], _, ⟨.nil _ _, List.not_mem_nil⟩, ⟨?_, fun hz => w.nul (hpre.subset hz)⟩,
    fun hn => w.newline (hpre.subset hn)⟩
  rw [h.suff, h.suff]
  have := First.of_getLast hsuff hlast (body data d headers ++ (armorPrefEnd ++ (t ++ (armorSuff ++ (d ++ [newline])))))
  simpa only [body, List.append_assoc, List.cons_append] using this

theorem mem_headerPart (w : Writable type headers) (h : c ∈ headerPart headers) :
    c = newline ∨ ∃ header ∈ headers, c ∈ nameValue header := by
  unfold headerPart at h
  split at h
  · simp at h
  · rcases List.mem_cons.mp h with h | h
    · exact .inl h
    · obtain ⟨header, hh, hm⟩ := List.mem_flatMap.mp h
      rw [headerLine_eq] at hm
      rcases List.mem_append.mp hm with hm | hm
      · exact .inr ⟨header, (writtenHeaders_perm w.names).mem_iff.mp hh, hm⟩
      · exact .inl (List.mem_singleton.mp hm)

theorem nul_not_mem_body (w : Writable type headers) (h : Dashes type t d) (data : Bytes) :
    0 ∉ body data d headers := by
  simp only [body, List.mem_append, List.mem_cons, not_or]
  refine ⟨⟨fun hz => w.nul (h.eq ▸ List.mem_append_right t hz), fun hz => ?_⟩, by decide, fun hz => ?_⟩
  · rcases mem_headerPart w hz with hz | ⟨header, hh, hz⟩
    · exact absurd hz (by decide)
    · exact (w.plain header hh).nul_not_mem hz
  · rcases mem_base64Lines hz with hz | hz
    · exact absurd hz (by decide)
    · exact (not_isspace_of_rank hz).right.right rfl

-- The END marker is not in the header lines if it is in no name and in no value.
theorem not_infix_headerLines {written : Headers} (hq : ¬armorPrefEnd <:+: q)
    (hend : ∀ header ∈ written, ¬armorPrefEnd <:+: header.1 ∧ ¬armorPrefEnd <:+: header.2) :
    ¬armorPrefEnd <:+: headerLines written ++ newline :: q := by
  have hnewline : newline ∉ armorPrefEnd := by decide
  have hcolon : colon ∉ armorPrefEnd := by decide
  induction written with
  | nil =>
    rw [headerLines, List.flatMap_nil, infix_append_cons_iff hnewline, not_or]
    exact ⟨by decide, hq⟩
  | cons header written ih =>
    have hheader := hend header (List.mem_cons_self ..)
    rw [headerLines_cons, infix_append_cons_iff hnewline, nameValue, infix_append_cons_iff hcolon,
      List.infix_cons_iff]
    rintro ((h | h | h) | h)
    · exact hheader.left h
    · rw [armorPrefEnd, ascii, List.map_cons, List.cons_prefix_cons] at h
      exact absurd h.left (by decide)
    · exact hheader.right h
    · exact ih (fun h hh => hend h (List.mem_cons_of_mem _ hh)) h

theorem not_infix_body (w : Writable type headers) (h : Dashes type t d)
    (hend : ∀ header ∈ headers, ¬armorPrefEnd <:+: header.1 ∧ ¬armorPrefEnd <:+: header.2) (data : Bytes) :
    ¬armorPrefEnd <:+: body data d headers := by
  have hnewline : newline ∉ armorPrefEnd := by decide
  have hd : ¬armorPrefEnd <:+: d := fun hi => absurd (h.all 69 (hi.subset (by decide))) (by decide)
  have hb : ¬armorPrefEnd <:+: base64Lines data := by
    intro hi
    rcases mem_base64Lines (hi.subset (by decide : (45 : UInt8) ∈ armorPrefEnd)) with hm | hm
    · exact absurd hm (by decide)
    · exact (not_isspace_of_rank hm).right.left rfl
  unfold body headerPart
  split
  · rw [List.append_nil, infix_append_cons_iff hnewline, not_or]
    exact ⟨hd, hb⟩
  · rw [List.append_assoc, List.cons_append, infix_append_cons_iff hnewline, not_or]
    exact ⟨hd, not_infix_headerLines hb fun header hh => hend header ((writtenHeaders_perm w.names).mem_iff.mp hh)⟩

theorem exists_body (data d : Bytes) (headers : Headers) : ∃ s, body data d headers = s ++ [newline] := by
  obtain ⟨s, hs⟩ := exists_breakLines (Base64.encode data ++ [newline]).length (Base64.encode data)
  exact ⟨d ++ headerPart headers ++ newline :: s, by rw [body, base64Lines, hs]; simp⟩

theorem ends_armored (w : Writable type headers) (h : Dashes type t d)
    (hend : ∀ header ∈ headers, ¬armorPrefEnd <:+: header.1 ∧ ¬armorPrefEnd <:+: header.2) (data : Bytes) :
    Ends (body data d headers ++ (armorPrefEnd ++ (t ++ (armorSuff ++ (d ++ [newline]))))) t
      (body data d headers) (d ++ [newline]) := by
  obtain ⟨s, hs⟩ := exists_body data d headers
  refine ⟨First.of_getLast (not_infix_body w h hend data) ?_ _, nul_not_mem_body w h data⟩
  rw [hs, List.getLast?_concat]
  intro c hc
  cases hc
  decide

theorem newline_not_mem_encode (data : Bytes) : ∀ c ∈ Base64.encode data, ¬isspace c :=
  fun _ hc => (not_isspace_of_rank (Base64.isSome_rank_of_mem_encode hc)).left

theorem endOffset_body (data d : Bytes) (headers : Headers) (q : Bytes) :
    endOffset (body data d headers ++ q) (body data d headers) = (body data d headers).length := by
  obtain ⟨s, hs⟩ := exists_breakLines (Base64.encode data ++ [newline]).length (Base64.encode data)
  refine endOffset_eq_length (by rw [base64Lines, hs]; simp) (breakLines_isChain ?_ fun k => ?_)
  · exact newline_not_mem (newline_not_mem_encode data)
  · have := Base64.getElem?_encode_ne_pad data (16 * k)
    rwa [← Nat.mul_assoc] at this

theorem rank_dash (h : Dashes type t d) : ∀ c ∈ d, Base64.rank c = none := by
  intro c hc
  rw [h.all c hc]
  decide

theorem newline_not_mem_dashes (h : Dashes type t d) : newline ∉ d :=
  fun hm => absurd (h.all _ hm) (by decide)

-- Without headers, a blank line at the end of the text counts as the end of the headers.
theorem parseBlock_base64Lines (h : Dashes type t d) (hdata : data ≠ []) (q : Bytes) :
    armorParseBlock (body data d [] ++ 45 :: q) (body data d []).length none =
      .ok (if 64 ∣ (Base64.encode data).length then none else some (data, none)) := by
  have hlen := le_length_breakLines (Base64.encode data ++ [newline]).length (Base64.encode data ++ [newline])
  obtain ⟨s, hs⟩ := exists_body data d []
  have hbody : body data d [] = d ++ newline :: base64Lines data := by simp [body, headerPart]
  have hne : (body data d []).length ≠ 0 := by simp [body]
  have hn : (body data d []).length = d.length + 1 + (base64Lines data).length := by
    rw [hbody, List.length_append, List.length_cons]
    omega
  have hfind : findHeaderEnd ((body data d []).length + 1) (body data d [] ++ 45 :: q) (body data d []).length =
      .ok (if 64 ∣ (Base64.encode data).length then some (d.length + (base64Lines data).length) else none) := by
    have hpos := List.length_pos_iff.mpr hdata
    have hencode := Base64.length_encode data
    rw [hn, hbody, List.append_assoc, List.cons_append]
    refine findHeaderEnd_breakLines (newline_not_mem_dashes h) (newline_not_mem_encode data) ?_ ?_ q
    · rw [List.length_append]
      omega
    · rw [List.length_append, List.length_singleton] at hlen
      rw [base64Lines, List.length_append, List.length_singleton]
      omega
  simp only [armorParseBlock, check, if_pos hne, hfind, slice_append, bind, Except.bind]
  by_cases hd : 64 ∣ (Base64.encode data).length
  case pos =>
    have hs' : s.length = d.length + (base64Lines data).length := by
      have := congrArg List.length hs
      rw [List.length_append, List.length_singleton] at this
      omega
    have hempty : Base64.decode ((body data d []).drop (d.length + (base64Lines data).length)) = [] := by
      rw [hs, ← hs', List.drop_left]
      decide
    simp only [if_pos hd, Option.getD_some, hempty, if_true]
  case neg =>
    have hdecode : Base64.decode ((body data d []).drop 0) = data := by
      rw [List.drop_zero, hbody]
      exact decode_base64Lines (rank_dash h) data
    simp only [if_neg hd, Option.getD_none, hdecode, if_neg hdata, Option.elim_none]

-- With headers, the first blank line is the one behind them.
theorem parseBlock_headers (w : Writable type headers) (h : Dashes type t d) (hdata : data ≠ [])
    (hheaders : headers ≠ []) (q : Bytes) :
    ∃ result, armorParseBlock (body data d headers ++ 45 :: q) (body data d headers).length none =
      .ok (some (data, some result)) ∧ result.Perm headers := by
  have hperm := writtenHeaders_perm w.names
  have hw : ∀ header ∈ writtenHeaders headers, Plain header := fun header hh => w.plain header (hperm.mem_iff.mp hh)
  have hbody : body data d headers =
      (d ++ newline :: headerLines (writtenHeaders headers)) ++ newline :: base64Lines data := by
    rw [body, headerPart, if_neg hheaders]
  have hlead : (d ++ newline :: headerLines (writtenHeaders headers)).length =
      d.length + 1 + (headerLines (writtenHeaders headers)).length := by
    rw [List.length_append, List.length_cons]
    omega
  have hn := congrArg List.length hbody
  rw [List.length_append, hlead, List.length_cons] at hn
  have hne : (body data d headers).length ≠ 0 := by omega
  have hfind : findHeaderEnd ((body data d headers).length + 1) (body data d headers ++ 45 :: q)
      (body data d headers).length = .ok (some (d ++ newline :: headerLines (writtenHeaders headers)).length) := by
    have htext : body data d headers ++ 45 :: q =
        d ++ newline :: (headerLines (writtenHeaders headers) ++ newline :: (base64Lines data ++ 45 :: q)) := by
      simp [hbody]
    rw [htext, hlead]
    refine findHeaderEnd_headers (newline_not_mem_dashes h) hw ?_ ?_ ?_
    · have := length_le_headerLines (writtenHeaders headers)
      omega
    · omega
    · rw [List.length_append]
      omega
  have hdecode : Base64.decode (newline :: base64Lines data) = data :=
    decode_base64Lines (u := []) (by simp) data
  have hnul : 0 ∉ d := fun hz => w.nul (h.eq ▸ List.mem_append_right t hz)
  have hcolon : colon ∉ d := fun hm => absurd (h.all _ hm) (by decide)
  have hne' : writtenHeaders headers ≠ [] := fun he => hheaders (List.nil_perm.mp (he ▸ hperm))
  obtain ⟨result, hparse, hp⟩ := parseHeaderLines_headerLines (newline_not_mem_dashes h) hnul hcolon hw
    ((hperm.map _).nodup_iff.mpr w.names) hne'
  refine ⟨result, ?_, hp.trans hperm⟩
  have hdrop : (body data d headers).drop (d ++ newline :: headerLines (writtenHeaders headers)).length =
      newline :: base64Lines data := by
    rw [hbody, List.drop_left]
  have htake : (body data d headers).take (d ++ newline :: headerLines (writtenHeaders headers)).length =
      d ++ newline :: headerLines (writtenHeaders headers) := by
    rw [hbody, List.take_left]
  simp only [armorParseBlock, check, if_pos hne, hfind, slice_append, bind, Except.bind, Option.getD_some, hdrop,
    hdecode, if_neg hdata, Option.elim_some, htake, hparse]

-- No other block follows.
theorem not_begins_after (w : Writable type headers) (h : Dashes type t d) (type' rest : Bytes) :
    ¬Begins (ascii ['E', 'N', 'D', ' '] ++ (t ++ (armorSuff ++ (d ++ [newline])))) type' rest := by
  rintro ⟨pre, r, hb, -⟩
  have hinfix : armorPrefBegin <:+: ascii ['E', 'N', 'D'] ++ 32 :: t ++ (armorSuff ++ d) ++ newline :: [] := by
    refine ⟨pre, r, ?_⟩
    rw [List.append_assoc, ← hb.eq]
    simp [ascii]
  have hlast : armorPrefBegin.getLast (by decide) ∉ armorSuff ++ d := by
    intro hm
    rcases List.mem_append.mp hm with hm | hm
    · exact absurd hm (by decide)
    · exact absurd (h.all _ hm) (by decide)
  have hsuff : armorSuff <:+: armorPrefBegin := ⟨[], ascii ['B', 'E', 'G', 'I', 'N', ' '], by decide⟩
  have ht : ¬armorSuff <:+: t := fun hi => w.suff (hi.trans ⟨[], d, by rw [h.eq, List.nil_append]⟩)
  rcases (infix_append_cons_iff (by decide)).mp hinfix with hi | hi
  · have hi' := hsuff.trans (infix_of_getLast (by decide) hlast hi)
    rcases (infix_append_cons_iff (by decide)).mp hi' with hi' | hi'
    · exact absurd hi' (by decide)
    · exact ht hi'
  · exact absurd hi (by decide)

-- The memory with the text and the NUL that a GString puts behind it.
def reparse (text : Bytes) : Result (List Found) :=
  eggArmorParse (text ++ [0]) text.length

theorem reparse_armored (w : Writable type headers) (h : Dashes type t d) (ht : t ≠ [])
    (hend : ∀ header ∈ headers, ¬armorPrefEnd <:+: header.1 ∧ ¬armorPrefEnd <:+: header.2) (data : Bytes) :
    ∃ block outerBeg outerEnd, armorParseBlock (body data d headers ++ 45 :: (armorPrefEnd.tail ++
        (t ++ (armorSuff ++ (d ++ [newline]))) ++ [0])) (body data d headers).length none = .ok block ∧
      reparse (armored data type headers) = .ok (block.elim [] fun block => [⟨t, block.1, outerBeg, outerEnd, block.2⟩]) := by
  have hb := begins_armored w h data
  have he := ends_armored w h hend data
  obtain ⟨s, hs⟩ := exists_body data d headers
  have hbody : body data d headers ≠ [] := by simp [hs]
  obtain ⟨block, outerBeg, outerEnd, hblock, -, -, hround⟩ :=
    armorParseFrom_step [0] (armored data type headers).length 0 none hb ht he (by simp) (by simp)
  have hoffset := endOffset_body data d headers (armorPrefEnd ++ (t ++ (armorSuff ++ (d ++ [newline]))) ++ [0])
  rw [← List.append_assoc] at hoffset
  rw [hoffset, if_pos (Nat.ne_of_gt (List.length_pos_iff.mpr hbody))] at hblock
  refine ⟨block, 0 + outerBeg, 0 + outerEnd, ?_, ?_⟩
  · rw [← hblock]
    congr 1
    simp [armorPrefEnd, ascii]
  · have hle : (body data d headers).length + armorSuff.length ≤
        (body data d headers ++ (armorPrefEnd ++ (t ++ (armorSuff ++ (d ++ [newline]))))).length := by
      simp only [List.length_append, armorPrefEnd, armorSuff, ascii, List.length_map, List.length_cons]
      omega
    have hdrop : (body data d headers ++ (armorPrefEnd ++ (t ++ (armorSuff ++ (d ++ [newline]))))).drop
        ((body data d headers).length + armorSuff.length) =
          ascii ['E', 'N', 'D', ' '] ++ (t ++ (armorSuff ++ (d ++ [newline]))) := by
      rw [drop_append_length]
      rfl
    rw [reparse, eggArmorParse, hround, hoffset]
    simp only [check, if_pos hle, bind, Except.bind, List.drop_append_of_le_length hle, ← List.length_drop, hdrop]
    -- No block follows.
    have hrest (pos : Nat) (found : Option Headers) : armorParseFrom (armored data type headers).length pos
        (ascii ['E', 'N', 'D', ' '] ++ (t ++ (armorSuff ++ (d ++ [newline]))) ++ [0])
        (ascii ['E', 'N', 'D', ' '] ++ (t ++ (armorSuff ++ (d ++ [newline])))).length found = .ok [] := by
      obtain ⟨k, hk⟩ := Nat.exists_eq_add_of_lt (Nat.zero_lt_of_lt hb.length_lt)
      rw [hk]
      exact armorParseFrom_begin_none [0] (not_begins_after w h)
    rw [hrest]
    simp

end Armor
