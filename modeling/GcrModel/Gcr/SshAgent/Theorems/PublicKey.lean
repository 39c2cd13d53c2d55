import GcrModel.Egg.Armor.Theorems.RoundTrip
import GcrModel.Egg.Buffer.Theorems.Codec
import GcrModel.Gcr.SshAgent.Preload

-- What is read of public key files, which need not end with a NUL.
namespace SshAgent

open GLib EggBuffer

-- The same as `keyLine`, with no result where a byte behind the data is read.
def keyLineInside (data : Bytes) : Option (Option Bytes) :=
  match _hspace : data.dropWhile asciiIsspace with
  -- Not a comment or blank line? Then parse...
  | []        => none
  | 35 :: rest =>
    match _hat : rest.idxOf? newline with
    | none   => some none
    | some i => keyLineInside (rest.drop (i + 1))
  | line       => some (some line)
termination_by data.length
decreasing_by
  have hle := (List.dropWhile_sublist asciiIsspace (l := data)).length_le
  simp only [_hspace, List.length_cons] at hle
  simp only [List.length_drop]
  omega

-- What follows never reads behind the line.
def parsePublicKeyInside (input : Bytes) : Option (Option (Bytes × Bytes)) :=
  (keyLineInside input).map fun _ => parsePublicKey input

-- Lines that are blank or comments, up to the start of a line or to the text in one.
inductive Skipped : Bytes → Prop
  | nil : Skipped []
  | space {c : UInt8} {data : Bytes} : asciiIsspace c → Skipped data → Skipped (c :: data)
  | comment {text data : Bytes} : newline ∉ text → Skipped data → Skipped (35 :: text ++ newline :: data)

inductive Ending
  | eof
  | lf (rest : Bytes)
  | crlf (rest : Bytes)
  deriving DecidableEq, Repr

def Ending.bytes : Ending → Bytes
  | eof       => []
  | lf rest   => newline :: rest
  | crlf rest => 13 :: newline :: rest

-- Spaces or tabs, and the rest of a line behind them.
structure Comment where
  separator : Bytes
  text      : Bytes
  blank     : separator ≠ [] ∧ ∀ c ∈ separator, isBlank c
  word      : ∃ c rest, text = c :: rest ∧ ¬isBlank c
  line      : newline ∉ text ∧ text.getLast? ≠ some 13

-- A file with a line for a key. The first string of the key is its type, and `more` is what follows in it.
structure KeyFile where
  skipped   : Bytes
  type      : Bytes
  separator : Bytes
  more      : Bytes
  comment   : Option Comment
  ending    : Ending
  lines     : Skipped skipped
  word      : type ≠ [] ∧ ∀ c ∈ type, ¬asciiIsspace c
  noComment : type.head? ≠ some 35
  short     : type.length < 2 ^ 32
  blank     : separator ≠ [] ∧ ∀ c ∈ separator, isBlank c

namespace KeyFile

def blob (f : KeyFile) : Bytes :=
  encodeUint32 (UInt32.ofNat f.type.length) ++ f.type ++ f.more

def commentBytes (f : KeyFile) : Bytes :=
  f.comment.elim [] fun comment => comment.separator ++ comment.text

def bytes (f : KeyFile) : Bytes :=
  f.skipped ++ (f.type ++ f.separator ++ Base64.encode f.blob ++ f.commentBytes ++ f.ending.bytes)

def text (f : KeyFile) : Bytes :=
  f.comment.elim [] Comment.text

-- The words are taken apart at a space, the line ends with a newline, the key has more than its type, and the comment can
-- be a string.
structure Plain (f : KeyFile) : Prop where
  type    : f.separator.head? = some 32
  comment : ∀ comment ∈ f.comment, 32 ∈ comment.separator ∧ 4 ∣ (comment.separator.takeWhile (· ≠ 32)).length
  ending  : ∀ rest, f.ending ≠ .crlf rest
  more    : f.more ≠ []
  nul     : 0 ∉ f.text

end KeyFile

variable {data text : Bytes} {f : KeyFile} {c : UInt8}

section Lines

variable {rest : Bytes}

theorem keyLine_of_nil (h : data.dropWhile asciiIsspace = []) : keyLine data = some [] ∧ keyLineInside data = none := by
  constructor
  · rw [keyLine]
    split
    case h_1 h' => rw [h] at h'; cases h'
    case h_2     => rw [h]
  · rw [keyLineInside]
    split
    case h_1     => rfl
    case h_2 h'  => rw [h] at h'; cases h'
    case h_3 hne _ => exact absurd h hne

theorem keyLine_of_line {line : Bytes} (h : data.dropWhile asciiIsspace = c :: line) (hc : c ≠ 35) :
    keyLine data = some (c :: line) ∧ keyLineInside data = some (some (c :: line)) := by
  constructor
  · rw [keyLine]
    split
    case h_1 h' => rw [h] at h'; exact absurd (List.cons.inj h').1 hc
    case h_2     => rw [h]
  · rw [keyLineInside]
    split
    case h_1 h' => rw [h] at h'; cases h'
    case h_2 h' => rw [h] at h'; exact absurd (List.cons.inj h').1 hc
    case h_3     => rw [h]

theorem keyLine_of_comment (h : data.dropWhile asciiIsspace = 35 :: rest) :
    keyLine data = ((rest.idxOf? newline).bind fun i => keyLine (rest.drop (i + 1))) ∧
      keyLineInside data = match rest.idxOf? newline with
        | none   => some none
        | some i => keyLineInside (rest.drop (i + 1)) := by
  constructor
  · rw [keyLine]
    split
    case h_1 h' =>
      rw [h] at h'
      obtain rfl := (List.cons.inj h').2
      split
      case h_1 hat   => rw [hat]; rfl
      case h_2 i hat => rw [hat]; rfl
    case h_2 hne => exact absurd h (hne _)
  · rw [keyLineInside]
    split
    case h_1 h' => rw [h] at h'; cases h'
    case h_2 h' =>
      rw [h] at h'
      obtain rfl := (List.cons.inj h').2
      split
      case h_1 hat   => rw [hat]
      case h_2 i hat => rw [hat]
    case h_3 hne => exact absurd h (hne _)

end Lines

theorem skipped_dropWhile : Skipped data ↔ Skipped (data.dropWhile asciiIsspace) := by
  induction data with
  | nil => rfl
  | cons c data ih =>
    by_cases hc : asciiIsspace c
    · rw [List.dropWhile_cons_of_pos hc, ← ih]
      refine ⟨fun h => ?_, .space hc⟩
      cases h with
      | space _ h     => exact h
      | comment _ _ => cases hc
    · rw [List.dropWhile_cons_of_neg hc]

theorem not_skipped_line (hspace : ¬asciiIsspace c) (hc : c ≠ 35) : ¬Skipped (c :: data) := by
  intro h
  generalize hline : c :: data = line at h
  cases h with
  | nil => cases hline
  | space hc' _ =>
    obtain ⟨rfl, -⟩ := List.cons.inj hline
    exact hspace hc'
  | comment _ _ => exact hc (List.cons.inj hline).1

theorem split_idxOf? {i : Nat} (h : data.idxOf? c = some i) : data = data.take i ++ c :: data.drop (i + 1) := by
  induction data generalizing i with
  | nil => cases h
  | cons d data ih =>
    rw [List.idxOf?_cons] at h
    split at h
    case isTrue hd =>
      obtain rfl := Option.some.inj h
      rw [beq_iff_eq.mp hd]
      rfl
    case isFalse =>
      obtain ⟨j, hj, rfl⟩ := Option.map_eq_some_iff.mp h
      rw [List.take_succ_cons, List.drop_succ_cons, List.cons_append, ← ih hj]

theorem drop_newline (text data : Bytes) : (text ++ newline :: data).drop (text.length + 1) = data := by
  rw [List.drop_append, List.drop_of_length_le (Nat.le_succ _), Nat.add_sub_cancel_left]
  rfl

theorem skipped_comment_iff {rest : Bytes} :
    Skipped (35 :: rest) ↔ ∃ i, rest.idxOf? newline = some i ∧ Skipped (rest.drop (i + 1)) := by
  constructor
  · intro h
    generalize hline : 35 :: rest = line at h
    cases h with
    | nil => cases hline
    | space hc _ =>
      obtain ⟨rfl, -⟩ := List.cons.inj hline
      cases hc
    | @comment text data hnewline h =>
      obtain rfl : rest = text ++ newline :: data := (List.cons.inj hline).2
      refine ⟨text.length, idxOf?_append_cons hnewline, ?_⟩
      rwa [drop_newline]
  · rintro ⟨i, hi, h⟩
    obtain ⟨hlt, hnewline⟩ := notMem_take_idxOf? hi
    rw [split_idxOf? hi]
    exact .comment hnewline h

-- The two functions find the same line, unless nothing is left.
theorem keyLineInside_eq (data : Bytes) :
    Skipped data ∧ keyLineInside data = none ∨ ¬Skipped data ∧ (keyLineInside data).isSome := by
  generalize hlength : data.length = n
  induction n using Nat.strong_induction_on generalizing data with
  | h n ih =>
    rw [skipped_dropWhile]
    match hspace : data.dropWhile asciiIsspace with
    | [] => exact .inl ⟨.nil, (keyLine_of_nil hspace).2⟩
    | c :: rest =>
      have hne : ¬asciiIsspace c := by
        have hhead := List.head_dropWhile_not asciiIsspace (by rw [hspace]; exact List.cons_ne_nil _ _)
        simpa [hspace] using hhead
      by_cases hc : c = 35
      case neg => exact .inr ⟨not_skipped_line hne hc, by rw [(keyLine_of_line hspace hc).2]; rfl⟩
      case pos =>
        obtain rfl := hc
        rw [(keyLine_of_comment hspace).2, skipped_comment_iff]
        cases hat : rest.idxOf? newline with
        | none   => exact .inr ⟨by simp, rfl⟩
        | some i =>
          have hlt : (rest.drop (i + 1)).length < n := by
            have hle := (List.dropWhile_sublist asciiIsspace (l := data)).length_le
            simp only [hspace, List.length_cons] at hle
            rw [List.length_drop]
            omega
          simpa using ih _ hlt _ rfl

-- Nothing is read outside of the data if and only if there is a line in it, or the start of a comment.
theorem parsePublicKeyInside_isSome_iff (data : Bytes) : (parsePublicKeyInside data).isSome ↔ ¬Skipped data := by
  rw [parsePublicKeyInside, Option.isSome_map]
  obtain ⟨hskipped, hnone⟩ | ⟨hskipped, hsome⟩ := keyLineInside_eq data
  · simp [hskipped, hnone]
  · simp [hskipped, hsome]

theorem keyLine_space (hc : asciiIsspace c) : keyLine (c :: data) = keyLine data := by
  have hspace : (c :: data).dropWhile asciiIsspace = data.dropWhile asciiIsspace := List.dropWhile_cons_of_pos hc
  match h : data.dropWhile asciiIsspace with
  | []        => rw [(keyLine_of_nil (hspace.trans h)).1, (keyLine_of_nil h).1]
  | d :: rest =>
    by_cases hd : d = 35
    · obtain rfl := hd
      rw [(keyLine_of_comment (hspace.trans h)).1, (keyLine_of_comment h).1]
    · rw [(keyLine_of_line (hspace.trans h) hd).1, (keyLine_of_line h hd).1]

theorem keyLine_comment (hnewline : newline ∉ text) : keyLine (35 :: text ++ newline :: data) = keyLine data := by
  have hspace : (35 :: text ++ newline :: data).dropWhile asciiIsspace = 35 :: (text ++ newline :: data) :=
    List.dropWhile_cons_of_neg (by decide)
  rw [(keyLine_of_comment hspace).1, idxOf?_append_cons hnewline, Option.bind_some, drop_newline]

-- The line is found behind the ones that are skipped.
theorem keyLine_skipped (h : Skipped data) (hspace : ¬asciiIsspace c) (hc : c ≠ 35) (line : Bytes) :
    keyLine (data ++ c :: line) = some (c :: line) := by
  induction h with
  | nil           => exact (keyLine_of_line (List.dropWhile_cons_of_neg hspace) hc).1
  | space hd _ ih => rw [List.cons_append, keyLine_space hd, ih]
  | @comment text data hnewline _ ih =>
    have hsplit : 35 :: text ++ newline :: data ++ c :: line = 35 :: text ++ newline :: (data ++ c :: line) := by simp
    rw [hsplit, keyLine_comment hnewline, ih]

theorem not_skipped_line_behind (h : Skipped data) (hspace : ¬asciiIsspace c) (hc : c ≠ 35) (line : Bytes) :
    ¬Skipped (data ++ c :: line) := by
  induction h with
  | nil => exact not_skipped_line hspace hc
  | @space d data hd _ ih =>
    rw [skipped_dropWhile] at ih ⊢
    rwa [List.cons_append, List.dropWhile_cons_of_pos hd]
  | @comment text data hnewline _ ih =>
    have hsplit : 35 :: text ++ newline :: data ++ c :: line = 35 :: (text ++ newline :: (data ++ c :: line)) := by simp
    rw [hsplit, skipped_comment_iff]
    rintro ⟨i, hi, hskipped⟩
    obtain rfl := Option.some.inj ((idxOf?_append_cons hnewline).symm.trans hi)
    rw [drop_newline] at hskipped
    exact ih hskipped

-- What is behind the key in its line.
def KeyFile.tail (f : KeyFile) : Bytes :=
  f.commentBytes ++ f.ending.bytes.takeWhile (· ≠ newline)

-- The line of the key, without the newline.
def KeyFile.line (f : KeyFile) : Bytes :=
  f.type ++ (f.separator ++ (Base64.encode f.blob ++ f.tail))

namespace KeyFile

theorem length_blob (f : KeyFile) : f.blob.length = f.type.length + 4 + f.more.length := by
  rw [blob, List.length_append, List.length_append, Nat.add_comm f.type.length]
  rfl

theorem decode_blob (f : KeyFile) : (decodeUint32 f.blob).toNat = f.type.length := by
  have hstart : decodeUint32 f.blob = decodeUint32 (encodeUint32 (UInt32.ofNat f.type.length)) := rfl
  rw [hstart, decodeUint32_encode, UInt32.toNat_ofNat_of_lt' f.short]

theorem type_of_blob (f : KeyFile) : (f.blob.drop 4).take f.type.length = f.type := by
  have hdrop : f.blob.drop 4 = f.type ++ f.more := by
    rw [blob, List.append_assoc]
    rfl
  rw [hdrop, List.take_left]

theorem newline_notMem_line (f : KeyFile) :
    ∀ c ∈ f.type ++ f.separator ++ Base64.encode f.blob ++ f.commentBytes, c ≠ newline := by
  have hblank : ∀ {c}, isBlank c → c ≠ newline := by
    rintro c hc rfl
    cases hc
  intro c hc
  rw [List.mem_append, List.mem_append, List.mem_append] at hc
  obtain ((hc | hc) | hc) | hc := hc
  · rintro rfl
    exact f.word.2 newline hc (by decide)
  · exact hblank (f.blank.2 c hc)
  · rintro rfl
    exact Armor.newline_not_mem_encode f.blob newline hc (by decide)
  · rw [commentBytes] at hc
    cases hcomment : f.comment with
    | none => rw [hcomment] at hc; cases hc
    | some comment =>
      rw [hcomment] at hc
      obtain hc | hc := List.mem_append.mp hc
      · exact hblank (comment.blank.2 c hc)
      · rintro rfl
        exact comment.line.1 hc

theorem line_eq (f : KeyFile) : (f.type ++ f.separator ++ Base64.encode f.blob ++ f.commentBytes ++ f.ending.bytes).takeWhile
    (· ≠ newline) = f.line := by
  rw [List.takeWhile_append_of_pos (by simpa using f.newline_notMem_line), line, tail]
  simp only [List.append_assoc]

-- What is checked of the line.
theorem parse (f : KeyFile) : parsePublicKey f.bytes = (f.line.idxOf? 32).bind fun space =>
    let keytype := f.line.take space
    let rest := (f.line.drop space).dropWhile isBlank
    let chunk := rest.takeWhile (· ≠ 32)
    if chunk.length % 4 ≠ 0 then none
    else
      let decoded := Base64.decode chunk
      if decoded = [] then none
      else if keytype.length + 4 < decoded.length ∧
          (decodeUint32 decoded).toNat = keytype.length ∧ (decoded.drop 4).take keytype.length = keytype then
        some (decoded, cstr ((rest.dropWhile (· ≠ 32)).dropWhile isBlank))
      else none := by
  obtain ⟨c, type, htype⟩ := List.exists_cons_of_ne_nil f.word.1
  have hspace : ¬asciiIsspace c := f.word.2 c (by rw [htype]; exact List.mem_cons_self)
  have hcomment : c ≠ 35 := fun hc => f.noComment (by rw [htype, hc]; rfl)
  have hline : keyLine f.bytes =
      some (f.type ++ f.separator ++ Base64.encode f.blob ++ f.commentBytes ++ f.ending.bytes) := by
    rw [bytes, htype]
    exact keyLine_skipped f.lines hspace hcomment _
  rw [parsePublicKey, hline, Option.bind_some, line_eq]

theorem space_notMem_type (f : KeyFile) : 32 ∉ f.type :=
  fun h => f.word.2 32 h (by decide)

theorem encode_plain (f : KeyFile) : ∀ c ∈ Base64.encode f.blob, c ≠ 32 ∧ ¬isBlank c := by
  have hspace : ∀ {c}, isBlank c → isspace c := by
    intro c hc
    obtain rfl | rfl : c = 32 ∨ c = 9 := by simpa [isBlank] using hc
    all_goals decide
  intro c hc
  have hne := Armor.newline_not_mem_encode f.blob c hc
  exact ⟨fun h => hne (hspace (by rw [h]; rfl)), fun h => hne (hspace h)⟩

theorem encode_ne_nil (f : KeyFile) : Base64.encode f.blob ≠ [] := by
  intro h
  have hlength := Base64.length_encode f.blob
  rw [h, length_blob, List.length_nil] at hlength
  omega

-- The type ends with the first space, and the key starts where the text does.
theorem parse_space (f : KeyFile) (hspace : f.separator.head? = some 32) : parsePublicKey f.bytes =
    let chunk := Base64.encode f.blob ++ f.tail.takeWhile (· ≠ 32)
    if chunk.length % 4 ≠ 0 then none
    else
      let decoded := Base64.decode chunk
      if decoded = [] then none
      else if f.type.length + 4 < decoded.length ∧
          (decodeUint32 decoded).toNat = f.type.length ∧ (decoded.drop 4).take f.type.length = f.type then
        some (decoded, cstr ((f.tail.dropWhile (· ≠ 32)).dropWhile isBlank))
      else none := by
  obtain ⟨separator, hseparator⟩ : ∃ separator, f.separator = 32 :: separator := List.head?_eq_some_iff.mp hspace
  have hindex : f.line.idxOf? 32 = some f.type.length := by
    rw [line, hseparator]
    exact idxOf?_append_cons f.space_notMem_type
  have htake : f.line.take f.type.length = f.type := List.take_left
  have hrest : (f.line.drop f.type.length).dropWhile isBlank = Base64.encode f.blob ++ f.tail := by
    have hdrop : f.line.drop f.type.length = f.separator ++ (Base64.encode f.blob ++ f.tail) := List.drop_left
    rw [hdrop, List.dropWhile_append_of_pos f.blank.2]
    obtain ⟨c, rest, hencode⟩ := List.exists_cons_of_ne_nil f.encode_ne_nil
    have hc : ¬isBlank c := (f.encode_plain c (by rw [hencode]; exact List.mem_cons_self)).2
    rw [hencode, List.cons_append, List.dropWhile_cons_of_neg hc]
  have hencode : ∀ c ∈ Base64.encode f.blob, (decide (c ≠ 32)) = true := fun c hc => by simpa using (f.encode_plain c hc).1
  rw [parse, hindex, Option.bind_some]
  dsimp only
  rw [htake, hrest, List.takeWhile_append_of_pos hencode, List.dropWhile_append_of_pos hencode]

-- A key whose type ends with a tab is not found.
theorem space_of_parse (f : KeyFile) {comment : Bytes} (h : parsePublicKey f.bytes = some (f.blob, comment)) :
    f.separator.head? = some 32 := by
  rw [parse, Option.bind_eq_some_iff] at h
  obtain ⟨space, hindex, h⟩ := h
  dsimp only at h
  split at h
  case isTrue  => cases h
  case isFalse =>
    split at h
    case isTrue  => cases h
    case isFalse =>
      split at h
      case isFalse => cases h
      case isTrue hchecks =>
        obtain ⟨hdecoded, -⟩ := Prod.mk.inj (Option.some.inj h)
        have hlength := hchecks.2.1
        obtain ⟨hlt, hbefore⟩ := notMem_take_idxOf? hindex
        rw [hdecoded, decode_blob, List.length_take, Nat.min_eq_left (Nat.le_of_lt hlt)] at hlength
        obtain rfl := hlength
        have hdrop : f.line.drop f.type.length = f.separator ++ (Base64.encode f.blob ++ f.tail) := List.drop_left
        have hsplit := congrArg (List.drop f.type.length) (split_idxOf? hindex)
        rw [hdrop, List.drop_left' (List.length_take_of_le (Nat.le_of_lt hlt))] at hsplit
        obtain ⟨c, separator, hseparator⟩ := List.exists_cons_of_ne_nil f.blank.1
        rw [hseparator, List.cons_append] at hsplit
        rw [hseparator, (List.cons.inj hsplit).1]
        rfl

-- The text starts behind the blanks if there is a space among them.
theorem comment_tail (comment : Comment) (hspace : 32 ∈ comment.separator) (behind : Bytes) :
    (comment.separator ++ (comment.text ++ behind)).takeWhile (· ≠ 32) = comment.separator.takeWhile (· ≠ 32) ∧
      ((comment.separator ++ (comment.text ++ behind)).dropWhile (· ≠ 32)).dropWhile isBlank = comment.text ++ behind := by
  have hne : comment.separator.dropWhile (· ≠ 32) ≠ [] := fun h => by
    simpa using List.dropWhile_eq_nil_iff.mp h 32 hspace
  have hlength : (comment.separator.takeWhile (· ≠ 32)).length ≠ comment.separator.length := by
    have hsplit := congrArg List.length (List.takeWhile_append_dropWhile (p := (· ≠ 32)) (l := comment.separator))
    have hpos := List.length_pos_iff.mpr hne
    rw [List.length_append] at hsplit
    omega
  have hblank : ∀ c ∈ comment.separator.dropWhile (· ≠ 32), isBlank c := fun c hc =>
    comment.blank.2 c ((List.dropWhile_sublist _).subset hc)
  obtain ⟨c, rest, htext, hc⟩ := comment.word
  constructor
  · rw [List.takeWhile_append, if_neg hlength]
  · rw [List.dropWhile_append, if_neg (by simpa using hne), List.dropWhile_append_of_pos hblank, htext, List.cons_append,
      List.dropWhile_cons_of_neg hc]

-- The word that is taken for the end of the key has some of the text otherwise.
theorem comment_short (comment : Comment) (hspace : 32 ∉ comment.separator) (behind : Bytes) :
    ((comment.separator ++ (comment.text ++ behind)).dropWhile (· ≠ 32)).dropWhile isBlank = [] ∨
      (((comment.separator ++ (comment.text ++ behind)).dropWhile (· ≠ 32)).dropWhile isBlank).length + 2 ≤
        comment.text.length + behind.length := by
  have hseparator : ∀ c ∈ comment.separator, (decide (c ≠ 32)) = true := by
    intro c hc
    simpa using fun h : c = 32 => hspace (h ▸ hc)
  obtain ⟨c, rest, htext, hc⟩ := comment.word
  have hne : decide (c ≠ 32) = true := by
    simpa using fun h : c = 32 => hc (by rw [h]; rfl)
  rw [List.dropWhile_append_of_pos hseparator, htext, List.cons_append,
    List.dropWhile_cons_of_pos (p := fun c : UInt8 => decide (c ≠ 32)) hne]
  have hle := (List.dropWhile_sublist (· ≠ 32) (l := rest ++ behind)).length_le
  cases hrest : (rest ++ behind).dropWhile (· ≠ 32) with
  | nil         => exact .inl rfl
  | cons d more =>
    right
    have hd : isBlank d := by
      have hhead := List.head?_dropWhile_not (fun c : UInt8 => decide (c ≠ 32)) (rest ++ behind)
      rw [hrest] at hhead
      obtain rfl : d = 32 := by simpa using hhead
      rfl
    have hle' := (List.dropWhile_sublist isBlank (l := more)).length_le
    rw [List.dropWhile_cons_of_pos hd]
    rw [hrest, List.length_cons, List.length_append] at hle
    rw [List.length_cons]
    omega

-- What is behind the text in its line.
def carriage (f : KeyFile) : Bytes :=
  f.ending.bytes.takeWhile (· ≠ newline)

theorem carriage_cases (f : KeyFile) :
    (∀ rest, f.ending ≠ .crlf rest) ∧ f.carriage = [] ∨ (∃ rest, f.ending = .crlf rest) ∧ f.carriage = [13] := by
  rw [carriage]
  cases f.ending with
  | eof       => exact .inl ⟨fun _ h => (by cases h), rfl⟩
  | lf rest   => exact .inl ⟨fun _ h => (by cases h), rfl⟩
  | crlf rest => exact .inr ⟨⟨rest, rfl⟩, rfl⟩

theorem tail_none (f : KeyFile) (h : f.comment = none) : f.tail = f.carriage := by
  rw [tail, commentBytes, h]
  rfl

theorem tail_some (f : KeyFile) {comment : Comment} (h : f.comment = some comment) :
    f.tail = comment.separator ++ (comment.text ++ f.carriage) := by
  rw [tail, commentBytes, h, ← List.append_assoc]
  rfl

-- What is behind the key is right if and only if it is plain.
theorem tail_iff (f : KeyFile) :
    4 ∣ (f.tail.takeWhile (· ≠ 32)).length ∧ cstr ((f.tail.dropWhile (· ≠ 32)).dropWhile isBlank) = f.text ↔
      (∀ comment ∈ f.comment, 32 ∈ comment.separator ∧ 4 ∣ (comment.separator.takeWhile (· ≠ 32)).length) ∧
        (∀ rest, f.ending ≠ .crlf rest) ∧ 0 ∉ f.text := by
  cases hcomment : f.comment with
  | none =>
    have htext : f.text = [] := by rw [text, hcomment]; rfl
    rw [f.tail_none hcomment, htext]
    obtain ⟨hending, hcarriage⟩ | ⟨⟨rest, hending⟩, hcarriage⟩ := f.carriage_cases
    · rw [hcarriage]
      exact iff_of_true ⟨by simp, rfl⟩ ⟨by simp, hending, List.not_mem_nil⟩
    · rw [hcarriage]
      exact iff_of_false (fun h => by simpa using h.1) fun h => h.2.1 rest hending
  | some comment =>
    have htext : f.text = comment.text := by rw [text, hcomment]; rfl
    have hall : (∀ c ∈ some comment, 32 ∈ c.separator ∧ 4 ∣ (c.separator.takeWhile (· ≠ 32)).length) ↔
        32 ∈ comment.separator ∧ 4 ∣ (comment.separator.takeWhile (· ≠ 32)).length := by simp
    rw [f.tail_some hcomment, htext, hall]
    by_cases hspace : 32 ∈ comment.separator
    case neg =>
      refine iff_of_false (fun h => ?_) fun h => hspace h.1.1
      obtain ⟨c, rest, hword, -⟩ := comment.word
      have hle : (cstr (((comment.separator ++ (comment.text ++ f.carriage)).dropWhile (· ≠ 32)).dropWhile isBlank)).length ≤ _ :=
        (List.takeWhile_sublist _).length_le
      rw [h.2] at hle
      have hcarriage : f.carriage.length ≤ 1 := by
        obtain ⟨-, hcarriage⟩ | ⟨-, hcarriage⟩ := f.carriage_cases
        all_goals
          rw [hcarriage]
          decide
      obtain hnil | hshort := comment_short comment hspace f.carriage
      · rw [hnil, hword] at hle
        cases hle
      · omega
    case pos =>
      obtain ⟨htake, hdrop⟩ := comment_tail comment hspace f.carriage
      rw [htake, hdrop]
      obtain ⟨hending, hcarriage⟩ | ⟨⟨rest, hending⟩, hcarriage⟩ := f.carriage_cases
      · rw [hcarriage, List.append_nil]
        refine ⟨fun h => ⟨⟨hspace, h.1⟩, hending, ?_⟩, fun h => ⟨h.1.2, cstr_eq h.2.2⟩⟩
        rw [← h.2]
        exact nul_notMem_cstr _
      · rw [hcarriage]
        refine iff_of_false (fun h => ?_) fun h => h.2.1 rest hending
        have hnul : 0 ∉ comment.text ++ [13] := by
          have hnul : 0 ∉ comment.text := by
            rw [← h.2]
            exact nul_notMem_cstr _
          simpa using hnul
        have heq := h.2
        rw [cstr_eq hnul] at heq
        simpa using congrArg List.length heq

-- The blanks in front of a space do not count as characters of the key.
theorem decode_chunk (f : KeyFile) (h : f.Plain) : Base64.decode (Base64.encode f.blob ++ f.tail.takeWhile (· ≠ 32)) = f.blob := by
  have hblank : ∀ c ∈ f.tail.takeWhile (· ≠ 32), ¬(Base64.rank c).isSome := by
    have hcarriage : f.carriage = [] := by
      obtain ⟨-, hcarriage⟩ | ⟨⟨rest, hending⟩, -⟩ := f.carriage_cases
      · exact hcarriage
      · exact absurd hending (h.ending rest)
    cases hcomment : f.comment with
    | none =>
      rw [f.tail_none hcomment, hcarriage]
      exact fun c hc => absurd hc (by simp)
    | some comment =>
      rw [f.tail_some hcomment, (comment_tail comment (h.comment comment hcomment).1 _).1]
      intro c hc hrank
      have hc := comment.blank.2 c ((List.takeWhile_sublist _).subset hc)
      have hlt := Base64.lt_of_isSome_rank hrank
      obtain rfl | rfl : c = 32 ∨ c = 9 := by simpa [isBlank] using hc
      all_goals revert hlt; decide
  have hnone : (f.tail.takeWhile (· ≠ 32)).filter (fun c => (Base64.rank c).isSome) = [] := List.filter_eq_nil_iff.mpr hblank
  have hcongr : Base64.decode (Base64.encode f.blob ++ f.tail.takeWhile (· ≠ 32)) = Base64.decode (Base64.encode f.blob) :=
    Base64.decode_congr (by rw [List.filter_append, hnone, List.append_nil])
  exact hcongr.trans (Base64.decodeFrom_encode 0 0 f.blob)

theorem parse_iff (f : KeyFile) : parsePublicKey f.bytes = some (f.blob, f.text) ↔ f.Plain := by
  have hlength : (Base64.encode f.blob).length % 4 = 0 := by rw [Base64.length_encode, Nat.mul_mod_right]
  constructor
  · intro h
    have hspace := f.space_of_parse h
    rw [f.parse_space hspace] at h
    dsimp only at h
    split at h
    case isTrue  => cases h
    case isFalse hchunk =>
      split at h
      case isTrue  => cases h
      case isFalse =>
        split at h
        case isFalse => cases h
        case isTrue hchecks =>
          obtain ⟨hdecoded, htext⟩ := Prod.mk.inj (Option.some.inj h)
          have hmore := hchecks.1
          rw [hdecoded, length_blob] at hmore
          rw [not_not, List.length_append] at hchunk
          obtain ⟨hcomment, hending, hnul⟩ := f.tail_iff.mp ⟨by omega, htext⟩
          exact ⟨hspace, hcomment, hending, List.length_pos_iff.mp (by omega), hnul⟩
  · intro h
    obtain ⟨hchunk, htext⟩ := f.tail_iff.mpr ⟨h.comment, h.ending, h.nul⟩
    have hmore := List.length_pos_iff.mpr h.more
    have hne : f.blob ≠ [] := List.length_pos_iff.mp (by rw [length_blob]; omega)
    rw [f.parse_space h.type]
    dsimp only
    rw [f.decode_chunk h, if_neg (by rw [List.length_append]; omega), if_neg hne, htext,
      if_pos ⟨by rw [length_blob]; omega, f.decode_blob, f.type_of_blob⟩]

theorem not_skipped (f : KeyFile) : ¬Skipped f.bytes := by
  obtain ⟨c, type, htype⟩ := List.exists_cons_of_ne_nil f.word.1
  have hspace : ¬asciiIsspace c := f.word.2 c (by rw [htype]; exact List.mem_cons_self)
  have hcomment : c ≠ 35 := fun hc => f.noComment (by rw [htype, hc]; rfl)
  rw [bytes, htype]
  exact not_skipped_line_behind f.lines hspace hcomment _

end KeyFile

theorem parsePublicKeyInside_of_not_skipped (h : ¬Skipped data) : parsePublicKeyInside data = some (parsePublicKey data) := by
  obtain ⟨hskipped, -⟩ | ⟨-, hsome⟩ := keyLineInside_eq data
  · exact absurd hskipped h
  · obtain ⟨line, hline⟩ := Option.isSome_iff_exists.mp hsome
    rw [parsePublicKeyInside, hline, Option.map_some]

-- The data that nothing is read behind, and the files whose key and comment are found.
theorem parsePublicKey_iff (data : Bytes) (f : KeyFile) :
    ((parsePublicKeyInside data).isSome ↔ ¬Skipped data) ∧
      (parsePublicKeyInside f.bytes = some (some (f.blob, f.text)) ↔ f.Plain) := by
  refine ⟨parsePublicKeyInside_isSome_iff data, ?_⟩
  rw [parsePublicKeyInside_of_not_skipped f.not_skipped, Option.some_inj, f.parse_iff]

-- A file with a key that is five bytes behind the length of its type.
def shortFile (blank : UInt8) (hblank : isBlank blank) (ending : Ending) : KeyFile where
  skipped   := []
  type      := [107]
  separator := [blank]
  more      := [0]
  comment   := none
  ending    := ending
  lines     := .nil
  word      := by decide +kernel
  noComment := by decide
  short     := by decide
  blank     := ⟨List.cons_ne_nil _ _, List.forall_mem_singleton.mpr hblank⟩

-- A byte behind a blank line is read, and neither a tab nor a carriage return behind a word is seen.
theorem not_parsePublicKey : parsePublicKeyInside [newline] = none ∧
    parsePublicKeyInside (shortFile 9 rfl .eof).bytes ≠ some (some ((shortFile 9 rfl .eof).blob, [])) ∧
    parsePublicKeyInside (shortFile 32 rfl (.crlf [])).bytes ≠ some (some ((shortFile 32 rfl (.crlf [])).blob, [])) := by
  refine ⟨?_, ?_, ?_⟩
  · rw [parsePublicKeyInside, (keyLine_of_nil (by decide)).2]
    rfl
  · rw [parsePublicKeyInside_of_not_skipped (KeyFile.not_skipped _)]
    intro h
    have hspace := (shortFile 9 rfl .eof).space_of_parse (Option.some.inj h)
    cases hspace
  · rw [parsePublicKeyInside_of_not_skipped (KeyFile.not_skipped _)]
    intro h
    have hplain := (shortFile 32 rfl (.crlf [])).parse_iff.mp (Option.some.inj h)
    exact hplain.ending [] rfl

end SshAgent
