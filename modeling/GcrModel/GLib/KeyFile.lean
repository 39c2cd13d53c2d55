import GcrModel.GLib.Strings

-- GKeyFile. The groups and the keys of a group are in the order in which they are written.
namespace GLib

abbrev KeyFile := List (Bytes × List (Bytes × Bytes))

namespace KeyFile

variable {β : Type*}

def insert (key : Bytes) (value : β) : List (Bytes × β) → List (Bytes × β)
  | []          => [(key, value)]
  | (k, v) :: l => if k = key then (key, value) :: l else (k, v) :: insert key value l

def getValue (file : KeyFile) (group key : Bytes) : Option Bytes :=
  (file.lookup group).bind fun pairs => pairs.lookup key

def hasKey (file : KeyFile) (group key : Bytes) : Bool :=
  (file.getValue group key).isSome

def setValue (file : KeyFile) (group key value : Bytes) : KeyFile :=
  insert group (insert key value ((file.lookup group).getD [])) file

def equals : UInt8 := 61

def bracketOpen : UInt8 := 91

def bracketClose : UInt8 := 93

def pairLine (pair : Bytes × Bytes) : Bytes :=
  pair.1 ++ equals :: pair.2

def groupLine (name : Bytes) : Bytes :=
  bracketOpen :: (name ++ [bracketClose])

-- Groups are separated by an empty line.
def toData (file : KeyFile) : Bytes :=
  file.foldl (fun data group => data ++ (if data = [] then [] else [newline]) ++
    (groupLine group.1 :: group.2.map pairLine).flatMap (· ++ [newline])) []

def iscntrl (c : UInt8) : Bool :=
  c < 32 ∨ c = 127

def isGroupName (name : Bytes) : Bool :=
  name ≠ [] ∧ name.all fun c => c ≠ bracketOpen ∧ c ≠ bracketClose ∧ iscntrl c = false

def asciiIsalnum (c : UInt8) : Bool :=
  48 ≤ c ∧ c ≤ 57 ∨ 65 ≤ c ∧ c ≤ 90 ∨ 97 ≤ c ∧ c ≤ 122

def isContinuation (c : UInt8) : Bool :=
  128 ≤ c ∧ c < 192

-- The name of a locale, as far as `unicharIsalnum` is `g_unichar_isalnum` of the character that bytes begin with.
def isLocale (unicharIsalnum : Bytes → Bool) (locale : Bytes) : Bool :=
  locale.head?.all (!isContinuation ·) && locale.tails.all fun
    | []        => true
    | c :: rest =>
      isContinuation c || asciiIsalnum c || (ascii ['-', '_', '.', '@']).contains c || 128 ≤ c && unicharIsalnum (c :: rest)

-- A key may have a translation: a locale in brackets.
def isTranslation (unicharIsalnum : Bytes → Bool) (rest : Bytes) : Bool :=
  rest.head? = some bracketOpen ∧ rest.getLast? = some bracketClose ∧ isLocale unicharIsalnum (rest.drop 1).dropLast

def isKeyPart (c : UInt8) : Bool :=
  c ≠ equals ∧ c ≠ bracketOpen ∧ c ≠ bracketClose

def isKeyName (unicharIsalnum : Bytes → Bool) (name : Bytes) : Bool :=
  let key := name.takeWhile isKeyPart
  let rest := name.dropWhile isKeyPart
  key ≠ [] ∧ key.head? ≠ some 32 ∧ key.getLast? ≠ some 32 ∧ (rest = [] ∨ isTranslation unicharIsalnum rest)

def encodingKey : Bytes :=
  ascii "Encoding".toList

def utf8Name : Bytes :=
  ascii "utf-8".toList

variable (unicharIsalnum : Bytes → Bool)

-- The file so far and the name of the group that the next keys are for.
structure Parser where
  file  : KeyFile
  group : Option Bytes

def parseGroup (p : Parser) (name : Bytes) : Option Parser :=
  if isGroupName name then
    some ⟨if (p.file.lookup name).isSome then p.file else p.file ++ [(name, [])], some name⟩
  else
    none

-- The first group may say that the encoding is UTF-8, and no other one. Translations are not kept, as nothing asks for one.
def parsePair (p : Parser) (line : Bytes) (i : Nat) : Option Parser :=
  p.group.bind fun group =>
    let key := (line.take i).rdropWhile asciiIsspace
    let value := (line.drop (i + 1)).dropWhile asciiIsspace
    if isKeyName unicharIsalnum key = false then none
    else if p.file.head?.map Prod.fst = some group ∧ key = encodingKey ∧ value.map asciiTolower ≠ utf8Name then none
    else if key.contains bracketOpen then some p
    else some { p with file := p.file.setValue group key value }

-- The end of the name in a line that is one for a group.
def groupEnd (line : Bytes) : Option Nat :=
  if line.head? = some bracketOpen then
    (line.idxOf? bracketClose).filter fun i => (line.drop (i + 1)).all fun c => c = 32 ∨ c = 9
  else
    none

def parseLine (p : Parser) (line : Bytes) : Option Parser :=
  let line := line.dropWhile asciiIsspace
  if line = [] ∨ line.head? = some 35 then some p
  else
    match groupEnd line with
    | some i => parseGroup p ((line.take i).drop 1)
    | none   =>
      match line.idxOf? equals with
      | none       => none
      | some 0     => none
      | some (i+1) => parsePair unicharIsalnum p line (i + 1)

-- A line may end with a carriage return, but the text behind the last line break is as it is.
def lines (data : Bytes) : List Bytes :=
  let lines := data.splitOn newline
  lines.dropLast.map (fun line => if line.getLast? = some 13 then line.dropLast else line) ++ lines.getLast?.toList

def loadFromData (data : Bytes) : Option KeyFile :=
  ((lines data).foldlM (parseLine unicharIsalnum) ⟨[], none⟩).map (·.file)

-- What a name and a value may consist of, so that they are read as they were written.
def Visible (s : Bytes) : Prop :=
  ∀ c ∈ s, 32 < c

def PlainName (name : Bytes) : Prop :=
  name ≠ [] ∧ name ≠ encodingKey ∧ ∀ c ∈ name, 32 < c ∧ c ≠ 35 ∧ c ≠ equals ∧ c ≠ bracketOpen ∧ c ≠ bracketClose ∧ c ≠ 127

variable {unicharIsalnum} {s name key value : Bytes} {c : UInt8} {pairs l : List (Bytes × Bytes)} {p : Parser} {ls : List Bytes}

theorem not_asciiIsspace (h : 32 < c) : asciiIsspace c = false := by
  simp only [asciiIsspace, decide_eq_false_iff_not]
  rintro (rfl | rfl | rfl | rfl | rfl)
  all_goals exact absurd h (by decide)

theorem Visible.dropWhile_eq (h : Visible s) : s.dropWhile asciiIsspace = s := by
  cases s with
  | nil      => rfl
  | cons c s => rw [List.dropWhile_cons_of_neg (by simp [not_asciiIsspace (h c List.mem_cons_self)])]

theorem Visible.rdropWhile_eq (h : Visible s) : s.rdropWhile asciiIsspace = s := by
  rw [List.rdropWhile_eq_self_iff]
  intro hne
  rw [not_asciiIsspace (h _ (List.getLast_mem hne))]
  exact Bool.false_ne_true

theorem Visible.newline_notMem (h : Visible s) : newline ∉ s :=
  fun hmem => absurd (h _ hmem) (by decide)

theorem Visible.append {t : Bytes} (hs : Visible s) (ht : Visible t) : Visible (s ++ t) :=
  fun c hc => (List.mem_append.mp hc).elim (hs c) (ht c)

theorem PlainName.visible (h : PlainName name) : Visible name :=
  fun c hc => (h.2.2 c hc).1

theorem visible_groupLine (h : PlainName name) : Visible (groupLine name) := by
  have hend : Visible [bracketClose] := by simp [Visible, bracketClose]
  intro c hc
  rcases List.mem_cons.mp hc with rfl | hc
  · decide
  · exact h.visible.append hend c hc

theorem visible_pairLine (hk : PlainName key) (hv : Visible value) : Visible (pairLine (key, value)) := by
  apply hk.visible.append
  intro c hc
  rcases List.mem_cons.mp hc with rfl | hc
  · decide
  · exact hv c hc

theorem PlainName.isGroupName (h : PlainName name) : isGroupName name := by
  have hall : ∀ c ∈ name, c ≠ bracketOpen ∧ c ≠ bracketClose ∧ iscntrl c = false := by
    intro c hc
    obtain ⟨hlt, -, -, hopen, hclose, hdel⟩ := h.2.2 c hc
    refine ⟨hopen, hclose, ?_⟩
    simp only [iscntrl, hdel, or_false, decide_eq_false_iff_not]
    exact UInt8.not_lt.mpr (UInt8.le_of_lt hlt)
  simpa [KeyFile.isGroupName, h.1] using hall

theorem PlainName.isKeyName (h : PlainName name) : isKeyName unicharIsalnum name := by
  have hall : ∀ c ∈ name, isKeyPart c = true := by
    intro c hc
    obtain ⟨-, -, hequals, hopen, hclose, -⟩ := h.2.2 c hc
    simp [isKeyPart, hequals, hopen, hclose]
  have hspace : (32 : UInt8) ∉ name := fun hmem => absurd (h.visible _ hmem) (by decide)
  have hhead : name.head? ≠ some 32 := fun he => hspace (List.mem_of_head? he)
  have hlast : name.getLast? ≠ some 32 := fun he => hspace (List.mem_of_getLast? he)
  simp [KeyFile.isKeyName, List.takeWhile_eq_self_iff.mpr hall, List.dropWhile_eq_nil_iff.mpr hall, h.1, hhead, hlast]

-- Only names get a bracket around them.
theorem parseLine_groupLine (h : PlainName name) (p : Parser) :
    parseLine unicharIsalnum p (groupLine name) = parseGroup p name := by
  have hclose : bracketClose ∉ bracketOpen :: name := by
    intro hmem
    rcases List.mem_cons.mp hmem with he | hmem
    · exact absurd he (by decide)
    · exact absurd rfl (h.2.2 _ hmem).2.2.2.2.1
  have hidx : (groupLine name).idxOf? bracketClose = some (name.length + 1) := idxOf?_append_cons hclose
  have hgroup : groupEnd (groupLine name) = some (name.length + 1) := by
    simp only [groupEnd, hidx]
    simp [groupLine]
  have hname : ((groupLine name).take (name.length + 1)).drop 1 = name := by simp [groupLine]
  rw [parseLine, (visible_groupLine h).dropWhile_eq]
  simp only [hgroup, hname]
  exact if_neg (by simp [groupLine, bracketOpen])

theorem parseLine_pairLine (hk : PlainName key) (hv : Visible value) {group : Bytes} (hp : p.group = some group) :
    parseLine unicharIsalnum p (pairLine (key, value)) = some { p with file := p.file.setValue group key value } := by
  obtain ⟨c, k, rfl⟩ := List.exists_cons_of_ne_nil hk.1
  obtain ⟨-, hhash, -, hopen, -⟩ := hk.2.2 c List.mem_cons_self
  have hequals : equals ∉ c :: k := fun hmem => absurd rfl (hk.2.2 _ hmem).2.2.1
  have hbracket : bracketOpen ∉ c :: k := fun hmem => absurd rfl (hk.2.2 _ hmem).2.2.2.1
  have hidx : (pairLine (c :: k, value)).idxOf? equals = some (k.length + 1) := idxOf?_append_cons hequals
  have hgroup : groupEnd (pairLine (c :: k, value)) = none := by
    rw [groupEnd, if_neg]
    simpa [pairLine] using hopen
  have hkey : (pairLine (c :: k, value)).take (k.length + 1) = c :: k := by simp [pairLine]
  have hvalue : (pairLine (c :: k, value)).drop (k.length + 1 + 1) = value := by simp [pairLine]
  rw [parseLine, (visible_pairLine hk hv).dropWhile_eq]
  simp only [hgroup, hidx, parsePair, hp, Option.bind_some, hkey, hvalue, hk.visible.rdropWhile_eq,
    hv.dropWhile_eq, hk.isKeyName, hk.2.1, List.contains_eq_mem, hbracket]
  simp [pairLine, hhash]

theorem insert_append (h : key ∉ l.map Prod.fst) : insert key value l = l ++ [(key, value)] := by
  induction l with
  | nil => rfl
  | cons pair l ih =>
    have hne : pair.1 ≠ key := fun he => h (by simp [he])
    have hl : key ∉ l.map Prod.fst := fun hmem => h (List.mem_cons_of_mem _ hmem)
    rw [insert, if_neg hne, ih hl]
    rfl

-- The keys of a group are read one after the other.
theorem foldlM_pairLine (hpairs : ∀ pair ∈ pairs, PlainName pair.1 ∧ Visible pair.2)
    (hnodup : ((l ++ pairs).map Prod.fst).Nodup) :
    (pairs.map pairLine).foldlM (parseLine unicharIsalnum) ⟨[(name, l)], some name⟩ = some ⟨[(name, l ++ pairs)], some name⟩ := by
  induction pairs generalizing l with
  | nil => simp
  | cons pair pairs ih =>
    obtain ⟨hpair, hrest⟩ := List.forall_mem_cons.mp hpairs
    have hkey : pair.1 ∉ l.map Prod.fst := by
      rw [List.map_append, List.nodup_append] at hnodup
      exact fun hmem => hnodup.2.2 _ hmem _ List.mem_cons_self rfl
    rw [List.map_cons, List.foldlM_cons, parseLine_pairLine hpair.1 hpair.2 rfl]
    have hset : setValue [(name, l)] name pair.1 pair.2 = [(name, l ++ [pair])] := by
      simp [setValue, insert, insert_append hkey]
    rw [hset, Option.bind_eq_bind, Option.bind_some, ih hrest (by simpa using hnodup), List.append_assoc,
      List.singleton_append]

theorem lines_flatMap (h : ∀ l ∈ ls, Visible l) : lines (ls.flatMap (· ++ [newline])) = ls ++ [[]] := by
  have hsplit : (ls.flatMap (· ++ [newline])).splitOn newline = ls ++ [[]] := by
    induction ls with
    | nil => simp
    | cons l ls ih =>
      obtain ⟨hl, hls⟩ := List.forall_mem_cons.mp h
      rw [List.flatMap_cons, List.append_assoc, List.singleton_append,
        List.splitOn_append_cons_self_of_not_mem hl.newline_notMem, ih hls]
      rfl
  have hcr : ls.map (fun line => if line.getLast? = some 13 then line.dropLast else line) = ls := by
    refine (List.map_congr_left fun l hl => if_neg ?_).trans (List.map_id ls)
    intro hlast
    exact absurd (h l hl _ (List.mem_of_getLast? hlast)) (by decide)
  rw [lines, hsplit]
  simp [hcr]

-- A file with one group is read as it was written.
theorem loadFromData_toData (hname : PlainName name) (hpairs : ∀ pair ∈ pairs, PlainName pair.1 ∧ Visible pair.2)
    (hnodup : (pairs.map Prod.fst).Nodup) : loadFromData unicharIsalnum (toData [(name, pairs)]) = some [(name, pairs)] := by
  have hdata : toData [(name, pairs)] = (groupLine name :: pairs.map pairLine).flatMap (· ++ [newline]) := by
    simp [toData]
  have hvisible : ∀ l ∈ groupLine name :: pairs.map pairLine, Visible l := by
    intro l hl
    rcases List.mem_cons.mp hl with rfl | hl
    · exact visible_groupLine hname
    · obtain ⟨pair, hpair, rfl⟩ := List.mem_map.mp hl
      exact visible_pairLine (hpairs pair hpair).1 (hpairs pair hpair).2
  have hgroup : parseGroup ⟨[], none⟩ name = some ⟨[(name, [])], some name⟩ := by
    simp [parseGroup, hname.isGroupName]
  rw [loadFromData, hdata, lines_flatMap hvisible, List.foldlM_append, List.foldlM_cons, parseLine_groupLine hname,
    hgroup, Option.bind_eq_bind, Option.bind_some, foldlM_pairLine hpairs (by simpa using hnodup)]
  rfl

end KeyFile

end GLib
