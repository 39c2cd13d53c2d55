import GcrModel.Egg.Dn.Theorems.Pairs

-- What is shown of a name, against the pairs that it has.
namespace Dn

open GLib Asn1x

variable {now i j : Nat} {data : GBytes} {tlv : Atlv} {dn node : GNode} {r : ValueReader} {steps : List Step}
variable {rows : List (List Pair)} {row : List Pair} {p : Pair} {wanted : CString} {result shown : Bytes}

-- What a type is called where a name is printed. It is `NULL` for a printable type without a short name.
def label (oid : Bytes) : Option Bytes :=
  if (eggOidGetFlags oid).contains .printable then eggOidGetName oid else some oid

def display (r : ValueReader) (p : Pair) : Bytes :=
  dnPrintOidValue r p.oid (eggOidGetFlags p.oid) (valueNode p.value)

def pairText (r : ValueReader) (p : Pair) : Bytes :=
  (label p.oid).getD p.oid ++ 61 :: display r p

def rowText (r : ValueReader) (row : List Pair) : Bytes :=
  (ascii "+".toList).intercalate (row.map (pairText r))

-- All pairs in their order.
def text (r : ValueReader) (rows : List (List Pair)) : Bytes :=
  (ascii ", ".toList).intercalate (rows.map (rowText r))

-- The pairs with the number of their RDN, in their order.
def calls (i : Nat) : List (List Pair) → List Call
  | []          => []
  | row :: rows => row.map (fun p => ⟨i, p.oid, valueNode p.value⟩) ++ calls (i + 1) rows

-- Whether strings are equal but for the case of letters.
def sameName (s t : Bytes) : Bool :=
  s.map asciiTolower = t.map asciiTolower

-- Whether the object identifier or the short name of a pair is the one that is asked for.
def Pair.isPart (wanted : CString) (p : Pair) : Bool :=
  sameName p.oid wanted.bytes || (eggOidGetName p.oid).any (sameName · wanted.bytes)

def readStep (r : ValueReader) (i j : Nat) (p : Pair) (result : Bytes) : Except Unit Bytes :=
  match label p.oid with
  | none      => .error ()
  | some name =>
    let separator := if 1 < j then ascii "+".toList else if 1 < i then ascii ", ".toList else []
    .ok (result ++ separator ++ (name ++ 61 :: display r p))

-- A part whose name is `NULL` is taken for the one that is asked for.
def partStep (wanted : CString) (_ _ : Nat) (p : Pair) (_ : Unit) : Except (Option (Bytes × GNode)) Unit :=
  if p.isPart wanted || (eggOidGetName p.oid).isNone then .error (some (p.oid, valueNode p.value)) else .ok ()

def parseStep (i _ : Nat) (p : Pair) (calls : List Call) : Except (List Call) (List Call) :=
  .ok (calls ++ [⟨i, p.oid, valueNode p.value⟩])

theorem dnParseRdn_pair (h : IsPair p node) :
    dnParseRdn r node = some ((label p.oid).map (· ++ 61 :: display r p)) := by
  obtain ⟨t, ht, hoid⟩ := h.type
  simp only [dnParseRdn, ht, hoid, h.value, Option.bind_eq_bind, Option.bind_some]
  rfl

theorem visits_read (h : HasPairs rows dn) : Visits (readTurn r dn) (readStep r) 1 rows := by
  intro m _ k _ result
  rw [Nat.add_comm 1 m, Nat.add_comm 1 k, readTurn]
  cases hp : (rows.getD m [])[k]? with
  | none => rw [h.nodeAt_none hp]; rfl
  | some p =>
    obtain ⟨pair, hpair, hnode⟩ := h.nodeAt_some hp
    rw [hnode, nodeAt_nil, Option.bind_eq_bind, Option.bind_some]
    dsimp only
    rw [dnParseRdn_pair hpair, turn, readStep]
    cases label p.oid with
    | none      => rfl
    | some name => rfl

theorem strcasecmp_eq_zero {s : Bytes} (hs : 0 ∉ s) : asciiStrcasecmp (some s) wanted.bytes = 0 ↔ sameName s wanted.bytes := by
  rw [asciiStrcasecmp, compareTolower_eq_zero hs wanted.nul, sameName, decide_eq_true_eq]

-- The comparisons of the code.
theorem isPart_iff (hoid : 0 ∉ p.oid) :
    (asciiStrcasecmp (some p.oid) wanted.bytes ≠ 0 ∧ asciiStrcasecmp (eggOidGetName p.oid) wanted.bytes ≠ 0) ↔
      ¬(p.isPart wanted || (eggOidGetName p.oid).isNone) := by
  rw [← not_or, strcasecmp_eq_zero hoid, Pair.isPart]
  cases hname : eggOidGetName p.oid with
  | none      => simp [asciiStrcasecmp]
  | some name => simp [strcasecmp_eq_zero (nul_notMem_name hoid hname)]

theorem visits_part (h : HasPairs rows dn) : Visits (partTurn dn wanted.bytes) (partStep wanted) 1 rows := by
  intro m _ k _ _
  rw [Nat.add_comm 1 m, Nat.add_comm 1 k, partTurn]
  cases hp : (rows.getD m [])[k]? with
  | none => rw [h.nodeAt_none hp]; rfl
  | some p =>
    obtain ⟨pair, hpair, hnode⟩ := h.nodeAt_some hp
    obtain ⟨t, ht, hoid⟩ := hpair.type
    simp only [hnode, ht, hoid, hpair.value, Option.bind_eq_bind, Option.bind_some, isPart_iff (nul_notMem_oid hoid), turn,
      partStep]
    cases p.isPart wanted || (eggOidGetName p.oid).isNone with
    | true  => rfl
    | false => rfl

theorem visits_parse (h : HasPairs rows dn) (hlen : rows.length + 1 < 2 ^ 31) (hrows : ∀ row ∈ rows, row.length + 1 < 2 ^ 31) :
    Visits (parseTurn dn) parseStep 1 rows := by
  intro m hm k hk calls
  have hk' : k + 1 < 2 ^ 31 := by
    cases hrow : rows[m]? with
    | none =>
      rw [List.getD_eq_getElem?_getD, hrow] at hk
      exact Nat.lt_of_le_of_lt (Nat.succ_le_succ hk) (by decide)
    | some row =>
      rw [List.getD_eq_getElem?_getD, hrow] at hk
      exact Nat.lt_of_le_of_lt (Nat.succ_le_succ hk) (hrows row (List.mem_of_getElem? hrow))
  rw [Nat.add_comm 1 m, Nat.add_comm 1 k, parseTurn, toGint_of_lt (by omega), toGint_of_lt hk']
  cases hp : (rows.getD m [])[k]? with
  | none => rw [h.nodeAt_none hp]; rfl
  | some p =>
    obtain ⟨pair, hpair, hnode⟩ := h.nodeAt_some hp
    obtain ⟨t, ht, hoid⟩ := hpair.type
    simp only [hnode, ht, hoid, hpair.value, Option.bind_eq_bind, Option.bind_some, turn, parseStep]

-- The parts of a text, each with a separator in front of it but for the first one.
theorem intercalate_cons_eq {α : Type} (separator part : List α) (parts : List (List α)) :
    separator.intercalate (part :: parts) = part ++ parts.flatMap (separator ++ ·) := by
  induction parts generalizing part with
  | nil               => simp
  | cons other parts ih => rw [List.intercalate_cons_cons, ih, List.flatMap_cons]; simp

-- The pairs behind the first one of an RDN.
theorem runRow_read_tail (hlabels : ∀ p ∈ row, (label p.oid).isSome) (hj : 1 < j) :
    runRow (readStep r) i j row result = .ok (result ++ (row.map (pairText r)).flatMap (ascii "+".toList ++ ·)) := by
  induction row generalizing j result with
  | nil => simp [runRow]
  | cons p row ih =>
    obtain ⟨hp, hrow⟩ := List.forall_mem_cons.mp hlabels
    obtain ⟨name, hname⟩ := Option.isSome_iff_exists.mp hp
    rw [runRow, readStep, hname]
    dsimp only
    rw [if_pos hj, Except.bind, ih hrow (Nat.lt_succ_of_lt hj), List.map_cons, List.flatMap_cons, pairText, hname]
    simp

theorem runRow_read (hlabels : ∀ p ∈ row, (label p.oid).isSome) (hne : row ≠ []) :
    runRow (readStep r) i 1 row result =
      .ok (result ++ (if 1 < i then ascii ", ".toList else []) ++ rowText r row) := by
  obtain ⟨p, row, rfl⟩ := List.exists_cons_of_ne_nil hne
  obtain ⟨hp, hrow⟩ := List.forall_mem_cons.mp hlabels
  obtain ⟨name, hname⟩ := Option.isSome_iff_exists.mp hp
  rw [runRow, readStep, hname]
  dsimp only
  rw [if_neg (Nat.lt_irrefl 1), Except.bind, runRow_read_tail hrow (by decide), rowText, List.map_cons, intercalate_cons_eq,
    pairText, hname]
  simp

theorem runRows_read_tail (hlabels : ∀ row ∈ rows, ∀ p ∈ row, (label p.oid).isSome) (hne : ∀ row ∈ rows, row ≠ [])
    (hi : 1 < i) :
    runRows (readStep r) i rows result = .ok (result ++ (rows.map (rowText r)).flatMap (ascii ", ".toList ++ ·)) := by
  induction rows generalizing i result with
  | nil => simp [runRows]
  | cons row rows ih =>
    obtain ⟨hrow, hrows⟩ := List.forall_mem_cons.mp hlabels
    obtain ⟨hfirst, hrest⟩ := List.forall_mem_cons.mp hne
    rw [runRows, runRow_read hrow hfirst, if_pos hi, Except.bind, ih hrows hrest (Nat.lt_succ_of_lt hi), List.map_cons,
      List.flatMap_cons]
    simp

-- The text that is put together.
theorem runRows_read (hlabels : ∀ row ∈ rows, ∀ p ∈ row, (label p.oid).isSome) (hne : ∀ row ∈ rows, row ≠ []) :
    runRows (readStep r) 1 rows [] = .ok (text r rows) := by
  cases rows with
  | nil            => rfl
  | cons row rows =>
    obtain ⟨hrow, hrows⟩ := List.forall_mem_cons.mp hlabels
    obtain ⟨hfirst, hrest⟩ := List.forall_mem_cons.mp hne
    rw [runRows, runRow_read hrow hfirst, if_neg (Nat.lt_irrefl 1), Except.bind, runRows_read_tail hrows hrest (by decide),
      text, List.map_cons, intercalate_cons_eq]
    simp

theorem labels_of_runRow (h : runRow (readStep r) i j row result = .ok shown) : ∀ p ∈ row, (label p.oid).isSome := by
  induction row generalizing j result with
  | nil => simp
  | cons p row ih =>
    rw [runRow, readStep] at h
    cases hname : label p.oid with
    | none =>
      rw [hname] at h
      cases h
    | some name =>
      rw [hname] at h
      exact List.forall_mem_cons.mpr ⟨by rw [hname]; rfl, ih h⟩

-- Where there is a text, each pair has a label.
theorem labels_of_runRows (h : runRows (readStep r) i rows result = .ok shown) :
    ∀ row ∈ rows, ∀ p ∈ row, (label p.oid).isSome := by
  induction rows generalizing i result with
  | nil => simp
  | cons row rows ih =>
    rw [runRows] at h
    cases hrow : runRow (readStep r) i 1 row result with
    | error _ =>
      rw [hrow] at h
      cases h
    | ok result =>
      rw [hrow] at h
      exact List.forall_mem_cons.mpr ⟨labels_of_runRow hrow, ih h⟩

theorem runRow_parse (reported : List Call) :
    runRow parseStep i j row reported = .ok (reported ++ row.map fun p => ⟨i, p.oid, valueNode p.value⟩) := by
  induction row generalizing j reported with
  | nil           => simp [runRow]
  | cons p row ih => rw [runRow, parseStep, Except.bind, ih, List.map_cons]; simp

theorem runRows_parse (reported : List Call) : runRows parseStep i rows reported = .ok (reported ++ calls i rows) := by
  induction rows generalizing i reported with
  | nil              => simp [runRows, calls]
  | cons row rows ih => rw [runRows, runRow_parse, Except.bind, ih, calls]; simp

theorem runRow_part (i j : Nat) (row : List Pair) :
    runRow (partStep wanted) i j row () =
      match row.find? fun p => p.isPart wanted || (eggOidGetName p.oid).isNone with
      | none   => .ok ()
      | some p => .error (some (p.oid, valueNode p.value)) := by
  induction row generalizing j with
  | nil => rfl
  | cons p row ih =>
    rw [runRow, partStep, List.find?_cons]
    cases p.isPart wanted || (eggOidGetName p.oid).isNone with
    | true  => rfl
    | false => exact ih (j + 1)

theorem runRows_part (i : Nat) (rows : List (List Pair)) :
    runRows (partStep wanted) i rows () =
      match rows.flatten.find? fun p => p.isPart wanted || (eggOidGetName p.oid).isNone with
      | none   => .ok ()
      | some p => .error (some (p.oid, valueNode p.value)) := by
  induction rows generalizing i with
  | nil => rfl
  | cons row rows ih =>
    rw [runRows, runRow_part, List.flatten_cons, List.find?_append]
    cases row.find? fun p => p.isPart wanted || (eggOidGetName p.oid).isNone with
    | none   => exact ih (i + 1)
    | some p => rfl

end Dn

-- When all parts of a name are shown.
namespace Dn

open GLib Asn1x

variable {now : Nat} {data : GBytes} {tlv : Atlv} {dn node : GNode} {r : ValueReader} {wanted : CString}
variable {rows : List (List Pair)} {row : List Pair} {p : Pair}

-- Each pair is shown once, in the order of the name, and the first one that is asked for is found.
structure Shown (r : ValueReader) (dn : GNode) (rows : List (List Pair)) (wanted : CString) : Prop where
  read  : eggDnRead r dn = some (if text r rows = [] then none else some (text r rows))
  parse : eggDnParse dn = some (true, calls 1 rows)
  found : dnFindPart dn wanted = some ((rows.flatten.find? (·.isPart wanted)).map fun p => (p.oid, valueNode p.value))
  part  : eggDnReadPart r dn wanted = some ((rows.flatten.find? (·.isPart wanted)).map (display r))

-- The counters hold the numbers of the nodes, and the types have the short names that are looked at.
structure Showable (rows : List (List Pair)) (wanted : CString) : Prop where
  rdns   : rows.length + 2 ≤ maxGint
  pairs  : ∀ row ∈ rows, row.length < maxGint
  labels : ∀ row ∈ rows, ∀ p ∈ row, (label p.oid).isSome
  names  : ∀ p ∈ rows.flatten.takeWhile (!·.isPart wanted), (eggOidGetName p.oid).isSome

theorem text_ne_nil (hne : ∀ row ∈ rows, row ≠ []) (h : rows ≠ []) : text r rows ≠ [] := by
  obtain ⟨row, rows, rfl⟩ := List.exists_cons_of_ne_nil h
  obtain ⟨p, row, rfl⟩ := List.exists_cons_of_ne_nil (hne row List.mem_cons_self)
  rw [text, List.map_cons, intercalate_cons_eq, rowText, List.map_cons, intercalate_cons_eq, pairText]
  simp

theorem read_of_showable (h : HasPairs rows dn) (hne : ∀ row ∈ rows, row ≠ []) (s : Showable rows wanted) :
    eggDnRead r dn = some (if text r rows = [] then none else some (text r rows)) := by
  rw [eggDnRead, rdnLoop_eq (visits_read h) hne s.rdns s.pairs (by decide), runRows_read s.labels hne]
  rfl

theorem parse_of_showable (h : HasPairs rows dn) (hne : ∀ row ∈ rows, row ≠ []) (s : Showable rows wanted) :
    eggDnParse dn = some (true, calls 1 rows) := by
  have hrdns := s.rdns
  have hpairs := s.pairs
  have hmax : maxGint < maxGuint := by decide
  have hvisits : Visits (parseTurn dn) parseStep 1 rows :=
    visits_parse h (by rw [maxGint] at hrdns; omega) fun row hc => Nat.succ_lt_succ (hpairs row hc)
  rw [eggDnParse, rdnLoop_eq hvisits hne (by omega) (fun row hc => (hpairs row hc).trans hmax) (by decide), runRows_parse]
  have hcount : 1 < 1 + rows.length + 1 := by omega
  simp [Except.map, hcount]

-- The pair that is found may be one whose type has no short name.
theorem findPart_eq (h : HasPairs rows dn) (hne : ∀ row ∈ rows, row ≠ []) (hrdns : rows.length + 2 ≤ maxGint)
    (hpairs : ∀ row ∈ rows, row.length < maxGint) :
    dnFindPart dn wanted =
      some ((rows.flatten.find? fun p => p.isPart wanted || (eggOidGetName p.oid).isNone).map
        fun p => (p.oid, valueNode p.value)) := by
  rw [dnFindPart, rdnLoop_eq (visits_part h) hne hrdns hpairs (by decide), runRows_part]
  cases rows.flatten.find? fun p => p.isPart wanted || (eggOidGetName p.oid).isNone with
  | none   => rfl
  | some p => rfl

theorem pair_injective : Function.Injective fun p : Pair => (p.oid, valueNode p.value) := by
  rintro ⟨oid, value⟩ ⟨oid', value'⟩ h
  obtain ⟨rfl, hnode⟩ := Prod.mk.inj h
  obtain rfl : value = value' := Option.some.inj (congrArg (·.data.parsed) hnode)
  rfl

theorem find?_iff :
    (rows.flatten.find? fun p => p.isPart wanted || (eggOidGetName p.oid).isNone) =
        rows.flatten.find? (·.isPart wanted) ↔
      ∀ p ∈ rows.flatten.takeWhile (!·.isPart wanted), (eggOidGetName p.oid).isSome := by
  rw [Search.find?_or_eq_iff]
  simp

theorem shown_of_showable (h : HasPairs rows dn) (hne : ∀ row ∈ rows, row ≠ []) (s : Showable rows wanted) :
    Shown r dn rows wanted := by
  have hfound : dnFindPart dn wanted = _ := findPart_eq h hne s.rdns s.pairs
  rw [find?_iff.mpr s.names] at hfound
  refine ⟨read_of_showable h hne s, parse_of_showable h hne s, hfound, ?_⟩
  rw [eggDnReadPart, hfound, Option.map_some, Option.map_map]
  rfl

-- Where a name is read, the loop got to its end.
theorem loop_of_read (h : rows ≠ []) (hne : ∀ row ∈ rows, row ≠ [])
    (hread : eggDnRead r dn = some (if text r rows = [] then none else some (text r rows))) :
    ∃ result, rdnLoop (readTurn r dn) maxGint maxGint 1 [] = some (.ok result) := by
  rw [if_neg (text_ne_nil hne h), eggDnRead] at hread
  obtain ⟨result, hloop, hresult⟩ := Option.map_eq_some_iff.mp hread
  cases result with
  | error _   => cases hresult
  | ok result => exact ⟨result, hloop⟩

theorem showable_of_shown (h : HasPairs rows dn) (hne : ∀ row ∈ rows, row ≠ []) (s : Shown r dn rows wanted) :
    Showable rows wanted := by
  by_cases hempty : rows = []
  case pos =>
    subst hempty
    exact ⟨by decide, by simp, by simp, by simp⟩
  case neg =>
    obtain ⟨result, hloop⟩ := loop_of_read hempty hne s.read
    obtain ⟨hrdns, hpairs⟩ := rdnLoop_length (visits_read h) hne hloop
    have hrun := rdnLoop_eq (visits_read h) hne hrdns hpairs (by decide) |>.symm.trans hloop
    refine ⟨hrdns, hpairs, ?_, ?_⟩
    case refine_1 =>
      cases hok : runRows (readStep r) 1 rows [] with
      | error _ =>
        rw [hok] at hrun
        cases hrun
      | ok shown => exact labels_of_runRows hok
    case refine_2 =>
      have hfound := (findPart_eq h hne hrdns hpairs).symm.trans s.found
      exact find?_iff.mp (Option.map_injective pair_injective (Option.some.inj hfound))

-- All parts of a name are shown if and only if its types have the short names that are looked at.
theorem parts_shown_iff (r : ValueReader) (now : Nat) (type : NameType) (data : GBytes) (dn : GNode) (wanted : CString)
    (h : decodeName now type data = some (some dn)) :
    ∃ tlv rows, atlvParseDer data = some (.ok tlv) ∧ pairsOf tlv = some rows ∧ (∀ row ∈ rows, row ≠ []) ∧
      (Shown r dn rows wanted ↔ Showable rows wanted) := by
  obtain ⟨tlv, hdecoded⟩ := decodeName_spec h
  obtain ⟨rows, hrows, hne, hpairs⟩ := hdecoded.hasPairs
  exact ⟨tlv, rows, hdecoded.parsed, hrows, hne, showable_of_shown hpairs hne, shown_of_showable hpairs hne⟩

-- The challenge password `x` in front of the common name `A`.
def exampleData : GBytes :=
  ⟨[0x30, 0x1E,
    0x31, 0x10, 0x30, 0x0E, 0x06, 0x09, 0x2A, 0x86, 0x48, 0x86, 0xF7, 0x0D, 0x01, 0x09, 0x07, 0x0C, 0x01, 0x78,
    0x31, 0x0A, 0x30, 0x08, 0x06, 0x03, 0x55, 0x04, 0x03, 0x13, 0x01, 0x41], []⟩

def examplePrimitive (tag : Nat) (value behind : Bytes) : Atlv where
  cls   := 0
  tag   := tag
  off   := 2
  len   := value.length
  value := some ⟨value, behind⟩

def exampleStructured (tag len : Nat) (child : List Atlv) : Atlv where
  cls   := 0x20
  tag   := tag
  off   := 2
  len   := len
  child := child

def exampleTlv : Atlv :=
  exampleStructured 16 30 [
    exampleStructured 17 16 [exampleStructured 16 14 [
      examplePrimitive 6 [0x2A, 0x86, 0x48, 0x86, 0xF7, 0x0D, 0x01, 0x09, 0x07] (exampleData.data.drop 17),
      examplePrimitive 12 [0x78] (exampleData.data.drop 20)]],
    exampleStructured 17 10 [exampleStructured 16 8 [
      examplePrimitive 6 [0x55, 0x04, 0x03] (exampleData.data.drop 29),
      examplePrimitive 19 [0x41] []]]]

def exampleRdn (tlv : Atlv) : GNode :=
  .mk { rdnAnode with parsed := some tlv } (tlv.child.map attributeNode)

def exampleDn : GNode :=
  .mk { adef := rdnSequenceDef, parsed := some exampleTlv } (exampleTlv.child.map exampleRdn)

theorem decodeAnything_exampleTlv :
    anodeDecodeAnything [NameType.rdnSequence.template] [exampleTlv] = some (true, [exampleDn]) := by
  simp [NameType.template, NameType.anode, rdnSequenceDef, rdnTemplate, rdnAnode, attributeTemplate, attributeAnode,
    typeAnode, valueAnode, anodeDecodeAnything, anodeCalcTag, anodeCalcTagForFlags, anodeDefFlags, Anode.flags,
    anodeDefType, Anode.type, EggAsn1xType.universalTag, exampleTlv, exampleStructured, examplePrimitive,
    anodeDecodeOneWithoutTag, anodeCalcExplicitForFlags, anodeDecodeStructured, anodeDecodeSequenceOrSetOf,
    anodeDecodeOne, anodeDecodeSequenceOrSet, tagsAscend, classStructured, anodeDecodePrimitive, decodeElements,
    markParsed, anodeSetValue, anodeClone, anodeCloneAll, GNode.modify, GNode.setChildren, Anode.clrValue, Anode.copy,
    exampleDn, exampleRdn, attributeNode, typeNode, valueNode, maxUlong, exampleData]

theorem parse_exampleData : atlvParseDer exampleData = some (.ok exampleTlv) :=
  rfl

theorem decode_exampleData : eggAsn1xDecode 126 NameType.rdnSequence.template exampleData = some (true, exampleDn) := by
  rw [eggAsn1xDecode, eggAsn1xDecodeFull, clear_template, parse_exampleData, Option.bind_eq_bind, Option.bind_some]
  dsimp only
  rw [decodeAnything_exampleTlv]
  rfl

theorem decodeName_exampleData : decodeName 126 .rdnSequence exampleData = some (some exampleDn) := by
  rw [decodeName, create_name, Option.bind_eq_bind, Option.bind_some, decode_exampleData]
  rfl

def challengePassword : Bytes :=
  ascii "1.2.840.113549.1.9.7".toList

theorem pairsOf_exampleTlv : pairsOf exampleTlv =
    some [[⟨challengePassword, examplePrimitive 12 [0x78] (exampleData.data.drop 20)⟩],
      [⟨ascii "2.5.4.3".toList, examplePrimitive 19 [0x41] []⟩]] :=
  rfl

def exampleReader : ValueReader :=
  ⟨fun _ _ _ => none, fun _ => none⟩

theorem parts_shown_iff_exampleData : ∃ tlv rows, atlvParseDer exampleData = some (.ok tlv) ∧
    pairsOf tlv = some rows ∧ (∀ row ∈ rows, row ≠ []) ∧
      (Shown exampleReader exampleDn rows (identifier "CN") ↔ Showable rows (identifier "CN")) :=
  parts_shown_iff exampleReader 126 .rdnSequence exampleData exampleDn (identifier "CN") decodeName_exampleData

-- The type of a challenge password is printable, and has no short name.
theorem label_challengePassword : label challengePassword = none := by
  decide

theorem not_parts_shown : ¬∀ (r : ValueReader) (now : Nat) (type : NameType) (data : GBytes) (dn : GNode) (wanted : CString),
    decodeName now type data = some (some dn) →
      ∃ tlv rows, atlvParseDer data = some (.ok tlv) ∧ pairsOf tlv = some rows ∧ Shown r dn rows wanted := by
  intro h
  obtain ⟨tlv, rows, htlv, hrows, hshown⟩ :=
    h exampleReader 126 .rdnSequence exampleData exampleDn (identifier "CN") decodeName_exampleData
  obtain ⟨tlv', hdecoded⟩ := decodeName_spec decodeName_exampleData
  obtain ⟨rows', hrows', hne, hpairs⟩ := hdecoded.hasPairs
  cases parse_exampleData.symm.trans htlv
  cases parse_exampleData.symm.trans hdecoded.parsed
  cases pairsOf_exampleTlv.symm.trans hrows
  cases pairsOf_exampleTlv.symm.trans hrows'
  have hlabel := (showable_of_shown hpairs hne hshown).labels _ List.mem_cons_self _ List.mem_cons_self
  rw [label_challengePassword] at hlabel
  cases hlabel

end Dn
