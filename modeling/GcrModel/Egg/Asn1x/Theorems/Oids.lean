import GcrModel.Egg.Asn1x.Create

-- The loop that looks for an object identifier in a table of definitions.
namespace Asn1x.Oids

open GLib

-- The name of a definition that is an object identifier.
def oidName (adef : List EggAsn1xDef) : Option CString :=
  (adef.head?.filter (·.type = .objectId)).bind (·.name)

-- The values of the constants, where one may be missing.
def constantsOf (odefs : List (List EggAsn1xDef)) : List (Option CString) :=
  odefs.filterMap fun odef =>
    match odef.head? with
    | none   => some none
    | some d => if d.type = .constant then some d.value else none

def constants (adef : List EggAsn1xDef) : List (Option CString) :=
  constantsOf (adefChildren adef)

def dot : Bytes :=
  [46]

-- What numbers and names in an object identifier come to. A name stands for the constants of a definition that has it.
inductive Expands (E : List (List EggAsn1xDef)) : List (Option CString) → List Bytes → Prop
  | nil : Expands E [] []
  | number {c cs parts} (h : c.bytes.all isdigit = true) : Expands E cs parts →
    Expands E (some c :: cs) (c.bytes :: parts)
  | name {adef c cs parts parts'} (h : c.bytes.all isdigit = false) (hmem : adef ∈ E) (hname : oidName adef = some c)
    (hne : parts' ≠ []) : Expands E (constants adef) parts' → Expands E cs parts →
    Expands E (some c :: cs) (dot.intercalate parts' :: parts)

-- The object identifier of a definition.
def Denotes (E : List (List EggAsn1xDef)) (adef : List EggAsn1xDef) (oid : Bytes) : Prop :=
  ∃ parts, parts ≠ [] ∧ Expands E (constants adef) parts ∧ oid = dot.intercalate parts

-- A name does not resolve. What is behind a constant without a value does not matter.
def Blocked (E : List (List EggAsn1xDef)) : List (Option CString) → Prop
  | []           => False
  | none :: _    => False
  | some c :: cs => (¬∃ parts, Expands E [some c] parts) ∨ Blocked E cs

-- No two definitions have the same name.
def Distinct (E : List (List EggAsn1xDef)) : Prop :=
  ∀ adef ∈ E, ∀ adef' ∈ E, ∀ name, oidName adef = some name → oidName adef' = some name → adef = adef'

-- All names resolve, each to the one definition that has it.
structure Resolved (E : List (List EggAsn1xDef)) : Prop where
  distinct : Distinct E
  names    : ∀ adef ∈ E, ∀ name, oidName adef = some name → ¬Blocked E (constants adef)

-- The name of each definition stands for an object identifier, unless nothing in the definition is in the way of that.
def Known (E : List (List EggAsn1xDef)) : Prop :=
  ∀ adef ∈ E, ∀ name, oidName adef = some name →
    (∃ adef' ∈ E, oidName adef' = some name ∧ ∃ s, Denotes E adef' s) ∨ ¬Blocked E (constants adef)

-- A definition with the object identifier, and with another one behind it.
def Found (E : List (List EggAsn1xDef)) (oid : Bytes) : Prop :=
  ∃ adef ∈ E, (∃ name, oidName adef = some name) ∧ Denotes E adef oid ∧ adefNextSibling adef ≠ none

-- The definition behind one that has the object identifier, or `NULL` if there is none.
structure Answers (E : List (List EggAsn1xDef)) (oid : Bytes) (result : Option (List EggAsn1xDef)) : Prop where
  some : ∀ d, result = .some d →
    ∃ adef ∈ E, (∃ name, oidName adef = .some name) ∧ Denotes E adef oid ∧ adefNextSibling adef = .some d
  none : result = .none → ¬Found E oid

-- The loop ends, and with all names resolved it has the right definition.
structure Looks (defs : List EggAsn1xDef) (oid : Bytes) : Prop where
  ends    : Loop.Halts (matchRound defs oid) []
  answers : Resolved (adefChildren defs) → ∀ fuel result, Loop.run (matchRound defs oid) fuel [] = some result →
    Answers (adefChildren defs) oid result

-- What a constant is where these names are known.
def valueOf (names : List (CString × Bytes)) (c : CString) : Option Bytes :=
  if c.bytes.all isdigit then some c.bytes else names.lookup c

def appendPart (acc : Option Bytes) (s : Bytes) : Bytes :=
  (acc.map (· ++ 46 :: s)).getD s

def expand (names : List (CString × Bytes)) (acc : Option Bytes) :
    List (Option CString) → Option (Except CString (Option Bytes))
  | []           => some (.ok acc)
  | none :: _    => none
  | some c :: cs =>
    match valueOf names c with
    | none   => some (.error c)
    | some s => expand names (some (appendPart acc s)) cs

-- What becomes of a pass, one definition after the other.
inductive Visits (oid : Bytes) : List (List EggAsn1xDef) → Pass → Pass → Prop
  | done {pass} : Visits oid [] pass pass
  | unnamed {adef adefs pass pass'} (hname : oidName adef = none) : Visits oid adefs pass pass' →
    Visits oid (adef :: adefs) pass pass'
  | known {adef adefs pass pass' name} (hname : oidName adef = some name)
    (hknown : (pass.names.lookup name).isSome = true) : Visits oid adefs pass pass' → Visits oid (adef :: adefs) pass pass'
  | problem {adef adefs pass pass' name c} (hname : oidName adef = some name) (hnew : pass.names.lookup name = none)
    (hexpand : expand pass.names none (constants adef) = some (.error c)) :
    Visits oid adefs { pass with progress := true, problem := some c } pass' → Visits oid (adef :: adefs) pass pass'
  | nothing {adef adefs pass pass' name} (hname : oidName adef = some name) (hnew : pass.names.lookup name = none)
    (hexpand : expand pass.names none (constants adef) = none ∨ expand pass.names none (constants adef) = some (.ok none)) :
    Visits oid adefs { pass with progress := true } pass' → Visits oid (adef :: adefs) pass pass'
  | missed {adef adefs pass pass' name s} (hname : oidName adef = some name) (hnew : pass.names.lookup name = none)
    (hexpand : expand pass.names none (constants adef) = some (.ok (some s)))
    (hmissed : s = oid → adefNextSibling adef = none) :
    Visits oid adefs { pass with progress := true, names := (name, s) :: pass.names } pass' →
    Visits oid (adef :: adefs) pass pass'
  | found {adef adefs pass name d} (hname : oidName adef = some name) (hnew : pass.names.lookup name = none)
    (hexpand : expand pass.names none (constants adef) = some (.ok (some oid))) (hnext : adefNextSibling adef = some d) :
    Visits oid (adef :: adefs) pass { pass with progress := true, names := (name, oid) :: pass.names, result := some d }

variable {defs adef adef' d odef : List EggAsn1xDef} {E adefs odefs : List (List EggAsn1xDef)} {names : List (CString × Bytes)}
  {name c : CString} {oid s : Bytes} {cs : List (Option CString)} {parts : List Bytes} {acc r : Option Bytes}
  {pass pass' : Pass}

theorem oidOfConstants_eq (names : List (CString × Bytes)) (acc : Option Bytes) (odefs : List (List EggAsn1xDef)) :
    oidOfConstants names acc odefs = expand names acc (constantsOf odefs) := by
  induction odefs generalizing acc
  case nil => rfl
  case cons odef odefs ih =>
    rw [oidOfConstants]
    cases hhead : odef.head?
    case none => simp [constantsOf, hhead, expand]
    case some d =>
      simp only
      by_cases htype : d.type = .constant
      case neg =>
        rw [if_pos htype, ih]
        simp [constantsOf, hhead, htype]
      case pos =>
        rw [if_neg (by simpa using htype)]
        cases hvalue : d.value
        case none => simp [constantsOf, hhead, htype, hvalue, expand]
        case some c =>
          have hcons : constantsOf (odef :: odefs) = some c :: constantsOf odefs := by
            simp [constantsOf, hhead, htype, hvalue]
          rw [hcons, expand]
          cases hs : valueOf names c
          case none   =>
            unfold valueOf at hs
            simp only [hs]
          case some s =>
            unfold valueOf at hs
            simp only [hs]
            exact ih _

theorem matchDefinitions_cons (oid : Bytes) (adef : List EggAsn1xDef) (adefs : List (List EggAsn1xDef)) (pass : Pass) :
    matchDefinitions oid (adef :: adefs) pass =
      match oidName adef with
      | none      => matchDefinitions oid adefs pass
      | some name =>
        if (pass.names.lookup name).isSome then matchDefinitions oid adefs pass
        else
          let pass := matchOidInDefinition adef name oid { pass with progress := true }
          if pass.result.isSome then pass else matchDefinitions oid adefs pass := by
  rw [matchDefinitions]
  unfold oidName
  cases adef.head?
  case none   => rfl
  case some d =>
    by_cases htype : d.type = .objectId
    case neg => simp [Option.filter, htype]
    case pos =>
      cases hname : d.name
      case none   => simp [Option.filter, htype, hname]
      case some n => simp [Option.filter, htype, hname]

theorem matchDefinitions_visits (oid : Bytes) (adefs : List (List EggAsn1xDef)) (hresult : pass.result = none) :
    Visits oid adefs pass (matchDefinitions oid adefs pass) := by
  induction adefs generalizing pass
  case nil => exact .done
  case cons adef adefs ih =>
    have hrest : ∀ pass : Pass, pass.result = none → Visits oid adefs pass (matchDefinitions oid adefs pass) :=
      fun _ hnone => ih hnone
    rw [matchDefinitions_cons]
    cases hname : oidName adef
    case none      => exact .unnamed hname (ih hresult)
    case some name =>
      simp only
      split
      case isTrue hknown => exact .known hname hknown (ih hresult)
      case isFalse hnew  =>
        have hnone := Option.not_isSome_iff_eq_none.mp hnew
        have hexpand := oidOfConstants_eq pass.names none (adefChildren adef)
        unfold matchOidInDefinition
        split
        case h_1 heq =>
          rw [if_neg (by simp [hresult])]
          exact .nothing hname hnone (.inl (hexpand.symm.trans heq)) (ih hresult)
        case h_2 c heq =>
          rw [if_neg (by simp [hresult])]
          exact .problem hname hnone (hexpand.symm.trans heq) (ih hresult)
        case h_3 heq =>
          rw [if_neg (by simp [hresult])]
          exact .nothing hname hnone (.inr (hexpand.symm.trans heq)) (ih hresult)
        case h_4 s heq =>
          simp only
          cases hnext : adefNextSibling adef
          case none =>
            rw [ite_self, if_neg (by simp)]
            have hvisits := Visits.missed hname hnone (hexpand.symm.trans heq) (fun _ => hnext)
              (hrest { pass with progress := true, names := (name, s) :: pass.names } hresult)
            rwa [hresult] at hvisits
          case some d =>
            by_cases hs : s = oid
            case pos =>
              subst hs
              rw [if_pos rfl, if_pos (by simp)]
              exact .found hname hnone (hexpand.symm.trans heq) hnext
            case neg =>
              rw [if_neg hs, if_neg (by simp)]
              have hvisits := Visits.missed hname hnone (hexpand.symm.trans heq) (fun h => absurd h hs)
                (hrest { pass with progress := true, names := (name, s) :: pass.names } hresult)
              rwa [hresult] at hvisits

-- What is known is right.
def Sound (E : List (List EggAsn1xDef)) (names : List (CString × Bytes)) : Prop :=
  ∀ name s, names.lookup name = some s → ∃ adef ∈ E, oidName adef = some name ∧ Denotes E adef s

def joinParts (acc : Option Bytes) (parts : List Bytes) : Option Bytes :=
  parts.foldl (fun acc s => some (appendPart acc s)) acc

theorem joinParts_some (s : Bytes) (parts : List Bytes) :
    joinParts (some s) parts = some (s ++ parts.flatMap (dot ++ ·)) := by
  induction parts generalizing s
  case nil => simp [joinParts]
  case cons part parts ih =>
    rw [joinParts, List.foldl_cons]
    refine (ih _).trans ?_
    simp [appendPart, dot]

theorem intercalate_cons (part : Bytes) (parts : List Bytes) :
    dot.intercalate (part :: parts) = part ++ parts.flatMap (dot ++ ·) := by
  induction parts generalizing part
  case nil => simp [List.intercalate]
  case cons next parts ih =>
    have hcons : dot.intercalate (part :: next :: parts) = part ++ (dot ++ dot.intercalate (next :: parts)) := by
      simp [List.intercalate]
    rw [hcons, ih, List.flatMap_cons, List.append_assoc]

theorem joinParts_none (hne : parts ≠ []) : joinParts none parts = some (dot.intercalate parts) := by
  cases parts
  case nil              => exact absurd rfl hne
  case cons part parts => exact (joinParts_some part parts).trans (congrArg some (intercalate_cons part parts).symm)

theorem Expands.cons_of_value (hsound : Sound E names) (hs : valueOf names c = some s) (he : Expands E cs parts) :
    Expands E (some c :: cs) (s :: parts) := by
  unfold valueOf at hs
  split at hs
  case isTrue hdigits =>
    cases hs
    exact .number hdigits he
  case isFalse hdigits =>
    obtain ⟨adef, hmem, hname, parts', hne, he', rfl⟩ := hsound c s hs
    exact .name (by simpa using hdigits) hmem hname hne he' he

theorem expand_ok (hsound : Sound E names) (h : expand names acc cs = some (.ok r)) :
    ∃ parts, Expands E cs parts ∧ parts.length = cs.length ∧ r = joinParts acc parts := by
  induction cs generalizing acc
  case nil =>
    cases h
    exact ⟨[], .nil, rfl, rfl⟩
  case cons c cs ih =>
    cases c
    case none   => cases h
    case some c =>
      rw [expand] at h
      split at h
      case h_1 => cases h
      case h_2 s hs =>
        obtain ⟨parts, he, hlen, hr⟩ := ih h
        exact ⟨s :: parts, he.cons_of_value hsound hs, congrArg (· + 1) hlen, hr⟩

-- An object identifier that is put together is the one of the definition.
theorem denotes_of_expand (hsound : Sound E names) (h : expand names none (constants adef) = some (.ok (some s))) :
    Denotes E adef s := by
  obtain ⟨parts, he, hlen, hr⟩ := expand_ok hsound h
  have hne : parts ≠ [] := fun hnil => by simp [hnil, joinParts] at hr
  rw [joinParts_none hne] at hr
  exact ⟨parts, hne, he, Option.some.inj hr⟩

theorem not_blocked_of_expand (hsound : Sound E names)
    (h : expand names acc cs = none ∨ expand names acc cs = some (.ok r)) : ¬Blocked E cs := by
  induction cs generalizing acc
  case nil => exact id
  case cons c cs ih =>
    cases c
    case none   => exact id
    case some c =>
      rw [expand] at h
      cases hs : valueOf names c
      case none   => simp [hs] at h
      case some s =>
        simp only [hs] at h
        rintro (hunresolved | hblocked)
        · exact hunresolved ⟨[s], .cons_of_value hsound hs .nil⟩
        · exact ih h hblocked

-- No definition could make another name known.
def Closed (E : List (List EggAsn1xDef)) (names : List (CString × Bytes)) : Prop :=
  ∀ adef ∈ E, ∀ name, oidName adef = some name → (∃ s, expand names none (constants adef) = some (.ok (some s))) →
    (names.lookup name).isSome = true

theorem Closed.expand (hclosed : Closed E names) (he : Expands E cs parts) (acc : Option Bytes) :
    ∃ parts', parts'.length = parts.length ∧ Oids.expand names acc cs = some (.ok (joinParts acc parts')) := by
  induction he generalizing acc
  case nil => exact ⟨[], rfl, rfl⟩
  case number c cs parts hdigits _ ih =>
    obtain ⟨parts', hlen, h⟩ := ih (some (appendPart acc c.bytes))
    refine ⟨c.bytes :: parts', congrArg (· + 1) hlen, ?_⟩
    rw [Oids.expand, valueOf, if_pos hdigits]
    exact h
  case name adef c cs parts parts' hdigits hmem hname hne _ _ ihname ih =>
    obtain ⟨parts₁, hlen₁, h₁⟩ := ihname none
    have hne₁ : parts₁ ≠ [] := fun hnil => hne (by simpa [hnil] using hlen₁.symm)
    rw [joinParts_none hne₁] at h₁
    obtain ⟨s, hs⟩ := Option.isSome_iff_exists.mp (hclosed adef hmem c hname ⟨_, h₁⟩)
    obtain ⟨parts₂, hlen₂, h₂⟩ := ih (some (appendPart acc s))
    refine ⟨s :: parts₂, congrArg (· + 1) hlen₂, ?_⟩
    rw [Oids.expand, valueOf, if_neg (by simp [hdigits]), hs]
    exact h₂

theorem Closed.known (hclosed : Closed E names) (hmem : adef ∈ E) (hname : oidName adef = some name)
    (hd : Denotes E adef s) : (names.lookup name).isSome = true := by
  obtain ⟨parts, hne, he, -⟩ := hd
  obtain ⟨parts', hlen, h⟩ := hclosed.expand he none
  have hne' : parts' ≠ [] := fun hnil => hne (by simpa [hnil] using hlen.symm)
  rw [joinParts_none hne'] at h
  exact hclosed adef hmem name hname ⟨_, h⟩

theorem Closed.blocked (hclosed : Closed E names) (h : Oids.expand names acc cs = some (.error c)) : Blocked E cs := by
  induction cs generalizing acc
  case nil => cases h
  case cons c' cs ih =>
    cases c'
    case none    => cases h
    case some c' =>
      rw [Oids.expand] at h
      split at h
      case h_2 s hs  => exact .inr (ih h)
      case h_1 hnone =>
        left
        rintro ⟨parts, he⟩
        unfold valueOf at hnone
        split at hnone
        case isTrue  => cases hnone
        case isFalse hdigits =>
          match he with
          | .number hd _                   => exact hdigits hd
          | .name _ hmem hname hne he' _ =>
            have hknown := hclosed.known hmem hname ⟨_, hne, he', rfl⟩
            simp [hnone] at hknown

-- There is one object identifier for a definition when names are distinct.
theorem Expands.unique (hdistinct : Distinct E) {parts' : List Bytes} (he : Expands E cs parts) (he' : Expands E cs parts') :
    parts = parts' := by
  induction he generalizing parts'
  case nil =>
    cases he'
    rfl
  case number c cs parts hdigits _ ih =>
    match he' with
    | .number _ he'            => rw [ih he']
    | .name hdigits' _ _ _ _ _ => simp [hdigits] at hdigits'
  case name adef c cs parts parts₁ hdigits hmem hname _ _ _ ihname ih =>
    match he' with
    | .number hdigits' _                => simp [hdigits] at hdigits'
    | .name _ hmem' hname' _ hexp he' =>
      obtain rfl := hdistinct _ hmem _ hmem' c hname hname'
      rw [ihname hexp, ih he']

-- What is known is right, and none of it is what is looked for, unless nothing follows it.
def Missed (E : List (List EggAsn1xDef)) (oid : Bytes) (names : List (CString × Bytes)) : Prop :=
  ∀ name s, names.lookup name = some s →
    ∃ adef ∈ E, oidName adef = some name ∧ Denotes E adef s ∧ (s = oid → adefNextSibling adef = none)

theorem Missed.sound (hm : Missed E oid names) : Sound E names := fun name s hs =>
  have ⟨adef, hmem, hname, hd, _⟩ := hm name s hs
  ⟨adef, hmem, hname, hd⟩

theorem Missed.cons (hm : Missed E oid names) (hmem : adef ∈ E) (hname : oidName adef = some name)
    (hd : Denotes E adef s) (hmissed : s = oid → adefNextSibling adef = none) : Missed E oid ((name, s) :: names) := by
  intro name' s' hs
  by_cases heq : name' = name
  case pos =>
    subst heq
    rw [List.lookup_cons_self] at hs
    obtain rfl := Option.some.inj hs
    exact ⟨adef, hmem, hname, hd, hmissed⟩
  case neg =>
    rw [List.lookup_cons, beq_false_of_ne heq] at hs
    exact hm name' s' hs

-- The definition that is looked for is not known when names are distinct.
theorem Missed.next_eq_none (hm : Missed E oid names) (hdistinct : Distinct E) (hmem : adef ∈ E)
    (hname : oidName adef = some name) (hd : Denotes E adef oid) (hknown : (names.lookup name).isSome = true) :
    adefNextSibling adef = none := by
  obtain ⟨s, hs⟩ := Option.isSome_iff_exists.mp hknown
  obtain ⟨adef', hmem', hname', ⟨parts', _, he', heq'⟩, hnext⟩ := hm name s hs
  obtain rfl := hdistinct adef hmem adef' hmem' name hname hname'
  obtain ⟨parts, _, he, heq⟩ := hd
  exact hnext (by rw [heq, heq', he.unique hdistinct he'])

theorem mem_of_expand_eq_none (h : expand names acc cs = none) : none ∈ cs := by
  induction cs generalizing acc
  case nil => cases h
  case cons c cs ih =>
    cases c
    case none   => exact List.mem_cons_self
    case some c =>
      rw [expand] at h
      split at h
      case h_1 => cases h
      case h_2 => exact List.mem_cons_of_mem _ (ih h)

theorem isSome_of_expand (h : expand names (some s) cs = some (.ok r)) : r.isSome = true := by
  induction cs generalizing s
  case nil =>
    cases h
    rfl
  case cons c cs ih =>
    cases c
    case none   => cases h
    case some c =>
      rw [expand] at h
      split at h
      case h_1 => cases h
      case h_2 => exact ih h

theorem Expands.none_notMem (he : Expands E cs parts) : none ∉ cs := by
  induction he <;> simp_all

-- A definition that gives nothing has no object identifier.
theorem not_denotes_of_expand
    (h : expand names none (constants adef) = none ∨ expand names none (constants adef) = some (.ok none)) :
    ¬Denotes E adef s := by
  rintro ⟨parts, hne, he, -⟩
  rcases h with h | h
  · exact he.none_notMem (mem_of_expand_eq_none h)
  · cases hcs : constants adef
    case nil =>
      rw [hcs] at he
      cases he
      exact hne rfl
    case cons c cs =>
      rw [hcs] at h
      cases c
      case none   => cases h
      case some c =>
        rw [expand] at h
        split at h
        case h_1 => cases h
        case h_2 => cases isSome_of_expand h

theorem isSome_of_suffix {names' : List (CString × Bytes)} (hsuffix : names <:+ names')
    (h : (names.lookup name).isSome = true) : (names'.lookup name).isSome = true := by
  obtain ⟨new, rfl⟩ := hsuffix
  rw [List.lookup_append]
  cases new.lookup name <;> simp [h]

theorem not_cons_suffix {e : CString × Bytes} : ¬e :: names <:+ names := fun h => by
  have := h.length_le
  simp at this

namespace Visits

variable (v : Visits oid adefs pass pass')

include v

theorem names_suffix : pass.names <:+ pass'.names := by
  induction v
  case done                         => exact List.suffix_rfl
  case unnamed ih                   => exact ih
  case known ih                     => exact ih
  case problem ih                   => exact ih
  case nothing ih                   => exact ih
  case missed name s _ _ _ _ _ ih   => exact (List.suffix_cons _ _).trans ih
  case found                        => exact List.suffix_cons _ _

theorem problem_eq_none (h : pass'.problem = none) : pass.problem = none := by
  induction v
  case done       => exact h
  case unnamed ih => exact ih h
  case known ih   => exact ih h
  case problem ih => cases ih h
  case nothing ih => exact ih h
  case missed ih  => exact ih h
  case found      => exact h

theorem progress (hp : pass.problem ≠ none → pass.progress = true) : pass'.problem ≠ none → pass'.progress = true := by
  induction v
  case done       => exact hp
  case unnamed ih => exact ih hp
  case known ih   => exact ih hp
  case problem ih => exact ih fun _ => rfl
  case nothing ih => exact ih fun _ => rfl
  case missed ih  => exact ih fun _ => rfl
  case found      => exact fun _ => rfl

theorem missed_names (hsub : ∀ adef ∈ adefs, adef ∈ E) (hm : Missed E oid pass.names) (hresult : pass'.result = none) :
    Missed E oid pass'.names := by
  induction v
  case done                                  => exact hm
  case unnamed ih                            => exact ih (List.forall_mem_of_forall_mem_cons hsub) hm hresult
  case known ih                              => exact ih (List.forall_mem_of_forall_mem_cons hsub) hm hresult
  case problem ih                            => exact ih (List.forall_mem_of_forall_mem_cons hsub) hm hresult
  case nothing ih                            => exact ih (List.forall_mem_of_forall_mem_cons hsub) hm hresult
  case missed hname _ hexpand hmissed _ ih =>
    refine ih (List.forall_mem_of_forall_mem_cons hsub) ?_ hresult
    exact hm.cons (hsub _ List.mem_cons_self) hname (denotes_of_expand hm.sound hexpand) hmissed
  case found                                 => cases hresult

theorem exists_found (hsub : ∀ adef ∈ adefs, adef ∈ E) (hm : Missed E oid pass.names) (hnone : pass.result = none)
    (hresult : pass'.result = some d) :
    ∃ adef ∈ E, (∃ name, oidName adef = some name) ∧ Denotes E adef oid ∧ adefNextSibling adef = some d := by
  induction v
  case done                                  => simp [hnone] at hresult
  case unnamed ih                            => exact ih (List.forall_mem_of_forall_mem_cons hsub) hm hnone hresult
  case known ih                              => exact ih (List.forall_mem_of_forall_mem_cons hsub) hm hnone hresult
  case problem ih                            => exact ih (List.forall_mem_of_forall_mem_cons hsub) hm hnone hresult
  case nothing ih                            => exact ih (List.forall_mem_of_forall_mem_cons hsub) hm hnone hresult
  case missed hname _ hexpand hmissed _ ih =>
    refine ih (List.forall_mem_of_forall_mem_cons hsub) ?_ hnone hresult
    exact hm.cons (hsub _ List.mem_cons_self) hname (denotes_of_expand hm.sound hexpand) hmissed
  case found hname _ hexpand hnext           =>
    cases hresult
    exact ⟨_, hsub _ List.mem_cons_self, ⟨_, hname⟩, denotes_of_expand hm.sound hexpand, hnext⟩

theorem known_or_nothing (hsub : ∀ adef ∈ adefs, adef ∈ E) (hm : Missed E oid pass.names) (hresult : pass'.result = none)
    (hproblem : pass'.problem = none) : ∀ adef ∈ adefs, ∀ name, oidName adef = some name →
      (pass'.names.lookup name).isSome = true ∨ ¬Blocked E (constants adef) ∧ ∀ s, ¬Denotes E adef s := by
  induction v
  case done => exact fun _ h => absurd h List.not_mem_nil
  case unnamed hname _ ih =>
    refine List.forall_mem_cons.mpr ⟨fun name h => ?_, ih (List.forall_mem_of_forall_mem_cons hsub) hm hresult hproblem⟩
    simp [hname] at h
  case known hname hknown v ih =>
    refine List.forall_mem_cons.mpr ⟨fun name h => .inl ?_, ih (List.forall_mem_of_forall_mem_cons hsub) hm hresult hproblem⟩
    obtain rfl := Option.some.inj (hname.symm.trans h)
    exact isSome_of_suffix v.names_suffix hknown
  case problem hname _ _ v ih => cases v.problem_eq_none hproblem
  case nothing hname _ hexpand _ ih =>
    refine List.forall_mem_cons.mpr ⟨fun name h => .inr ⟨?_, fun s => not_denotes_of_expand hexpand⟩,
      ih (List.forall_mem_of_forall_mem_cons hsub) hm hresult hproblem⟩
    exact not_blocked_of_expand hm.sound hexpand
  case missed hname _ hexpand hmissed v ih =>
    have hm' := hm.cons (hsub _ List.mem_cons_self) hname (denotes_of_expand hm.sound hexpand) hmissed
    refine List.forall_mem_cons.mpr ⟨fun name h => .inl ?_, ih (List.forall_mem_of_forall_mem_cons hsub) hm' hresult hproblem⟩
    obtain rfl := Option.some.inj (hname.symm.trans h)
    exact isSome_of_suffix v.names_suffix (by simp)
  case found => cases hresult

-- A pass that makes no name known could not have done so.
theorem known_of_expand (hsame : pass'.names = pass.names) : ∀ adef ∈ adefs, ∀ name, oidName adef = some name →
    (∃ s, expand pass.names none (constants adef) = some (.ok (some s))) → (pass.names.lookup name).isSome = true := by
  induction v
  case done => exact fun _ h => absurd h List.not_mem_nil
  case unnamed hname _ ih =>
    refine List.forall_mem_cons.mpr ⟨fun name h => ?_, ih hsame⟩
    simp [hname] at h
  case known hname hknown _ ih =>
    refine List.forall_mem_cons.mpr ⟨fun name h _ => ?_, ih hsame⟩
    rwa [Option.some.inj (hname.symm.trans h)] at hknown
  case problem hname _ hexpand _ ih =>
    refine List.forall_mem_cons.mpr ⟨fun name h ⟨s, hs⟩ => ?_, ih hsame⟩
    simp [hexpand] at hs
  case nothing hname _ hexpand _ ih =>
    refine List.forall_mem_cons.mpr ⟨fun name h ⟨s, hs⟩ => ?_, ih hsame⟩
    simp [hs] at hexpand
  case missed v _ => exact absurd (hsame ▸ v.names_suffix) not_cons_suffix
  case found      => exact absurd hsame (List.cons_ne_self _ _)

theorem exists_error (hsame : pass'.names = pass.names) (hproblem : pass.problem = none) (hproblem' : pass'.problem ≠ none) :
    ∃ adef ∈ adefs, ∃ name c, oidName adef = some name ∧ pass.names.lookup name = none ∧
      expand pass.names none (constants adef) = some (.error c) := by
  induction v
  case done => exact absurd hproblem hproblem'
  case problem hname hnew hexpand _ _ => exact ⟨_, List.mem_cons_self, _, _, hname, hnew, hexpand⟩
  case missed v _ => exact absurd (hsame ▸ v.names_suffix) not_cons_suffix
  case found      => exact absurd hsame (List.cons_ne_self _ _)
  case unnamed ih =>
    obtain ⟨adef, hmem, h⟩ := ih hsame hproblem hproblem'
    exact ⟨adef, List.mem_cons_of_mem _ hmem, h⟩
  case known ih   =>
    obtain ⟨adef, hmem, h⟩ := ih hsame hproblem hproblem'
    exact ⟨adef, List.mem_cons_of_mem _ hmem, h⟩
  case nothing ih =>
    obtain ⟨adef, hmem, h⟩ := ih hsame hproblem hproblem'
    exact ⟨adef, List.mem_cons_of_mem _ hmem, h⟩

theorem names_eq_or_new : pass'.names = pass.names ∨ ∃ adef ∈ adefs, ∃ name, oidName adef = some name ∧
    pass.names.lookup name = none ∧ (pass'.names.lookup name).isSome = true := by
  induction v
  case done => exact .inl rfl
  case missed hname hnew _ _ v _ =>
    exact .inr ⟨_, List.mem_cons_self, _, hname, hnew, isSome_of_suffix v.names_suffix (by simp)⟩
  case found hname hnew _ _ => exact .inr ⟨_, List.mem_cons_self, _, hname, hnew, by simp⟩
  case unnamed ih => exact ih.imp_right fun ⟨adef, hmem, h⟩ => ⟨adef, List.mem_cons_of_mem _ hmem, h⟩
  case known ih   => exact ih.imp_right fun ⟨adef, hmem, h⟩ => ⟨adef, List.mem_cons_of_mem _ hmem, h⟩
  case problem ih => exact ih.imp_right fun ⟨adef, hmem, h⟩ => ⟨adef, List.mem_cons_of_mem _ hmem, h⟩
  case nothing ih => exact ih.imp_right fun ⟨adef, hmem, h⟩ => ⟨adef, List.mem_cons_of_mem _ hmem, h⟩

end Visits

-- How many definitions have names that are not known.
def unknown (E : List (List EggAsn1xDef)) (names : List (CString × Bytes)) : Nat :=
  E.countP fun adef => (oidName adef).any fun name => (names.lookup name).isNone

theorem unknown_lt {names' : List (CString × Bytes)} (hsuffix : names <:+ names') (hmem : adef ∈ E)
    (hname : oidName adef = some name) (hnew : names.lookup name = none) (hknown : (names'.lookup name).isSome = true) :
    unknown E names' < unknown E names := by
  have hle : ∀ E, unknown E names' ≤ unknown E names := by
    refine fun E => List.countP_mono_left fun adef _ h => ?_
    obtain ⟨name, hname, hnone⟩ := (Option.any_eq_true _ _).mp h
    refine (Option.any_eq_true _ _).mpr ⟨name, hname, ?_⟩
    rw [Option.isNone_iff_eq_none] at hnone ⊢
    by_contra hsome
    have := isSome_of_suffix hsuffix (Option.isSome_iff_ne_none.mpr hsome)
    simp [hnone] at this
  obtain ⟨E₁, E₂, rfl⟩ := List.append_of_mem hmem
  have h₁ := hle E₁
  have h₂ := hle E₂
  have hhead : unknown [adef] names' = 0 ∧ unknown [adef] names = 1 := by
    obtain ⟨s, hs⟩ := Option.isSome_iff_exists.mp hknown
    simp [unknown, hname, hnew, hs]
  have happend : ∀ names, unknown (E₁ ++ adef :: E₂) names = unknown E₁ names + (unknown [adef] names + unknown E₂ names) := by
    intro names
    rw [unknown, List.countP_append, ← List.singleton_append, List.countP_append]
    rfl
  rw [happend, happend]
  omega

-- A round that goes on, and one that changes nothing will do so forever.
structure Stuck (E : List (List EggAsn1xDef)) (names : List (CString × Bytes)) : Prop where
  closed  : Closed E names
  blocked : ∃ adef ∈ E, ∃ name, oidName adef = some name ∧ names.lookup name = none ∧ Blocked E (constants adef)

theorem matchRound_found (hm : Missed (adefChildren defs) oid names) (h : matchRound defs oid names = .inl (some d)) :
    ∃ adef ∈ adefChildren defs, (∃ name, oidName adef = some name) ∧ Denotes (adefChildren defs) adef oid ∧
      adefNextSibling adef = some d := by
  have v : Visits oid (adefChildren defs) { names := names } _ := matchDefinitions_visits oid (adefChildren defs) rfl
  unfold matchRound at h
  simp only at h
  split_ifs at h
  · exact v.exists_found (fun _ => id) hm rfl (Sum.inl.inj h)
  · cases h

theorem matchRound_null (hm : Missed (adefChildren defs) oid names) (h : matchRound defs oid names = .inl none) :
    ∃ names', Missed (adefChildren defs) oid names' ∧ ∀ adef ∈ adefChildren defs, ∀ name, oidName adef = some name →
      (names'.lookup name).isSome = true ∨
        ¬Blocked (adefChildren defs) (constants adef) ∧ ∀ s, ¬Denotes (adefChildren defs) adef s := by
  have v : Visits oid (adefChildren defs) { names := names } _ := matchDefinitions_visits oid (adefChildren defs) rfl
  unfold matchRound at h
  simp only at h
  split_ifs at h with hstop hprogress
  · have hresult := Sum.inl.inj h
    have hproblem := hstop.resolve_right (by simp [hresult])
    exact ⟨_, v.missed_names (fun _ => id) hm hresult, v.known_or_nothing (fun _ => id) hm hresult hproblem⟩
  · exact absurd (v.progress (fun h => absurd rfl h) (not_or.mp hstop).1) hprogress

theorem matchRound_next {names' : List (CString × Bytes)} (hm : Missed (adefChildren defs) oid names)
    (h : Loop.Next (matchRound defs oid) names names') :
    Missed (adefChildren defs) oid names' ∧
      (unknown (adefChildren defs) names' < unknown (adefChildren defs) names ∨
        names' = names ∧ Stuck (adefChildren defs) names) := by
  have v : Visits oid (adefChildren defs) { names := names } _ := matchDefinitions_visits oid (adefChildren defs) rfl
  unfold Loop.Next matchRound at h
  simp only at h
  split_ifs at h with hstop hprogress
  obtain ⟨hproblem, hresult⟩ := not_or.mp hstop
  obtain rfl := Sum.inr.inj h
  refine ⟨v.missed_names (fun _ => id) hm (by simpa using hresult), ?_⟩
  rcases v.names_eq_or_new with hsame | ⟨adef, hmem, name, hname, hnew, hknown⟩
  · obtain ⟨adef, hmem, name, c, hname, hnew, hexpand⟩ := v.exists_error hsame rfl hproblem
    have hclosed : Closed (adefChildren defs) names := v.known_of_expand hsame
    exact .inr ⟨hsame, hclosed, adef, hmem, name, hname, hnew, hclosed.blocked hexpand⟩
  · exact .inl (unknown_lt v.names_suffix hmem hname hnew hknown)

theorem Stuck.not_known (stuck : Stuck E names) : ¬Known E := by
  obtain ⟨hclosed, adef, hmem, name, hname, hnew, hblocked⟩ := stuck
  intro hall
  rcases hall adef hmem name hname with ⟨adef', hmem', hname', s, hd⟩ | hfree
  · have hknown := hclosed.known hmem' hname' hd
    simp [hnew] at hknown
  · exact hfree hblocked

theorem Stuck.not_found (stuck : Stuck E names) (hm : Missed E oid names) (hdistinct : Distinct E) : ¬Found E oid := by
  rintro ⟨adef, hmem, ⟨name, hname⟩, hd, hnext⟩
  exact hnext (hm.next_eq_none hdistinct hmem hname hd (stuck.closed.known hmem hname hd))

theorem missed_nil : Missed E oid [] :=
  fun _ _ h => by cases h

theorem known_or_found_of_halts (h : Loop.Halts (matchRound defs oid) []) :
    Known (adefChildren defs) ∨ Found (adefChildren defs) oid := by
  obtain ⟨fuel, result, hrun⟩ := h
  obtain ⟨names, hm, hround⟩ := Loop.invariant missed_nil (fun _ _ hm hnext => (matchRound_next hm hnext).1) hrun
  cases result
  case none =>
    obtain ⟨names', hm', hall⟩ := matchRound_null hm hround
    refine .inl fun adef hmem name hname => (hall adef hmem name hname).imp (fun hknown => ?_) And.left
    obtain ⟨s, hs⟩ := Option.isSome_iff_exists.mp hknown
    obtain ⟨adef', hmem', hname', hd, _⟩ := hm' name s hs
    exact ⟨adef', hmem', hname', s, hd⟩
  case some d =>
    obtain ⟨adef, hmem, hname, hd, hnext⟩ := matchRound_found hm hround
    exact .inr ⟨adef, hmem, hname, hd, by simp [hnext]⟩

-- A loop that never gets stuck ends, since every other round makes a name known.
theorem halts_of_not_stuck (h : ∀ names, Missed (adefChildren defs) oid names → ¬Stuck (adefChildren defs) names) :
    Loop.Halts (matchRound defs oid) [] := by
  refine Loop.halts_of_measure (p := Missed (adefChildren defs) oid) (unknown (adefChildren defs)) ?_ missed_nil
  intro names names' hm hnext
  obtain ⟨hm', hlt | ⟨-, stuck⟩⟩ := matchRound_next hm hnext
  · exact ⟨hm', hlt⟩
  · exact absurd stuck (h names hm)

theorem answers_of_run {fuel : Nat} {result : Option (List EggAsn1xDef)} (hdistinct : Distinct (adefChildren defs))
    (h : Loop.run (matchRound defs oid) fuel [] = some result) : Answers (adefChildren defs) oid result := by
  obtain ⟨names, hm, hround⟩ := Loop.invariant missed_nil (fun _ _ hm hnext => (matchRound_next hm hnext).1) h
  constructor
  case some =>
    rintro d rfl
    exact matchRound_found hm hround
  case none =>
    rintro rfl ⟨adef, hmem, ⟨name, hname⟩, hd, hnext⟩
    obtain ⟨names', hm', hall⟩ := matchRound_null hm hround
    rcases hall adef hmem name hname with hknown | ⟨-, hnothing⟩
    · exact hnext (hm'.next_eq_none hdistinct hmem hname hd hknown)
    · exact hnothing oid hd

-- A name that does not resolve is in the way of everything but a definition that is found. Where two definitions have
-- the same name, it depends on their order which of them can be.
theorem looks_iff (defs : List EggAsn1xDef) (oid : Bytes) :
    (Distinct (adefChildren defs) → (Looks defs oid ↔ Known (adefChildren defs) ∨ Found (adefChildren defs) oid)) ∧
      (Known (adefChildren defs) → Looks defs oid) ∧
      (Looks defs oid → Known (adefChildren defs) ∨ Found (adefChildren defs) oid) := by
  have looks (ends : Loop.Halts (matchRound defs oid) []) : Looks defs oid :=
    ⟨ends, fun resolved _ _ hrun => answers_of_run resolved.distinct hrun⟩
  have known (h : Known (adefChildren defs)) : Looks defs oid :=
    looks (halts_of_not_stuck fun _ _ stuck => stuck.not_known h)
  have found (hdistinct : Distinct (adefChildren defs)) (h : Found (adefChildren defs) oid) : Looks defs oid :=
    looks (halts_of_not_stuck fun _ hm stuck => stuck.not_found hm hdistinct h)
  have necessary (h : Looks defs oid) : Known (adefChildren defs) ∨ Found (adefChildren defs) oid :=
    known_or_found_of_halts h.ends
  exact ⟨fun hdistinct => ⟨necessary, fun h => h.elim known (found hdistinct)⟩, known, necessary⟩

-- `a OBJECT IDENTIFIER ::= { b }` without a `b`
def exampleUndefined : List EggAsn1xDef :=
  [⟨none, .definitions, [.down], none⟩, ⟨some (.of (ascii "a".toList)), .objectId, [.down], none⟩,
    ⟨none, .constant, [], some (.of (ascii "b".toList))⟩]

theorem not_looks_undefined : ¬Looks exampleUndefined (ascii "1.2".toList) := by
  have hnext : matchRound exampleUndefined (ascii "1.2".toList) [] = .inr [] := by decide
  have hcycle : Loop.Cycle (matchRound exampleUndefined (ascii "1.2".toList)) id [] := ⟨[], .single hnext, rfl⟩
  refine fun h => hcycle.not_halts (fun s s' t hs ht => ⟨t, ?_, rfl⟩) h.ends
  exact (show s = s' from hs) ▸ ht

end Asn1x.Oids
