import GcrModel.Gcr.SubjectPublicKey.Load

-- Whether a load that fails says why, and whether the two ways to load come to the same.
namespace SubjectPublicKey

open GLib Gck
open Gck.Attributes (find findUlong addUlong)

variable {ε ν : Type*} {object : Object ε} {s : Loading ε} {types : List Nat}

-- The class and the type are in the cache, or reading them fails, or they are found by reading them.
def Announced (object : Object ε) : Prop :=
  (checkObjectBasics (lookupAttributes object)).isSome ∨
    (∃ error, object.lookup basicTypes = .error error) ∨
      ∃ attrs, object.lookup basicTypes = .ok attrs ∧
        (checkObjectBasics (Attributes.setAll (lookupAttributes object) (attrs.getD []))).isSome

-- What is promised of the two ways to load: there is an error if and only if there is no key, the task has an error to
-- give, and it gives what the call gives, unless it is cancelled.
structure Loud (forAttributes : Attributes → Option ν) (object : Object ε) : Prop where
  null_iff  : (load forAttributes object).1 = none ↔ (load forAttributes object).2.isSome
  completed : (loadAsync object).1 ≠ .error none
  agrees    : ∀ cancelled, loadFinish forAttributes cancelled (loadAsync object) =
    if cancelled then (none, some .cancelled) else load forAttributes object

-- A function that succeeds leaves no error.
def Quiet (x : Bool × Loading ε) : Prop :=
  x.1 = true → x.2.lerror = none

theorem Quiet.of_false : Quiet (false, s) :=
  fun h => nomatch h

theorem Quiet.of_lerror (b : Bool) (h : s.lerror = none) : Quiet (b, s) :=
  fun _ => h

@[simp]
theorem Loading.setAll_lerror (attrs : Option Attributes) : (s.setAll attrs).lerror = s.lerror :=
  rfl

theorem Loading.setError_isSome (error : Error ε) : (s.setError error).lerror.isSome := by
  unfold Loading.setError
  cases s.lerror <;> rfl

theorem loadObjectBasics_quiet (h : s.lerror = none) : Quiet (loadObjectBasics object s) := by
  unfold loadObjectBasics
  split
  case isTrue => exact .of_lerror _ h
  case isFalse =>
    cases object.lookup basicTypes with
    | error _ => exact .of_false
    | ok _    => exact .of_lerror _ h

theorem loadTypes_quiet (h : s.lerror = none) : Quiet (loadTypes object types s) := by
  unfold loadTypes
  split
  case isTrue => exact .of_lerror _ h
  case isFalse =>
    cases object.lookup types with
    | error _ => exact .of_false
    | ok _    => exact .of_lerror _ h

theorem lookupPublicKey_quiet (h : s.lerror = none) : Quiet (lookupPublicKey object s) := by
  unfold lookupPublicKey
  cases object.lookup [ckaId] with
  | error _  => exact .of_false
  | ok attrs =>
    cases hid : find (attrs.getD []) ckaId with
    | none    => simp only [hid]; exact .of_false
    | some id =>
      simp only [hid]
      split
      case isTrue => exact .of_false
      case isFalse =>
        cases object.findPublic (addUlong [] ckaClass ckoPublicKey ++ [id]) with
        | error _ => exact .of_false
        | ok _    => exact .of_lerror _ h

theorem loadPublicTypes_quiet {setClass : Bool} (h : s.lerror = none) :
    Quiet (loadPublicTypes object types setClass s) := by
  unfold loadPublicTypes
  split
  case isTrue => exact .of_lerror _ h
  case isFalse =>
    cases findUlong s.builder ckaClass with
    | none       => exact .of_false
    | some klass =>
      have hp : Quiet (if klass = ckoPrivateKey then lookupPublicKey object s else (true, s)) := by
        split
        case isTrue => exact lookupPublicKey_quiet h
        case isFalse => exact .of_lerror _ h
      dsimp only
      generalize (if klass = ckoPrivateKey then lookupPublicKey object s else (true, s)) = x at hp ⊢
      obtain ⟨_ | _, s'⟩ := x
      · exact .of_false
      · cases if klass = ckoPrivateKey then object.lookupPublic types else object.lookup types with
        | error _  => exact .of_false
        | ok attrs =>
          refine .of_lerror _ ?_
          rw [Loading.setAll_lerror]
          cases setClass <;> exact hp rfl

theorem loadKeyType_quiet {klass type : Nat} (h : s.lerror = none) : Quiet (loadKeyType object klass type s) := by
  unfold loadKeyType
  split_ifs
  all_goals first | exact loadTypes_quiet h | exact loadPublicTypes_quiet h | exact .of_false

theorem loadAttributes_quiet (h : s.lerror = none) : Quiet (loadAttributes object s) := by
  unfold loadAttributes
  have hb : Quiet (loadObjectBasics object s) := loadObjectBasics_quiet h
  generalize loadObjectBasics object s = x at hb
  obtain ⟨_ | _, s'⟩ := x
  · exact .of_false
  · cases hbasics : checkObjectBasics s'.builder with
    | none   => simp only [hbasics]; exact .of_false
    | some x =>
      simp only [hbasics]
      have hk : Quiet (loadKeyType object x.1 x.2 s') := loadKeyType_quiet (hb rfl)
      generalize loadKeyType object x.1 x.2 s' = y at hk ⊢
      obtain ⟨_ | _, s''⟩ := y
      · exact .of_false
      · exact hk

theorem checkObjectBasics_of_loadObjectBasics (h : (loadObjectBasics object s).1 = true) :
    (checkObjectBasics (loadObjectBasics object s).2.builder).isSome := by
  unfold loadObjectBasics at h ⊢
  split
  case isTrue hfound => exact hfound
  case isFalse hfound =>
    rw [if_neg hfound] at h
    cases hlookup : object.lookup basicTypes with
    | error _  => simp only [hlookup, Bool.false_eq_true] at h
    | ok attrs => simpa only [hlookup] using h

theorem announced_iff :
    Announced object ↔ (loadObjectBasics object ⟨lookupAttributes object, none⟩).1 = true ∨
      (loadObjectBasics object ⟨lookupAttributes object, none⟩).2.lerror.isSome := by
  unfold Announced loadObjectBasics
  by_cases hfound : (checkObjectBasics (lookupAttributes object)).isSome
  · simp [hfound]
  · cases object.lookup basicTypes with
    | error _ => simp [hfound, Loading.setError]
    | ok _    => simp [hfound, Loading.setAll]

-- There is an error for attributes that are not there, as soon as the basics are found.
theorem loadAttributes_isSome_iff (h : (loadAttributes object s).1 = false) :
    (loadAttributes object s).2.lerror.isSome ↔
      (loadObjectBasics object s).1 = true ∨ (loadObjectBasics object s).2.lerror.isSome := by
  have hbasics := @checkObjectBasics_of_loadObjectBasics _ object s
  unfold loadAttributes at h ⊢
  generalize loadObjectBasics object s = x at h hbasics ⊢
  obtain ⟨_ | _, s'⟩ := x
  · simp only [Bool.false_eq_true, false_or]
  · obtain ⟨⟨klass, type⟩, htypes⟩ := Option.isSome_iff_exists.mp (hbasics rfl)
    simp only [htypes] at h ⊢
    generalize loadKeyType object klass type s' = y at h ⊢
    obtain ⟨_ | _, s''⟩ := y
    · exact iff_of_true (Loading.setError_isSome _) (.inl trivial)
    · exact nomatch h

theorem checkObjectBasics_of_checkAttributes {builder : Attributes} (h : checkAttributes builder = true) :
    (checkObjectBasics builder).isSome := by
  unfold checkAttributes at h
  cases hbasics : checkObjectBasics builder with
  | none   => rw [hbasics] at h; exact nomatch h
  | some _ => rfl

theorem build_eq_none_iff {forAttributes : Attributes → Option ν} (h : s.lerror = none) :
    (build forAttributes s).1 = none ↔ (build forAttributes s).2.isSome := by
  unfold build
  cases forAttributes s.builder with
  | none   => exact iff_of_true rfl (Loading.setError_isSome _)
  | some _ => simp [h]

theorem loud_of_announced (forAttributes : Attributes → Option ν) (ha : Announced object) :
    Loud forAttributes object := by
  have hq : Quiet (loadAttributes object ⟨lookupAttributes object, none⟩) := loadAttributes_quiet rfl
  have hf := @loadAttributes_isSome_iff _ object ⟨lookupAttributes object, none⟩
  rw [← announced_iff] at hf
  by_cases hcheck : checkAttributes (lookupAttributes object) = true
  · constructor
    case null_iff =>
      simp only [load, hcheck, if_true]
      exact build_eq_none_iff rfl
    case completed => simp [loadAsync, hcheck]
    case agrees =>
      rintro (_ | _) <;> simp [loadFinish, loadAsync, load, hcheck, propagateBoolean]
  · generalize hx : loadAttributes object ⟨lookupAttributes object, none⟩ = x at hq hf
    obtain ⟨_ | _, s'⟩ := x
    · have herror : s'.lerror.isSome := (hf rfl).mpr ha
      constructor
      case null_iff => simpa [load, hcheck, hx] using herror
      case completed =>
        simp only [loadAsync, hcheck, Bool.false_eq_true, if_false, threadKeyAttributes, hx]
        exact fun h => absurd (Completion.error.inj h) (Option.isSome_iff_ne_none.mp herror)
      case agrees =>
        rintro (_ | _) <;> simp [loadFinish, loadAsync, load, hcheck, propagateBoolean, threadKeyAttributes, hx]
    · have hquiet : s'.lerror = none := hq rfl
      constructor
      case null_iff =>
        simp only [load, hcheck, Bool.false_eq_true, if_false, hx]
        exact build_eq_none_iff hquiet
      case completed => simp [loadAsync, hcheck, threadKeyAttributes, hx]
      case agrees =>
        have hs : s' = ⟨s'.builder, none⟩ := by rw [← hquiet]
        rintro (_ | _)
        · simp only [loadFinish, loadAsync, load, hcheck, Bool.false_eq_true, if_false, propagateBoolean,
            threadKeyAttributes, hx]
          rw [← hs]
        · simp [loadFinish, propagateBoolean]

theorem loud_iff (forAttributes : Attributes → Option ν) (object : Object ε) :
    Loud forAttributes object ↔ Announced object := by
  refine ⟨fun hl => ?_, loud_of_announced forAttributes⟩
  by_contra ha
  have hcheck : ¬checkAttributes (lookupAttributes object) = true :=
    fun h => ha (.inl (checkObjectBasics_of_checkAttributes h))
  rw [announced_iff, not_or, Bool.not_eq_true] at ha
  have hnull := hl.null_iff
  have hb : loadAttributes object ⟨lookupAttributes object, none⟩ =
      (false, (loadObjectBasics object ⟨lookupAttributes object, none⟩).2) := by
    unfold loadAttributes
    generalize loadObjectBasics object ⟨lookupAttributes object, none⟩ = x at ha
    obtain ⟨_ | _, s'⟩ := x
    · rfl
    · exact nomatch ha.1
  simp only [load, hcheck, Bool.false_eq_true, if_false, hb, true_iff] at hnull
  exact ha.2 hnull

-- An object without attributes, which reads them without an error.
def bareObject : Object Unit where
  isCache        := false
  cached         := none
  lookup _       := .ok (some [])
  findPublic _   := .ok false
  lookupPublic _ := .ok none

-- The call gives neither a key nor an error, and the task is completed with NULL for the error.
theorem not_loud_bareObject : ¬Loud (fun _ => some ()) bareObject :=
  fun h => h.completed rfl

end SubjectPublicKey
