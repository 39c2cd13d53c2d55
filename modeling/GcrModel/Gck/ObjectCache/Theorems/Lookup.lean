import GcrModel.Gck.ObjectCache.ObjectCache

namespace ObjectCache

open Gck

variable {ε : Type} {env : Env ε} {object : Object} {cache : Option Attributes} {types : Option (List Nat)} {e : ε}
variable {read : List Nat} {attrs : Attributes}

-- A lookup that is started in one call and finished in another one completes, and returns what one call does.
def Agrees (env : Env ε) (object : Object) (types : Option (List Nat)) : Prop :=
  ∃ task object', lookupAsync env object types = some (task, object') ∧
    lookupFinish object' task = (lookup env object types).1

-- The object is no cache, or has the attributes, or they can be read.
def Served (env : Env ε) (object : Object) (types : Option (List Nat)) : Prop :=
  ∀ cache, object.cache = some cache → checkHaveAttributes cache types ∨
    ∃ read attrs, typesToUpdate env types = some read ∧ env.read read = .ok attrs

section Get

theorem gckObjectGetFinish_async (env : Env ε) (object : Object) (types : List Nat) :
    gckObjectGetFinish (gckObjectGetAsync env object types) = gckObjectGetFull env types := by
  rw [gckObjectGetAsync, gckObjectGetFull]
  cases env.read types
  case ok    => rfl
  case error => rfl

theorem gckObjectGetFull_ok (h : env.read read = .ok attrs) : gckObjectGetFull env read = ⟨some attrs, none⟩ := by
  rw [gckObjectGetFull, h]

theorem gckObjectGetFull_error (h : env.read read = .error e) : gckObjectGetFull env read = ⟨none, some e⟩ := by
  rw [gckObjectGetFull, h]

end Get

section Update

theorem update_of_ok (h : typesToUpdate env types = some read) (hread : env.read read = .ok attrs) (cache : Option Attributes) :
    update env cache types = ((true, none), fill env cache attrs) := by
  rw [update, h]
  dsimp only
  rw [gckObjectGetFull_ok hread]

theorem update_of_error (h : typesToUpdate env types = some read) (hread : env.read read = .error e) (cache : Option Attributes) :
    update env cache types = ((false, some e), cache) := by
  rw [update, h]
  dsimp only
  rw [gckObjectGetFull_error hread]

theorem updateAsync_of_none (h : typesToUpdate env types = none) (object : Object) (cache : Option Attributes) :
    updateAsync env object cache types = none := by
  rw [updateAsync, h]

theorem updateAsync_of_ok (h : typesToUpdate env types = some read) (hread : env.read read = .ok attrs) (object : Object)
    (cache : Option Attributes) :
    updateAsync env object cache types =
      some (⟨object.id, .ok true, none⟩, { object with cache := some (fill env cache attrs) }) := by
  rw [updateAsync, h]
  dsimp only
  rw [onCacheObjectGet, gckObjectGetFinish_async, gckObjectGetFull_ok hread]

theorem updateAsync_of_error (h : typesToUpdate env types = some read) (hread : env.read read = .error e) (object : Object)
    (cache : Option Attributes) : updateAsync env object cache types = some (⟨object.id, .error e, none⟩, object) := by
  rw [updateAsync, h]
  dsimp only
  rw [onCacheObjectGet, gckObjectGetFinish_async, gckObjectGetFull_error hread]

end Update

section Lookup

-- A task of the object is valid, whatever it propagates, so it is not asked.
theorem lookupFinish_of_valid {result : Task ε} (hcache : object.cache = some cache) (hsource : result.source = object.id) :
    lookupFinish object result = ⟨cache, none⟩ := by
  rw [lookupFinish, hcache]
  dsimp only
  rw [gTaskIsValid, hsource, decide_eq_true rfl, Bool.not_true, if_neg Bool.false_ne_true]

theorem agrees_of_no_cache (h : object.cache = none) : Agrees env object types := by
  refine ⟨gckObjectGetAsync env object (types.getD []), object, ?_, ?_⟩
  · rw [lookupAsync, h]
  · rw [lookupFinish, h, lookup, h]
    exact gckObjectGetFinish_async env object (types.getD [])

theorem agrees_of_have (hcache : object.cache = some cache) (hhave : checkHaveAttributes cache types) :
    Agrees env object types := by
  refine ⟨⟨object.id, .ok true, none⟩, object, ?_, ?_⟩
  · rw [lookupAsync, hcache]
    exact if_pos hhave
  · rw [lookupFinish_of_valid hcache rfl, lookup, hcache]
    dsimp only
    rw [if_pos hhave]

theorem lookup_of_miss (hcache : object.cache = some cache) (hhave : ¬checkHaveAttributes cache types) :
    lookup env object types =
      (if (update env cache types).1.1 then ⟨(update env cache types).2, (update env cache types).1.2⟩
        else ⟨none, (update env cache types).1.2⟩, { object with cache := some (update env cache types).2 }) := by
  rw [lookup, hcache]
  dsimp only
  rw [if_neg hhave]
  obtain ⟨⟨ret, error⟩, cache'⟩ := update env cache types
  cases ret
  case false => rfl
  case true  => rfl

theorem lookupAsync_of_miss (hcache : object.cache = some cache) (hhave : ¬checkHaveAttributes cache types) :
    lookupAsync env object types = updateAsync env object cache types := by
  rw [lookupAsync, hcache]
  exact if_neg hhave

theorem agrees_of_ok (hcache : object.cache = some cache) (hhave : ¬checkHaveAttributes cache types)
    (htypes : typesToUpdate env types = some read) (hread : env.read read = .ok attrs) : Agrees env object types := by
  refine ⟨⟨object.id, .ok true, none⟩, { object with cache := some (fill env cache attrs) }, ?_, ?_⟩
  · rw [lookupAsync_of_miss hcache hhave, updateAsync_of_ok htypes hread]
  · rw [lookup_of_miss hcache hhave, update_of_ok htypes hread]
    exact lookupFinish_of_valid rfl rfl

-- Without types to read, it does not complete.
theorem not_agrees_of_none (hcache : object.cache = some cache) (hhave : ¬checkHaveAttributes cache types)
    (htypes : typesToUpdate env types = none) : ¬Agrees env object types := by
  rintro ⟨task, object', hasync, -⟩
  rw [lookupAsync_of_miss hcache hhave, updateAsync_of_none htypes] at hasync
  cases hasync

-- If they are not read, the attributes from before are returned without an error.
theorem not_agrees_of_error (hcache : object.cache = some cache) (hhave : ¬checkHaveAttributes cache types)
    (htypes : typesToUpdate env types = some read) (hread : env.read read = .error e) : ¬Agrees env object types := by
  rintro ⟨task, object', hasync, hsame⟩
  rw [lookupAsync_of_miss hcache hhave, updateAsync_of_error htypes hread] at hasync
  cases hasync
  rw [lookupFinish_of_valid hcache rfl, lookup_of_miss hcache hhave, update_of_error htypes hread] at hsame
  cases congrArg Returned.error hsame

-- A lookup in two calls is one in one call just if no read that it needs fails.
theorem lookup_agrees_iff (env : Env ε) (object : Object) (types : Option (List Nat)) :
    Agrees env object types ↔ Served env object types := by
  cases hcache : object.cache with
  | none => exact iff_of_true (agrees_of_no_cache hcache) fun cache h => by rw [hcache] at h; cases h
  | some cache =>
    have hserved : Served env object types ↔ checkHaveAttributes cache types ∨
        ∃ read attrs, typesToUpdate env types = some read ∧ env.read read = .ok attrs :=
      ⟨fun h => h cache hcache, fun h cache' hcache' => by cases hcache.symm.trans hcache'; exact h⟩
    rw [hserved]
    by_cases hhave : checkHaveAttributes cache types
    case pos => exact iff_of_true (agrees_of_have hcache hhave) (.inl hhave)
    case neg =>
      cases htypes : typesToUpdate env types with
      | none =>
        refine iff_of_false (not_agrees_of_none hcache hhave htypes) ?_
        rintro (h | ⟨_, _, ⟨⟩, _⟩)
        exact hhave h
      | some read =>
        cases hread : env.read read with
        | ok attrs => exact iff_of_true (agrees_of_ok hcache hhave htypes hread) (.inr ⟨read, attrs, rfl, hread⟩)
        | error e =>
          refine iff_of_false (not_agrees_of_error hcache hhave htypes hread) ?_
          rintro (h | ⟨_, _, ⟨⟩, h⟩)
          · exact hhave h
          · cases hread.symm.trans h

-- A read fails, and the attributes are not those that were asked for.
theorem not_lookup_agrees : ¬∀ (env : Env Nat) (object : Object) (types : Option (List Nat)), Agrees env object types := by
  intro h
  obtain ⟨task, object', hasync, hsame⟩ := h ⟨none, none, fun _ => .error 5⟩ ⟨0, some (some [⟨1, none⟩])⟩ (some [2])
  cases hasync
  exact absurd (congrArg Returned.error hsame) (by decide)

end Lookup

end ObjectCache
