import GcrModel.Gck.Uri.Theorems.Searches
import Mathlib.Data.List.Flatten

namespace Uri

open Enumerator (GckEnumerator GckEnumeratorState Slot SessionOptions)

variable {modules : List Module} {uri : GckUriData} {options : SessionOptions} {enumerator : GckEnumerator} {n : Nat}

-- What the loop over the slots of a module puts into the results.
def selected (uri : GckUriData) (slots : List Slot) : List Slot :=
  slots.filter fun slot => uri.tokenInfo.all (tokenInfoMatch · slot.tokenInfo)

-- The module is not passed over.
def Module.entered (uri : GckUriData) (module₁ : Module) : Bool :=
  !uri.moduleInfo.any (!gckModuleInfoMatch · module₁.info)

def allSelected (uri : GckUriData) (modules : List Module) : List Slot :=
  (modules.filter (Module.entered uri)).flatMap fun module₁ => selected uri module₁.slots

theorem slotsForUri_all (slots results : List Slot) :
    slotsForUri uri false slots results = (selected uri slots).reverse ++ results := by
  induction slots generalizing results
  case nil                => rfl
  case cons slot slots ih =>
    cases htoken : uri.tokenInfo
    case none   => simp [slotsForUri, enough, selected, htoken, ih]
    case some m => cases hm : tokenInfoMatch m slot.tokenInfo <;> simp [slotsForUri, enough, selected, htoken, ih, hm]

theorem modulesForUri_all (modules : List Module) (results : List Slot) :
    modulesForUri uri false modules results = (allSelected uri modules).reverse ++ results := by
  induction modules generalizing results
  case nil                     => rfl
  case cons module₁ modules ih =>
    simp only [modulesForUri, enough, Bool.false_and, Bool.false_eq_true, if_false, ih, slotsForUri_all]
    cases hentered : uri.moduleInfo.any (!gckModuleInfoMatch · module₁.info)
    case false => simp [allSelected, Module.entered, hentered]
    case true  => simp [allSelected, Module.entered, hentered]

-- With one result there is nothing more to do.
theorem slotsForUri_one (slots results : List Slot) :
    slotsForUri uri true slots results = if results = [] then (selected uri slots).head?.toList else results := by
  induction slots generalizing results
  case nil                => cases results <;> rfl
  case cons slot slots ih =>
    cases results
    case cons => rfl
    case nil  =>
      cases htoken : uri.tokenInfo
      case none   => simp [slotsForUri, enough, selected, htoken, ih]
      case some m => cases hm : tokenInfoMatch m slot.tokenInfo <;> simp [slotsForUri, enough, selected, htoken, ih, hm]

theorem modulesForUri_one (modules : List Module) (results : List Slot) :
    modulesForUri uri true modules results = if results = [] then (allSelected uri modules).head?.toList else results := by
  induction modules generalizing results
  case nil                     => cases results <;> rfl
  case cons module₁ modules ih =>
    cases results
    case cons => rfl
    case nil  =>
      cases hentered : uri.moduleInfo.any (!gckModuleInfoMatch · module₁.info)
      case true  => simp [modulesForUri, enough, ih, allSelected, Module.entered, hentered]
      case false =>
        cases hselected : selected uri module₁.slots
        case nil  => simp [modulesForUri, enough, ih, slotsForUri_one, allSelected, Module.entered, hentered, hselected]
        case cons => simp [modulesForUri, enough, ih, slotsForUri_one, allSelected, Module.entered, hentered, hselected]

theorem gckModulesTokensForUri_eq (modules : List Module) (uri : GckUriData) :
    gckModulesTokensForUri modules uri = if uri.anyUnrecognized then [] else (allSelected uri modules).reverse := by
  simp only [gckModulesTokensForUri, tokensForUri, modulesForUri_all, List.append_nil]

-- The one token is the first of those that are found.
theorem gckModulesTokenForUri_eq (modules : List Module) (uri : GckUriData) :
    gckModulesTokenForUri modules uri = (gckModulesTokensForUri modules uri).getLast? := by
  rw [gckModulesTokensForUri_eq, gckModulesTokenForUri, tokensForUri, modulesForUri_one, if_pos rfl]
  cases uri.anyUnrecognized
  case true  => rfl
  case false =>
    simp only [Bool.false_eq_true, if_false, List.getLast?_reverse]
    cases allSelected uri modules <;> rfl

theorem gckModuleMatch_eq (hrecognized : uri.anyUnrecognized = false) (module₁ : Module) :
    gckModuleMatch module₁ uri = module₁.entered uri := by
  cases hinfo : uri.moduleInfo <;> simp [gckModuleMatch, Module.entered, hrecognized, hinfo]

theorem gckSlotMatch_eq (hrecognized : uri.anyUnrecognized = false) (module₁ : Module) (slot : Slot) :
    gckSlotMatch module₁ slot uri =
      (module₁.entered uri && uri.tokenInfo.all (tokenInfoMatch · slot.tokenInfo)) := by
  have hmodule := gckModuleMatch_eq hrecognized module₁
  cases hinfo : uri.moduleInfo
  case none   =>
    have hentered : module₁.entered uri = true := by simp [Module.entered, hinfo]
    cases htoken : uri.tokenInfo <;> simp [gckSlotMatch, hrecognized, hinfo, htoken, hentered]
  case some m =>
    cases htoken : uri.tokenInfo <;> cases hentered : module₁.entered uri <;>
      simp [gckSlotMatch, hrecognized, hinfo, htoken, hentered, hmodule]

-- The slots that an enumerator goes into are those that can be read and are selected.
theorem accepted_eq (hrecognized : uri.anyUnrecognized = false) (slots : List Slot) :
    accepted uri.toGckUriData slots = readable (selected uri slots) := by
  rw [accepted, readable, selected, List.filter_filter]
  apply List.filter_congr
  intro slot _
  cases hread : slot.tokenInfo <;> cases htoken : uri.tokenInfo <;>
    simp [Enumerator.matched, hrecognized, htoken, tokenInfoMatch]

theorem slotsMatching_eq (hrecognized : uri.anyUnrecognized = false) (modules : List Module) :
    slotsMatching modules uri =
      (modules.filter (Module.entered uri)).flatMap fun module₁ => readable (selected uri module₁.slots) := by
  induction modules
  case nil                     => rfl
  case cons module₁ modules ih =>
    have hslots : (readable module₁.slots).filter (gckSlotMatch module₁ · uri) =
        if module₁.entered uri then readable (selected uri module₁.slots) else [] := by
      simp only [gckSlotMatch_eq hrecognized]
      cases module₁.entered uri
      case false => simp
      case true  => simp [readable, selected, List.filter_filter, Bool.and_comm]
    rw [slotsMatching, List.flatMap_cons, hslots]
    rw [slotsMatching] at ih
    rw [ih, List.filter_cons]
    split
    case isTrue  => rw [List.flatMap_cons]
    case isFalse => rfl

theorem readable_flatMap (f : Module → List Slot) (modules : List Module) :
    readable (modules.flatMap f) = modules.flatMap fun module₁ => readable (f module₁) :=
  List.filter_flatMap

-- Without those that are filtered out a list of lists is the same when they are empty.
theorem flatMap_filter_eq_iff {α β : Type} (c : α → Bool) (f : α → List β) (as : List α) :
    (as.filter c).flatMap f = as.flatMap f ↔ ∀ a ∈ as, c a = true ∨ f a = [] := by
  induction as
  case nil          => simp
  case cons a as ih =>
    rw [List.forall_mem_cons, ← ih, List.flatMap_cons, List.filter_cons]
    split
    case isTrue hc =>
      rw [List.flatMap_cons, List.append_cancel_left_eq]
      exact ⟨fun h => ⟨.inl hc, h⟩, fun h => h.right⟩
    case isFalse hc =>
      have hle : ((as.filter c).flatMap f).length ≤ (as.flatMap f).length :=
        (List.filter_sublist.flatMap f).length_le
      constructor
      · intro h
        have hlength := congrArg List.length h
        rw [List.length_append] at hlength
        have hnil : f a = [] := List.eq_nil_of_length_eq_zero (by omega)
        rw [hnil, List.nil_append] at h
        exact ⟨.inr hnil, h⟩
      · rintro ⟨hc' | hnil, h⟩
        · exact absurd hc' hc
        · rw [hnil, List.nil_append, h]

theorem enumerateUri_searching (hn : 0 < n) : Searching modules (enumerateUri modules uri options enumerator n) where
  ready   := ⟨⟨⟨rfl, rfl, rfl, rfl, rfl⟩, fun _ => rfl⟩, rfl, hn⟩
  left    := ⟨[], modules, rfl, rfl⟩
  slots   := fun _ hslot => absurd hslot List.not_mem_nil
  funcs   := fun _ hfuncs => absurd hfuncs (Option.not_mem_none _)
  session := fun _ hsession => absurd hsession (Option.not_mem_none _)

-- An enumerator does not look at what the URI tells of modules.
theorem toSearch_enumerateUri : toSearch (enumerateUri modules uri options enumerator n) =
    modules.flatMap fun module₁ => accepted uri.toGckUriData module₁.slots := by
  change [] ++ [] ++ (modules.map Module.toModule).flatMap _ = _
  rw [List.flatMap_map]
  rfl

theorem searched_iff (hn : 0 < n) :
    (∃ slots, Searches modules (enumerateUri modules uri options enumerator n) slots) ↔ ∀ m ∈ modules, m.info.isSome := by
  have hsearching : Searching modules (enumerateUri modules uri options enumerator n) := enumerateUri_searching hn
  have hleft : modulesLeft modules (enumerateUri modules uri options enumerator n) = modules := by
    have hmodules : (enumerateUri modules uri options enumerator n).modules.length = modules.length :=
      List.length_map Module.toModule
    rw [modulesLeft, hmodules, Nat.sub_self, List.drop_zero]
  constructor
  · rintro ⟨slots, h⟩
    have hdescribed := h.described hsearching
    rwa [hleft] at hdescribed
  · intro hinfo
    exact hsearching.exists_searches hinfo

theorem slotsMatching_of_unrecognized (h : uri.anyUnrecognized = true) : slotsMatching modules uri = [] := by
  simp [slotsMatching, gckSlotMatch, h]

theorem accepted_of_unrecognized (h : uri.anyUnrecognized = true) (slots : List Slot) :
    accepted uri.toGckUriData slots = [] := by
  apply List.filter_eq_nil_iff.mpr
  intro slot _
  cases slot.tokenInfo <;> simp [Enumerator.matched, h]

theorem readable_selected_eq_nil_iff (slots : List Slot) : readable (selected uri slots) = [] ↔
    ∀ slot ∈ readable slots, uri.tokenInfo.all (tokenInfoMatch · slot.tokenInfo) = false := by
  have hcomm : readable (selected uri slots) = selected uri (readable slots) := List.filter_comm _ _ slots
  rw [hcomm, selected, List.filter_eq_nil_iff]
  simp only [Bool.not_eq_true]

-- What the URI selects among the tokens of all modules is what it selects among those of the modules that it enters.
theorem selectsModules_iff (modules : List Module) (uri : GckUriData) :
    SelectsModules modules uri ↔
      modules.flatMap (fun module₁ => accepted uri.toGckUriData module₁.slots) = slotsMatching modules uri := by
  cases hrecognized : uri.anyUnrecognized
  case true  =>
    simp only [slotsMatching_of_unrecognized hrecognized, accepted_of_unrecognized hrecognized]
    exact ⟨fun _ => List.flatMap_eq_nil_iff.mpr fun _ _ => rfl, fun _ => .inl hrecognized⟩
  case false =>
    simp only [slotsMatching_eq hrecognized, accepted_eq hrecognized]
    rw [eq_comm, flatMap_filter_eq_iff]
    simp only [SelectsModules, hrecognized, Bool.false_eq_true, false_or, gckModuleMatch_eq hrecognized,
      readable_selected_eq_nil_iff]

theorem readable_tokens (modules : List Module) (uri : GckUriData) :
    (readable (gckModulesTokensForUri modules uri)).reverse = slotsMatching modules uri := by
  rw [gckModulesTokensForUri_eq]
  cases hrecognized : uri.anyUnrecognized
  case true  =>
    rw [slotsMatching_of_unrecognized hrecognized]
    rfl
  case false =>
    rw [slotsMatching_eq hrecognized, ← readable_flatMap, readable]
    simp only [Bool.false_eq_true, if_false]
    rw [List.filter_reverse, List.reverse_reverse]
    rfl

theorem Agrees.selectsModules (h : Agrees modules uri options enumerator) :
    (∀ m ∈ modules, m.info.isSome) ∧ SelectsModules modules uri := by
  obtain ⟨slots, hslots⟩ := h.searched 1 Nat.one_pos
  have hsearch := hslots.eq_toSearch (enumerateUri_searching Nat.one_pos)
  rw [h.same 1 slots Nat.one_pos hslots, toSearch_enumerateUri] at hsearch
  exact ⟨(searched_iff Nat.one_pos).mp ⟨slots, hslots⟩, (selectsModules_iff modules uri).mpr hsearch.symm⟩

-- All ways to evaluate the URI find the same slots if and only if the modules can be described and none that the URI
-- leaves out has a token that it selects.
theorem agrees_iff (modules : List Module) (uri : GckUriData) (options : SessionOptions) (enumerator : GckEnumerator) :
    Agrees modules uri options enumerator ↔ (∀ m ∈ modules, m.info.isSome) ∧ SelectsModules modules uri := by
  constructor
  · intro h
    exact h.selectsModules
  · rintro ⟨hinfo, hselects⟩
    refine ⟨?_, ?_, readable_tokens modules uri, ?_, ?_⟩
    · intro n hn
      exact (searched_iff hn).mpr hinfo
    · intro n slots hn hslots
      rw [hslots.eq_toSearch (enumerateUri_searching hn), toSearch_enumerateUri]
      exact (selectsModules_iff modules uri).mp hselects
    · rw [gckModulesTokenForUri_eq, List.getLast?_isSome]
    · intro slot hslot
      rw [gckModulesTokenForUri_eq] at hslot
      exact List.mem_of_getLast? hslot

-- A token of a module that has another name than the one in the URI.
def otherSlot : Slot where
  handle    := 0
  tokenInfo := some ⟨some "label", none, none, none⟩
  functions := ⟨fun _ => (0, 1), fun _ => 0, fun _ => []⟩

def otherModule : Module where
  slots   := [otherSlot]
  info    := some ⟨some "other", none⟩
  handles := by
    intro slot hslot readWrite _
    obtain rfl := List.mem_singleton.mp hslot
    exact Nat.one_ne_zero

def moduleUri : GckUriData where
  anyUnrecognized := false
  tokenInfo       := none
  attributes      := none
  moduleInfo      := some ⟨some "module", none⟩

theorem not_agrees_otherModule : ¬∀ modules uri options enumerator, Agrees modules uri options enumerator := by
  intro h
  have hselects := (h [otherModule] moduleUri ⟨false, false⟩ ⟨⟨"GckObject", none⟩, none⟩).selectsModules.right
  rcases hselects with hunrecognized | hselects
  · exact absurd hunrecognized (by decide)
  · rcases hselects otherModule List.mem_cons_self with hmatch | hslots
    · exact absurd hmatch (by decide)
    · exact absurd (hslots otherSlot List.mem_cons_self) (by decide)

end Uri
