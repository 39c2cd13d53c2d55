import GcrModel.Gcr.Pkcs11Library.Library

-- When the settings are independent of each other, and what becomes of the modules.
namespace Pkcs11Library

variable {config : Config} {s s' : State} {e : Event} {results : List Module}

-- As long as nothing was asked for, the URIs are those that were set.
structure Inv (s : State) : Prop where
  store   : s.asked = false → s.trustStoreUri = s.storeSet.getD none
  lookups : s.asked = false → s.trustLookupUris = s.lookupSet.getD none
  loaded  : s.asked = true → s.initializedUris = true ∧ s.initializedModules = true
  set     : s.asked = false → (s.initializedUris ↔ s.storeSet.isSome ∨ s.lookupSet.isSome)
  modules : Listed s
  before  : s.initializedModules = false → s.modulesSet = [] ∧ s.allModules = s.added

theorem inv_initial : Inv {} where
  store   := fun _ => rfl
  lookups := fun _ => rfl
  loaded  := by simp
  set     := by simp
  modules := ⟨[], [], [], rfl, rfl, .inl rfl⟩
  before  := fun _ => ⟨rfl, rfl⟩

-- What the settings are made of.
structure SameUris (s s' : State) : Prop where
  trustStoreUri   : s'.trustStoreUri = s.trustStoreUri
  trustLookupUris : s'.trustLookupUris = s.trustLookupUris
  initializedUris : s'.initializedUris = s.initializedUris
  storeSet        : s'.storeSet = s.storeSet
  lookupSet       : s'.lookupSet = s.lookupSet
  asked           : s'.asked = s.asked

theorem Inv.congr (i : Inv s) (h : SameUris s s') (hm : Listed s')
    (hi : s.initializedModules = true → s'.initializedModules = true)
    (hb : s'.initializedModules = false → s'.modulesSet = [] ∧ s'.allModules = s'.added) : Inv s' := by
  obtain ⟨h₁, h₂, h₃, h₄, h₅, h₆⟩ := h
  constructor
  case store   => rw [h₁, h₄, h₆]; exact i.store
  case lookups => rw [h₂, h₅, h₆]; exact i.lookups
  case loaded  => rw [h₃, h₆]; exact fun ha => (i.loaded ha).imp_right hi
  case set     => rw [h₃, h₄, h₅, h₆]; exact i.set
  case modules => exact hm
  case before  => exact hb

-- A setting that was not set is what is configured for other modules if that is the same.
theorem Independent.congr_iff (h : SameUris s s') (q : Independent config s) (hm : Listed s') :
    Independent config s' ↔ (s.asked →
      (s.storeSet = none → config.store s'.allModules = config.store s.allModules) ∧
      (s.lookupSet = none → config.lookups s'.allModules = config.lookups s.allModules)) := by
  obtain ⟨h₁, h₂, _, h₄, h₅, h₆⟩ := h
  have hstore := q.store
  have hlookups := q.lookups
  constructor
  case mp =>
    intro q' ha
    have hs := q'.store (h₆.trans ha)
    have hl := q'.lookups (h₆.trans ha)
    rw [h₁, h₄, hstore ha] at hs
    rw [h₂, h₅, hlookups ha] at hl
    exact ⟨fun hnone => by simpa [hnone] using hs.symm, fun hnone => by simpa [hnone] using hl.symm⟩
  case mpr =>
    intro hc
    refine ⟨fun ha => ?_, fun ha => ?_, hm⟩
    · rw [h₆] at ha
      rw [h₁, h₄, hstore ha]
      cases hnone : s.storeSet with
      | none   => exact ((hc ha).1 hnone).symm
      | some _ => rfl
    · rw [h₆] at ha
      rw [h₂, h₅, hlookups ha]
      cases hnone : s.lookupSet with
      | none   => exact ((hc ha).2 hnone).symm
      | some _ => rfl

theorem addRegistered_same (s : State) (results : List Module) : SameUris s (addRegistered s results) := by
  unfold addRegistered
  split
  all_goals exact ⟨rfl, rfl, rfl, rfl, rfl, rfl⟩

-- What an initialization gives is added behind the modules that there are, but only once.
theorem addRegistered_listed (i : Inv s) : Listed (addRegistered s results) := by
  unfold addRegistered
  split
  case isTrue =>
    obtain ⟨before, registered, later, hall, hadded, hr⟩ := i.modules
    exact ⟨before, registered, later, hall, hadded, hr.imp_right (List.mem_cons_of_mem _)⟩
  case isFalse h =>
    obtain ⟨hset, hall⟩ := i.before (by simpa using h)
    exact ⟨s.added, results, [], by simp [hset, hall], by simp, .inr List.mem_cons_self⟩

theorem addRegistered_initialized (s : State) (results : List Module) :
    (addRegistered s results).initializedModules = true := by
  unfold addRegistered
  split
  case isTrue h => exact h
  case isFalse  => rfl

-- What the calls for the modules do, where there are these ones when they are initialized.
structure Keeps (s s' : State) (modules : List Module) : Prop where
  same        : SameUris s s'
  listed      : Listed s'
  initialized : s.initializedModules = true → s'.initializedModules = true ∧ s'.allModules = modules
  before      : s'.initializedModules = false → s'.modulesSet = [] ∧ s'.allModules = s'.added

theorem Keeps.of_same (i : Inv s) (h : SameUris s s') (ha : s'.allModules = s.allModules)
    (hi : s'.initializedModules = s.initializedModules) (hr : s'.registered = s.registered)
    (hs : s'.modulesSet = s.modulesSet) (hd : s'.added = s.added) : Keeps s s' s.allModules where
  same        := h
  initialized := fun hm => ⟨hi.trans hm, ha⟩
  listed := by
    unfold Listed
    rw [ha, hr, hs, hd]
    exact i.modules
  before      := by
    rw [ha, hi, hs, hd]
    exact i.before

theorem onInitializeRegistered_keeps (i : Inv s) (results : Option (List Module)) :
    Keeps s (onInitializeRegistered s results).2 s.allModules := by
  cases results
  case none => exact .of_same i ⟨rfl, rfl, rfl, rfl, rfl, rfl⟩ rfl rfl rfl rfl rfl
  case some results =>
    refine ⟨addRegistered_same s results, addRegistered_listed i, fun hm => ⟨addRegistered_initialized s results, ?_⟩,
      fun h => absurd ((addRegistered_initialized s results).symm.trans h) (by simp)⟩
    simp [onInitializeRegistered, addRegistered, hm]

theorem gcrPkcs11Initialize_keeps (i : Inv s) (results : Option (List Module)) :
    Keeps s (gcrPkcs11Initialize s results).2 s.allModules := by
  unfold gcrPkcs11Initialize
  split
  case isTrue  => exact .of_same i ⟨rfl, rfl, rfl, rfl, rfl, rfl⟩ rfl rfl rfl rfl rfl
  case isFalse => exact onInitializeRegistered_keeps i results

theorem gcrPkcs11InitializeAsync_keeps (i : Inv s) : Keeps s (gcrPkcs11InitializeAsync s) s.allModules := by
  unfold gcrPkcs11InitializeAsync
  split
  all_goals exact .of_same i ⟨rfl, rfl, rfl, rfl, rfl, rfl⟩ rfl rfl rfl rfl rfl

theorem gcrPkcs11SetModules_keeps (s : State) (modules : List Module) :
    Keeps s (gcrPkcs11SetModules s modules) modules where
  same        := ⟨rfl, rfl, rfl, rfl, rfl, rfl⟩
  listed      := ⟨[], [], [], by simp [gcrPkcs11SetModules], rfl, .inl rfl⟩
  initialized := fun _ => ⟨rfl, rfl⟩
  before      := by simp [gcrPkcs11SetModules]

theorem gcrPkcs11AddModule_keeps (i : Inv s) (m : Module) :
    Keeps s (gcrPkcs11AddModule s m) (s.allModules ++ [m]) where
  same        := ⟨rfl, rfl, rfl, rfl, rfl, rfl⟩
  initialized := fun hm => ⟨hm, rfl⟩
  listed      := by
    obtain ⟨before, registered, later, hall, hadded, hr⟩ := i.modules
    exact ⟨before, registered, later ++ [m], by simp [gcrPkcs11AddModule, hall], by simp [gcrPkcs11AddModule, hadded], hr⟩
  before      := by
    intro h
    obtain ⟨hset, hall⟩ := i.before h
    exact ⟨hset, congrArg (· ++ [m]) hall⟩

-- The four ways in which a URI is asked for.
def State.answer (config : Config) (s : State) : State :=
  (initializeUris config s).ask

theorem answer_of_not_initialized (h : s.initializedModules = false) : s.answer config = s := by
  unfold State.answer State.ask initializeUris
  split <;> simp [h]

theorem ask_of_asked (h : s.asked = true) : s.ask = s := by
  cases s
  cases h
  exact ite_self _

-- Events that have to do with modules, that set something, and that ask.
inductive Goes (config : Config) (s : State) : Event → State → Prop
  | keeps {e : Event} {s' : State} (he : ¬e.Asks) (h : Keeps s s' (e.modules s)) : Goes config s e s'
  | store (uri : Option Uri) : Goes config s (.setTrustStoreUri uri) (gcrPkcs11SetTrustStoreUri s uri)
  | lookups (uris : Option (List Uri)) : Goes config s (.setTrustLookupUris uris) (gcrPkcs11SetTrustLookupUris s uris)
  | asks {e : Event} (he : e.Asks) : Goes config s e (s.answer config)

theorem goes_of_step (i : Inv s) (h : Step config s e s') : Goes config s e s' := by
  unfold Step after at h
  cases e
  case initializeSync results => cases h; exact .keeps id (gcrPkcs11Initialize_keeps i results)
  case initializeAsync        => cases h; exact .keeps id (gcrPkcs11InitializeAsync_keeps i)
  case onInitializeRegistered results =>
    simp only at h
    split at h <;> cases h
    have hk : Keeps s { s with inFlight := s.inFlight - 1 } s.allModules :=
      .of_same i ⟨rfl, rfl, rfl, rfl, rfl, rfl⟩ rfl rfl rfl rfl rfl
    obtain ⟨hs, hl, hm, hb⟩ := onInitializeRegistered_keeps (i.congr hk.same hk.listed id hk.before) results
    exact .keeps id ⟨⟨hs.1, hs.2, hs.3, hs.4, hs.5, hs.6⟩, hl, hm, hb⟩
  case getModules            => cases h; exact .keeps id (.of_same i ⟨rfl, rfl, rfl, rfl, rfl, rfl⟩ rfl rfl rfl rfl rfl)
  case setModules modules    => cases h; exact .keeps id (gcrPkcs11SetModules_keeps s modules)
  case addModule m           => cases h; exact .keeps id (gcrPkcs11AddModule_keeps i m)
  case setTrustStoreUri      => cases h; exact .store _
  case setTrustLookupUris    => cases h; exact .lookups _
  case getTrustStoreUri      => cases h; exact .asks trivial
  case getTrustLookupUris    => cases h; exact .asks trivial
  case getTrustStoreSlot     =>
    obtain rfl : (gcrPkcs11GetTrustStoreSlot config s).2 = s' := by cases h; rfl
    unfold gcrPkcs11GetTrustStoreSlot
    split
    case isTrue hm  =>
      have ha : Goes config s .getTrustStoreSlot (s.answer config) := .asks trivial
      rwa [answer_of_not_initialized (by simpa using hm)] at ha
    case isFalse hm => exact .asks trivial
  case getTrustLookupSlots   =>
    obtain rfl : (gcrPkcs11GetTrustLookupSlots config s).2 = s' := by cases h; rfl
    unfold gcrPkcs11GetTrustLookupSlots
    split
    case isTrue hm  =>
      have ha : Goes config s .getTrustLookupSlots (s.answer config) := .asks trivial
      rwa [answer_of_not_initialized (by simpa using hm)] at ha
    case isFalse hm => exact .asks trivial

-- The answer is loaded where nothing was asked for or set.
theorem answer_cases (i : Inv s) (config : Config) :
    (s.initializedModules = true → s.asked = true) ∧ s.answer config = s ∨
    s.initializedModules = true ∧ s.asked = false ∧
      (s.initializedUris = true ∧ s.answer config = { s with asked := true } ∨
        s.initializedUris = false ∧ s.answer config =
          { s with
            trustStoreUri   := config.store s.allModules
            trustLookupUris := some (config.lookups s.allModules)
            initializedUris := true
            asked           := true }) := by
  cases hm : s.initializedModules
  case false => exact .inl ⟨by simp, answer_of_not_initialized hm⟩
  case true =>
    cases hu : s.initializedUris
    case true =>
      cases ha : s.asked
      case true  => exact .inl ⟨by simp, by rw [State.answer, initializeUris, if_pos hu, ask_of_asked ha]⟩
      case false => exact .inr ⟨rfl, rfl, .inl ⟨rfl, by simp [State.answer, State.ask, initializeUris, hu, hm]⟩⟩
    case false =>
      cases ha : s.asked
      case true  => exact absurd (i.loaded ha).1 (by simp [hu])
      case false => exact .inr ⟨rfl, rfl, .inr ⟨rfl, by simp [State.answer, State.ask, initializeUris, hu, hm]⟩⟩

theorem Goes.inv (h : Goes config s e s') (i : Inv s) : Inv s' := by
  cases h
  case keeps h => exact i.congr h.same h.listed (fun hm => (h.initialized hm).1) h.before
  case store uri =>
    exact ⟨fun _ => rfl, i.lookups, fun ha => ⟨rfl, (i.loaded ha).2⟩, fun _ => by simp [gcrPkcs11SetTrustStoreUri], i.modules,
      i.before⟩
  case lookups uris =>
    exact ⟨i.store, fun _ => rfl, fun ha => ⟨rfl, (i.loaded ha).2⟩, fun _ => by simp [gcrPkcs11SetTrustLookupUris], i.modules,
      i.before⟩
  case asks =>
    obtain ⟨-, heq⟩ | ⟨hm, -, ⟨hu, heq⟩ | ⟨-, heq⟩⟩ := answer_cases i config
    · rwa [heq]
    · rw [heq]
      exact ⟨by simp, by simp, fun _ => ⟨hu, hm⟩, by simp, i.modules, i.before⟩
    · rw [heq]
      exact ⟨by simp, by simp, fun _ => ⟨rfl, hm⟩, by simp, i.modules, i.before⟩

-- What a setting is that was not set before the first question.
theorem independent_asked_iff (i : Inv s) (ha : s.asked = false) (hu : s.initializedUris = true) :
    Independent config { s with asked := true } ↔
      (s.storeSet.isSome → s.lookupSet = none → config.lookups s.allModules = []) ∧
      (s.lookupSet.isSome → s.storeSet = none → config.store s.allModules = none) := by
  have hset := (i.set ha).mp hu
  have hstore := i.store ha
  have hlookups := i.lookups ha
  constructor
  case mp =>
    intro q
    have hs := q.store rfl
    have hl := q.lookups rfl
    constructor
    case left =>
      intro _ hnone
      simpa [hlookups, hnone] using hl.symm
    case right =>
      intro _ hnone
      simpa [hstore, hnone] using hs.symm
  case mpr =>
    rintro ⟨hl, hs⟩
    refine ⟨?_, ?_, i.modules⟩
    · intro _
      cases hnone : s.storeSet
      case some => simp [hstore, hnone]
      case none => simp [hstore, hnone, hs (by simpa [hnone] using hset) hnone]
    · intro _
      cases hnone : s.lookupSet
      case some => simp [hlookups, hnone]
      case none => simp [hlookups, hnone, hl (by simpa [hnone] using hset) hnone]

theorem Goes.stays_independent_iff (h : Goes config s e s') (i : Inv s) (q : Independent config s) :
    Independent config s' ↔ Regular config s e := by
  cases h
  case keeps he h =>
    have hmodules : s.asked = true → s'.allModules = e.modules s := fun ha => (h.initialized (i.loaded ha).2).2
    rw [q.congr_iff h.same h.listed]
    exact ⟨fun hc => ⟨fun ha => absurd ha he, fun ha => hmodules ha ▸ hc ha⟩, fun hr ha => hmodules ha ▸ hr.modules ha⟩
  case store uri  => exact iff_of_true ⟨fun _ => rfl, q.lookups, q.modules⟩ ⟨fun ha => ha.elim, fun _ => ⟨fun _ => rfl, fun _ => rfl⟩⟩
  case lookups uris =>
    refine iff_of_true ⟨q.store, fun _ => ?_, q.modules⟩ ⟨fun ha => ha.elim, fun _ => ⟨fun _ => rfl, fun _ => rfl⟩⟩
    simp [gcrPkcs11SetTrustLookupUris]
  case asks he =>
    have hsame : e.modules s = s.allModules := by cases e <;> first | rfl | exact he.elim
    obtain ⟨hasked, heq⟩ | ⟨hm, ha, ⟨hu, heq⟩ | ⟨hu, heq⟩⟩ := answer_cases i config
    · rw [heq]
      exact iff_of_true q ⟨fun _ hm ha => by simp [hasked hm] at ha, fun _ => by simp [hsame]⟩
    · rw [heq, independent_asked_iff i ha hu]
      exact ⟨fun h => ⟨fun _ _ _ => h, fun _ => by simp [hsame]⟩, fun h => h.asks he hm ha⟩
    · have hset := mt (i.set ha).mpr (by simp [hu])
      rw [not_or, Option.not_isSome_iff_eq_none, Option.not_isSome_iff_eq_none] at hset
      rw [heq]
      refine iff_of_true ⟨fun _ => ?_, fun _ => ?_, i.modules⟩ ⟨fun _ _ _ => by simp [hset], fun _ => by simp [hsame]⟩
      · simp [hset.1]
      · simp [hset.2]

variable {ts : List (State × Event × State)}

-- The settings are independent of each other and the modules complete in every state of a run if and only if, when a
-- URI is first asked for in it, not just one of the two was set with the other one configured, and nothing else is configured
-- for modules that come later.
theorem Run.independent_settings_iff (r : Run config ts s) :
    (∀ t ∈ ts, Independent config t.2.2) ↔ ∀ t ∈ ts, Regular config t.1 t.2.1 := by
  refine Transition.Run.forall_iff (p := Inv) (q := Independent config) (c := Regular config) r ?_
    (fun _ _ _ i h => (goes_of_step i h).inv i) ?_ fun _ _ _ i q h => (goes_of_step i h).stays_independent_iff i q
  · rintro s rfl
    exact inv_initial
  · rintro s rfl
    exact ⟨by simp, by simp, inv_initial.modules⟩

-- One module that has both options.
def exampleConfig : Config where
  trustStore   := fun m => m.bind fun m => if m = 1 then some "pkcs11:token=store" else none
  trustLookup  := fun m => m.bind fun m => if m = 1 then some "pkcs11:token=lookup" else none
  tokenForUri  := fun _ _ => none
  tokensForUri := fun _ _ => []

theorem Run.next (r : Run config ts s) (e : Event) (h : after config s e = .ok s') : Run config ((s, e, s') :: ts) s' :=
  .step r h

-- The URI of the store is set before anything was asked for, and then the URIs for lookups are asked for.
theorem Run.not_independent_settings : ¬∀ config ts s, Run config ts s → ∀ t ∈ ts, Independent config t.2.2 := by
  intro h
  have r : Run exampleConfig _ _ := (((Run.next (.start rfl) (.initializeSync (some [1])) rfl).next
    (.setTrustStoreUri (some "pkcs11:token=mine")) rfl).next .getTrustLookupUris rfl)
  have hl := (h _ _ _ r _ List.mem_cons_self).lookups rfl
  exact absurd hl (by decide)

-- Here the configuration was loaded before, while another initialization was under way.
theorem Run.independent_settings_loaded : ∃ ts s, Run exampleConfig ts s ∧ s.trustStoreUri = some "pkcs11:token=mine" ∧
    s.trustLookupUris = some ["pkcs11:token=lookup"] ∧ s.allModules = [1, 2] ∧
    ∀ t ∈ ts, Independent exampleConfig t.2.2 := by
  let ready : State := { allModules := [1], initializedModules := true, registered := [[3], [1]] }
  let loaded : State := { ready with
    initializedUris := true
    trustStoreUri   := some "pkcs11:token=store"
    trustLookupUris := some ["pkcs11:token=lookup"]
    asked           := true }
  have r₁ : Run exampleConfig _ { inFlight := 1 } := .next (.start rfl) .initializeAsync rfl
  have r₂ : Run exampleConfig _ { ready with inFlight := 1, registered := [[1]] } := r₁.next (.initializeSync (some [1])) rfl
  have r₃ : Run exampleConfig _ ready := r₂.next (.onInitializeRegistered (some [3])) rfl
  have r₄ : Run exampleConfig _ loaded := r₃.next .getTrustLookupUris rfl
  have r := (r₄.next (.setTrustStoreUri (some "pkcs11:token=mine")) rfl).next (.addModule 2) rfl
  refine ⟨_, _, r, rfl, rfl, rfl, (Run.independent_settings_iff r).mpr ?_⟩
  simp only [List.forall_mem_cons]
  exact ⟨⟨fun h => h.elim, by decide⟩, ⟨fun h => h.elim, by decide⟩, ⟨fun _ => by decide, by decide⟩,
    ⟨fun h => h.elim, by decide⟩, ⟨fun h => h.elim, by decide⟩, ⟨fun h => h.elim, by decide⟩, List.forall_mem_nil _⟩

end Pkcs11Library
