import GcrModel.Gcr.Trust.Theorems.Records

namespace Trust

open GLib Gck

variable {s s' : Tokens} {pin : Pin} {search : Attributes} {a : Answers} {error error' : Location} {found ret : Bool}
  {c : Call}

-- A call either gives the error of the lookup or goes on.
theorem Answers.failed_iff : ¬a.Failed ↔ a.initialized = none ∧ a.lookup = none := by
  simp [Answers.Failed]

theorem Answers.Failed.cases (hf : a.Failed) :
    (∃ e, a.initialized = some e) ∨ a.initialized = none ∧ ∃ e, a.lookup = some e := by
  cases hinitialized : a.initialized
  case some e => exact .inl ⟨e, rfl⟩
  case none =>
    cases hlookup : a.lookup
    case some e => exact .inr ⟨rfl, e, rfl⟩
    case none   => exact absurd hf ((Answers.failed_iff).mpr ⟨hinitialized, hlookup⟩)

theorem isCertificatePinned_eq (hf : ¬a.Failed) :
    performIsCertificatePinned a s search error = ((s.enumerate search).head?.isSome, error) := by
  obtain ⟨hinitialized, hlookup⟩ := (Answers.failed_iff).mp hf
  simp [performIsCertificatePinned, hinitialized, hlookup]

theorem isCertificatePinned_failed (hf : a.Failed) : (performIsCertificatePinned a s search error).1 = false := by
  unfold performIsCertificatePinned
  obtain ⟨e, he⟩ | ⟨hnone, e, he⟩ := hf.cases
  · rw [he]
  · rw [hnone, he]

theorem addPinnedCertificate_failed (hf : a.Failed) (search : Attributes) (error : Location) :
    ∃ e, performAddPinnedCertificate a s search error = (false, s, setError error e) := by
  unfold performAddPinnedCertificate
  obtain ⟨e, he⟩ | ⟨hnone, e, he⟩ := hf.cases
  · exact ⟨e, by rw [he]⟩
  · exact ⟨e, by rw [hnone, he]⟩

-- An add finds the record, creates it, or gives an error (and may have created it).
theorem addPinnedCertificate_cases (hf : ¬a.Failed) (search : Attributes) (error : Location) :
    ((s.enumerate search).head?.isSome ∧ performAddPinnedCertificate a s search error = (true, s, error)) ∨
      (¬(s.enumerate search).head?.isSome ∧
        performAddPinnedCertificate a s search error = (true, s.create (a.record search), error)) ∨
      ∃ s' e, (s' = s ∨ s' = s.create (a.record search)) ∧
        ¬(s.enumerate search).head?.isSome ∧ performAddPinnedCertificate a s search error = (false, s', setError error e) := by
  obtain ⟨hinitialized, hlookup⟩ := (Answers.failed_iff).mp hf
  unfold performAddPinnedCertificate
  rw [hinitialized, hlookup]
  cases hhead : (s.enumerate search).head?
  case some _ => exact .inl ⟨rfl, rfl⟩
  case none =>
    refine .inr ?_
    cases hstore : a.store
    case false => exact .inr ⟨s, ckrFunctionFailed, .inl rfl, by simp, rfl⟩
    case true =>
      cases hopened : a.opened
      case some e => exact .inr ⟨s, e, .inl rfl, by simp, rfl⟩
      case none =>
        cases hcreated : a.created
        case none   => exact .inl ⟨by simp, rfl⟩
        case some e =>
          refine .inr ⟨if a.kept then s.create (a.record search) else s, e, ?_, by simp, rfl⟩
          split
          · exact .inr rfl
          · exact .inl rfl

theorem removePinnedCertificate_failed (hf : a.Failed) (search : Attributes) :
    ∃ e, performRemovePinnedCertificate a s search (some none) = some (false, s, some (some e)) := by
  unfold performRemovePinnedCertificate
  obtain ⟨e, he⟩ | ⟨hnone, e, he⟩ := hf.cases
  · exact ⟨e, by rw [he]; rfl⟩
  · exact ⟨e, by rw [hnone, he]; rfl⟩

theorem removePinnedCertificate_eq (hf : ¬a.Failed) :
    performRemovePinnedCertificate a s search (some none) = destroyAll a s (s.enumerate search) (some none) := by
  obtain ⟨hinitialized, hlookup⟩ := (Answers.failed_iff).mp hf
  simp [performRemovePinnedCertificate, hinitialized, hlookup]

-- Without an error location a remove is only safe where it does not get to the search.
theorem removePinnedCertificate_none :
    performRemovePinnedCertificate a s search none = if a.initialized.isSome then some (false, s, none) else none := by
  unfold performRemovePinnedCertificate
  cases a.initialized
  case some e => rfl
  case none   => cases a.lookup <;> rfl

-- What a call does, before a task makes a result of it.
structure Performs (s : Tokens) (c : Call) (found : Bool) (s' : Tokens) (error error' : Location) : Prop where
  change   : Change c.pin s s'
  failed   : c.answers.Failed → s' = s ∧ found = false
  isPinned : c.operation = .isCertificatePinned → s' = s ∧ (¬c.answers.Failed →
    error' = error ∧ found = (s.enumerate (prepareIsCertificatePinned c.pin)).head?.isSome)
  added    : c.operation = .addPinnedCertificate → found = true → c.pin ∈ s'.stored
  again    : c.operation = .addPinnedCertificate → c.pin ∈ s.stored → s' = s
  removed  : c.operation = .removePinnedCertificate → found = true → c.pin ∉ s'.pins
  raced    : c.operation = .removePinnedCertificate → ¬c.answers.Failed → error = some none →
    (∀ id e, c.answers.destroyed id ≠ .failed e) → found = true
  error    : c.operation ≠ .isCertificatePinned → error = some none → (found = true ↔ error' = some none)

theorem isCertificatePinned_performs (hop : c.operation = .isCertificatePinned)
    (hp : perform s c error = some (found, s', error')) : Performs s c found s' error error' := by
  have hperform : perform s c error = some ((performIsCertificatePinned c.answers s (prepareIsCertificatePinned c.pin)
      error).1, s, (performIsCertificatePinned c.answers s (prepareIsCertificatePinned c.pin) error).2) := by
    simp only [perform, hop]
  obtain ⟨rfl, rfl, rfl⟩ := by simpa using hperform.symm.trans hp
  refine ⟨.none, fun hf => ⟨rfl, isCertificatePinned_failed hf⟩, fun _ => ⟨rfl, fun hf => ?_⟩, ?_, ?_, ?_, ?_, ?_⟩
  · rw [isCertificatePinned_eq hf]
    exact ⟨rfl, rfl⟩
  all_goals simp [hop]

theorem Performs.of_add (hop : c.operation = .addPinnedCertificate) (change : Change c.pin s s')
    (failed : c.answers.Failed → s' = s ∧ found = false) (added : found = true → c.pin ∈ s'.stored)
    (again : c.pin ∈ s.stored → s' = s) (error_iff : error = some none → (found = true ↔ error' = some none)) :
    Performs s c found s' error error' where
  change   := change
  failed   := failed
  isPinned := by simp [hop]
  added    := fun _ => added
  again    := fun _ => again
  removed  := by simp [hop]
  raced    := by simp [hop]
  error    := fun _ => error_iff

theorem addPinnedCertificate_performs (hop : c.operation = .addPinnedCertificate)
    (hp : perform s c error = some (found, s', error')) : Performs s c found s' error error' := by
  simp only [perform, hop, Option.some.injEq] at hp
  by_cases hf : c.answers.Failed
  case pos =>
    obtain ⟨e, heq⟩ := addPinnedCertificate_failed (s := s) hf (prepareAddPinnedCertificate c.pin) error
    obtain ⟨rfl, rfl, rfl⟩ := by simpa using heq.symm.trans hp
    refine .of_add hop .none (fun _ => ⟨rfl, rfl⟩) (by simp) (fun _ => rfl) ?_
    rintro rfl
    simp [setError]
  case neg =>
    have hstored : ∀ {a : Answers}, c.pin ∈ (s.create (a.record (prepareAddPinnedCertificate c.pin))).stored := fun {a} =>
      isSome_enumerate_create_iff.mpr (.inr (record_contains prepareAdd_nodup))
    have hfailed : ∀ {s'' : Tokens} {found' : Bool}, c.answers.Failed → s'' = s ∧ found' = false := fun h => absurd h hf
    obtain ⟨hsome, heq⟩ | ⟨hnone, heq⟩ | ⟨s₁, e, hs₁, hnone, heq⟩ :=
      addPinnedCertificate_cases (s := s) hf (prepareAddPinnedCertificate c.pin) error
    all_goals obtain ⟨rfl, rfl, rfl⟩ := by simpa using heq.symm.trans hp
    · exact .of_add hop .none hfailed (fun _ => hsome) (fun _ => rfl) (by simp)
    · exact .of_add hop (.created _) hfailed (fun _ => hstored) (fun h => absurd h hnone) (by simp)
    · refine .of_add hop ?_ hfailed (by simp) (fun h => absurd h hnone) ?_
      · obtain rfl | rfl := hs₁
        · exact .none
        · exact .created _
      · rintro rfl
        simp [setError]

theorem Performs.of_remove (hop : c.operation = .removePinnedCertificate) (change : Change c.pin s s')
    (failed : c.answers.Failed → s' = s ∧ found = false) (removed : found = true → c.pin ∉ s'.pins)
    (raced : ¬c.answers.Failed → error = some none → (∀ id e, c.answers.destroyed id ≠ .failed e) → found = true)
    (error_iff : error = some none → (found = true ↔ error' = some none)) : Performs s c found s' error error' where
  change   := change
  failed   := failed
  isPinned := by simp [hop]
  added    := by simp [hop]
  again    := by simp [hop]
  removed  := fun _ => removed
  raced    := fun _ => raced
  error    := fun _ => error_iff

theorem removePinnedCertificate_performs (hop : c.operation = .removePinnedCertificate)
    (he : error = none ∨ error = some none) (hp : perform s c error = some (found, s', error')) :
    Performs s c found s' error error' := by
  simp only [perform, hop] at hp
  obtain rfl | rfl := he
  · rw [removePinnedCertificate_none] at hp
    obtain ⟨hinitialized, hp⟩ := Option.ite_none_right_eq_some.mp hp
    obtain ⟨rfl, rfl, rfl⟩ : false = found ∧ s = s' ∧ none = error' := by simpa using hp
    exact .of_remove hop .none (fun _ => ⟨rfl, rfl⟩) (by simp) (by simp) (by simp)
  · by_cases hf : c.answers.Failed
    case pos =>
      obtain ⟨e, heq⟩ := removePinnedCertificate_failed (s := s) hf (prepareRemovePinnedCertificate c.pin)
      obtain ⟨rfl, rfl, rfl⟩ : false = found ∧ s = s' ∧ some (some e) = error' := by simpa using heq.symm.trans hp
      exact .of_remove hop .none (fun _ => ⟨rfl, rfl⟩) (by simp) (fun h => absurd hf h) (by simp)
    case neg =>
      rw [removePinnedCertificate_eq hf] at hp
      have hd := destroyAll_destroys hp
      refine .of_remove hop hd.change (fun h => absurd h hf) ?_ (fun _ _ hall => ?_) (fun _ => hd.error)
      · rintro rfl
        exact hd.not_mem_pins
      · obtain ⟨s₁, heq⟩ := destroyAll_of_not_failed hall
        have hret := Option.some.inj (heq.symm.trans hp)
        exact (congrArg Prod.fst hret).symm

theorem perform_performs (he : error = none ∨ error = some none) (hp : perform s c error = some (found, s', error')) :
    Performs s c found s' error error' := by
  cases hop : c.operation
  case isCertificatePinned     => exact isCertificatePinned_performs hop hp
  case addPinnedCertificate    => exact addPinnedCertificate_performs hop hp
  case removePinnedCertificate => exact removePinnedCertificate_performs hop he hp

end Trust

namespace Trust

open GLib Gck

variable {s s' : Tokens} {pin : Pin} {error error' : Location} {found ret : Bool} {c : Call} {e : Event}
  {ts : List (Tokens × Event × Tokens)}

-- With an error location a call comes to its end.
theorem perform_isSome : (perform s c (some none)).isSome := by
  unfold perform
  split
  · rfl
  · rfl
  · by_cases hf : c.answers.Failed
    case pos =>
      obtain ⟨e, heq⟩ := removePinnedCertificate_failed (s := s) hf (prepareRemovePinnedCertificate c.pin)
      simp [heq]
    case neg =>
      rw [removePinnedCertificate_eq hf]
      exact destroyAll_isSome

theorem perform_none_isSome (hr : Regular c) (hmode : c.mode = .sync false) : (perform s c none).isSome := by
  unfold perform
  split
  · rfl
  · rfl
  case h_3 hop => simp [removePinnedCertificate_none, hr.location hop hmode]

theorem run_isSome (hr : Regular c) : (run s c).isSome := by
  unfold run
  split
  case h_1 error hmode =>
    rw [Option.isSome_map]
    cases error
    case false => exact perform_none_isSome hr hmode
    case true  => exact perform_isSome
  case h_2 =>
    rw [Option.isSome_map]
    exact perform_isSome

-- What a call returns is what was done, unless it is a task that is cancelled.
theorem run_performs (h : run s c = some (ret, s')) :
    ∃ error found error', Performs s c found s' error error' ∧ (ret = true → found = true) ∧
      ((∀ e, c.mode ≠ .async e true) → found = true → ret = true) ∧ (error = some none ∨ c.mode = .sync false) := by
  unfold run at h
  split at h
  case h_1 error hmode =>
    obtain ⟨p, hp, heq⟩ := Option.map_eq_some_iff.mp h
    obtain ⟨found, s₁, error'⟩ := p
    obtain ⟨rfl, rfl⟩ : found = ret ∧ s₁ = s' := by simpa using heq
    cases error
    case false => exact ⟨none, found, error', perform_performs (.inl rfl) hp, id, fun _ => id, .inr hmode⟩
    case true  => exact ⟨some none, found, error', perform_performs (.inr rfl) hp, id, fun _ => id, .inl rfl⟩
  case h_2 _ cancelled hmode =>
    obtain ⟨p, hp, heq⟩ := Option.map_eq_some_iff.mp h
    obtain ⟨found, s₁, error'⟩ := p
    obtain ⟨rfl, rfl⟩ : (if cancelled then false else threadResult c.operation found error') = ret ∧ s₁ = s' := by
      simpa using heq
    have hperforms := perform_performs (.inr rfl) hp
    -- A task returns an error exactly where nothing was found or done.
    have hresult : threadResult c.operation found error' = found := by
      by_cases hop : c.operation = .isCertificatePinned
      case pos =>
        by_cases hf : c.answers.Failed
        case pos =>
          obtain ⟨_, rfl⟩ := hperforms.failed hf
          unfold threadResult
          split <;> simp [hop]
        case neg =>
          obtain ⟨rfl, _⟩ := (hperforms.isPinned hop).2 hf
          simp [threadResult, hop]
      case neg =>
        have herror := hperforms.error hop rfl
        cases found
        case true  => simp [threadResult, herror.mp rfl, hop]
        case false =>
          have hne : error' ≠ some none := fun h => by simpa using herror.mpr h
          unfold threadResult
          split
          case h_1 => exact absurd rfl hne
          case h_2 => rfl
    refine ⟨some none, found, error', hperforms, ?_, fun hnot => ?_, .inl rfl⟩
    · rw [hresult]
      split <;> simp
    · have hcancelled : cancelled = false := by
        cases hc : cancelled
        case false => rfl
        case true  => exact absurd (hc ▸ hmode) (hnot _)
      rw [hresult, hcancelled]
      exact id

theorem run_law (hr : Regular c) (h : run s c = some (ret, s')) : Law s (c, ret) s' := by
  obtain ⟨error, found, error', hp, hto, hfrom, herror⟩ := run_performs h
  have hothers : ∀ pin, pin ≠ c.pin → (pin ∈ s'.pins ↔ pin ∈ s.pins) := fun pin hne =>
    hp.change.mem_pins_iff hr.certificate hne
  have hsuccess : found = true → ¬c.answers.Failed := by
    rintro hfound hf
    exact absurd (hfound.symm.trans (hp.failed hf).2) (by simp)
  refine ⟨fun hop => ⟨(hp.isPinned hop).1, fun hret => ?_⟩, fun hop hf hmode hpin => ?_, fun hop hret => ?_, hp.again,
    fun hop hret => ?_, fun pin hne => ⟨hothers pin hne, fun hstored hd => ?_⟩, hp.change.anchors_eq,
    fun hf => (hp.failed hf).1, fun hop hf hmode hall => ?_⟩
  case refine_1 =>
    obtain ⟨_, hfound⟩ := (hp.isPinned hop).2 (hsuccess (hto hret))
    exact ⟨hr.certificate, hfound ▸ hto hret⟩
  case refine_2 =>
    obtain ⟨_, hfound⟩ := (hp.isPinned hop).2 hf
    exact hfrom hmode (hfound.trans hpin.2)
  case refine_3 =>
    have hstored := hp.added hop (hto hret)
    refine ⟨Set.ext fun pin => ?_, hstored⟩
    by_cases hne : pin = c.pin
    case pos =>
      subst hne
      exact iff_of_true (mem_pins_of_stored hr.certificate hstored) (Set.mem_insert _ _)
    case neg => simp [hothers pin hne, hne]
  case refine_4 =>
    refine Set.ext fun pin => ?_
    by_cases hne : pin = c.pin
    case pos =>
      subst hne
      simpa using hp.removed hop (hto hret)
    case neg => simp [hothers pin hne, hne]
  case refine_5 => exact (hp.change.mem_stored_iff hr.certificate hd hne).mpr hstored
  case refine_6 =>
    refine hfrom hmode (hp.raced hop hf ?_ hall)
    refine herror.resolve_right fun hsync => ?_
    exact hf (.inl (hr.location hop hsync))

theorem behaves (hr : Regular c) : Behaves s c where
  left  := Option.isSome_iff_ne_none.mp (run_isSome hr)
  right := fun _ _ h => run_law hr h

-- A triple that was added and not removed since is still there.
theorem Run.stored_of_added (hrun : Run ts s) (hregular : ∀ t ∈ ts, Regular t.2.1.1) (ha : Added pin ts)
    (hd : pin.certificate.isSome) : pin ∈ s.stored := by
  induction hrun
  case start => exact ha.elim
  case step ts s s' e hrun hstep ih =>
    obtain ⟨c, ret⟩ := e
    obtain ⟨hr, hregular⟩ := List.forall_mem_cons.mp hregular
    have hlaw : Law s (c, ret) s' := run_law hr hstep
    obtain ⟨hop, rfl, hret⟩ | ⟨hnot, ha⟩ := ha
    · exact (hlaw.added hop hret).2
    · have hstored := ih hregular ha
      by_cases hne : pin = c.pin
      case neg => exact (hlaw.others pin hne).2 hstored hd
      case pos =>
        subst hne
        cases hop : c.operation
        case isCertificatePinned     => exact (hlaw.isPinned hop).1 ▸ hstored
        case addPinnedCertificate    => exact hlaw.again hop hstored ▸ hstored
        case removePinnedCertificate => exact absurd ⟨hop, rfl⟩ hnot

-- Where certificates have data, and a remove has a location for its error, pins behave as a set.
theorem Run.pins_of_regular (hrun : Run ts s) (hregular : ∀ t ∈ ts, Regular t.2.1.1) :
    (∀ t ∈ ts, Law t.1 t.2.1 t.2.2) ∧ (∀ c, Regular c → Behaves s c) ∧
      ∀ c ret s', Regular c → c.operation = .addPinnedCertificate → Added c.pin ts → run s c = some (ret, s') → s' = s := by
  refine ⟨fun t ht => ?_, fun _ => behaves, fun c ret s' hr hop ha h => ?_⟩
  · have hall := (Transition.Run.restrict (c := fun _ e => Regular e.1) hrun hregular).forall_step (p := fun _ => True)
      (Q := Law) (fun _ _ => trivial) (fun _ _ _ _ _ => trivial) fun _ _ _ _ hs => run_law hs.2 hs.1
    exact hall t ht
  · exact (run_law hr h).again hop (hrun.stored_of_added hregular ha hr.certificate)

def noTokens : Tokens :=
  ⟨[], List.nodup_nil⟩

def quiet : Answers :=
  ⟨none, none, true, none, none, false, fun _ => none, fun _ => .done⟩

def aPin : Pin :=
  ⟨some [48], [97], [98]⟩

def addCall : Call :=
  ⟨.addPinnedCertificate, aPin, .sync false, quiet⟩

def added : Tokens :=
  noTokens.create (quiet.record (prepareAddPinnedCertificate aPin))

theorem run_added : Run [(noTokens, (addCall, true), added)] added :=
  .step (.start trivial) rfl

-- A remove without an error location.
theorem Run.not_pins : ¬∀ ts s, Run ts s →
    (∀ t ∈ ts, Law t.1 t.2.1 t.2.2) ∧ (∀ c, Behaves s c) ∧
      ∀ c ret s', c.operation = .addPinnedCertificate → Added c.pin ts → run s c = some (ret, s') → s' = s := by
  intro h
  exact ((h _ _ run_added).2.1 ⟨.removePinnedCertificate, aPin, .sync false, quiet⟩).1 rfl

-- The triple is removed, and another one is added.
def removeCall : Call :=
  ⟨.removePinnedCertificate, aPin, .sync true, quiet⟩

def otherCall : Call :=
  ⟨.addPinnedCertificate, { aPin with peer := [99] }, .async true false, quiet⟩

def removed : Tokens :=
  added.remove noTokens.fresh

def other : Tokens :=
  removed.create (quiet.record (prepareAddPinnedCertificate otherCall.pin))

def otherSteps : List (Tokens × Event × Tokens) :=
  [(removed, (otherCall, true), other), (added, (removeCall, true), removed), (noTokens, (addCall, true), added)]

theorem Run.pins_of_regular_other :
    (∀ t ∈ otherSteps, Law t.1 t.2.1 t.2.2) ∧ (∀ c, Regular c → Behaves other c) ∧
      ∀ c ret s', Regular c → c.operation = .addPinnedCertificate → Added c.pin otherSteps → run other c = some (ret, s') →
        s' = other := by
  refine Run.pins_of_regular (.step (.step run_added rfl) rfl) ?_
  simp only [otherSteps, List.forall_mem_cons]
  exact ⟨⟨rfl, by simp [otherCall]⟩, ⟨rfl, by simp [removeCall]⟩, ⟨rfl, by simp [addCall]⟩, List.forall_mem_nil _⟩

end Trust
