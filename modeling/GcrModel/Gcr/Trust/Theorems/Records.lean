import GcrModel.Gcr.Trust.Trust

namespace Trust

open GLib Gck

section Records

variable {s s' : Tokens} {pin pin' : Pin} {record : Record} {search attrs : Attributes} {a : Answers}
  {certificate : Option Bytes} {purpose data : Bytes}

theorem contains_append : record.contains (search ++ attrs) ↔ record.contains search ∧ record.contains attrs := by
  simp [Record.contains]

-- A record with the pin of a certificate.
structure Record.Pins (record : Record) (pin : Pin) (data : Bytes) : Prop where
  assertion   : record.contains (prepareTrustAttrs none cktXPinnedCertificate [])
  certificate : record ckaXCertificateValue = some data
  purpose     : record ckaXPurpose = some pin.purpose
  peer        : record ckaXPeer = some pin.peer

theorem contains_pinned_iff (hd : pin.certificate = some data) :
    record.contains (prepareIsCertificatePinned pin) ↔ record.Pins pin data := by
  have hsplit : prepareIsCertificatePinned pin = prepareTrustAttrs none cktXPinnedCertificate [] ++
      [⟨ckaXCertificateValue, some data⟩, ⟨ckaXPurpose, some pin.purpose⟩, ⟨ckaXPeer, some pin.peer⟩] := by
    simp only [prepareIsCertificatePinned, prepareTrustAttrs, hd]
    rfl
  rw [hsplit, contains_append]
  refine ⟨fun h => ?_, fun h => ⟨h.assertion, ?_⟩⟩
  · obtain ⟨hassertion, hrest⟩ := h
    obtain ⟨hcertificate, hpurpose, hpeer⟩ : record ckaXCertificateValue = some data ∧
        record ckaXPurpose = some pin.purpose ∧ record ckaXPeer = some pin.peer := by
      simpa [Record.contains] using hrest
    exact ⟨hassertion, hcertificate, hpurpose, hpeer⟩
  · simp [Record.contains, h.certificate, h.purpose, h.peer]

-- No record pins two triples.
theorem eq_of_contains (hc : pin.certificate.isSome) (hc' : pin'.certificate.isSome)
    (h : record.contains (prepareIsCertificatePinned pin)) (h' : record.contains (prepareIsCertificatePinned pin')) :
    pin = pin' := by
  obtain ⟨data, hd⟩ := Option.isSome_iff_exists.mp hc
  obtain ⟨data', hd'⟩ := Option.isSome_iff_exists.mp hc'
  have hp := (contains_pinned_iff hd).mp h
  have hp' := (contains_pinned_iff hd').mp h'
  have hcertificate : pin.certificate = pin'.certificate := by
    rw [hd, hd', ← hp.certificate, ← hp'.certificate]
  have hpurpose : pin.purpose = pin'.purpose := Option.some.inj (hp.purpose.symm.trans hp'.purpose)
  have hpeer : pin.peer = pin'.peer := Option.some.inj (hp.peer.symm.trans hp'.peer)
  cases pin
  cases pin'
  simp_all

-- What an add searches for is what a query searches for, on a token.
theorem prepareAdd_eq : prepareAddPinnedCertificate pin = prepareIsCertificatePinned pin ++ [⟨ckaToken, some [1]⟩] :=
  rfl

theorem contains_of_add (h : record.contains (prepareAddPinnedCertificate pin)) :
    record.contains (prepareIsCertificatePinned pin) := by
  rw [prepareAdd_eq, contains_append] at h
  exact h.1

theorem assertionType_of_contains {type : Nat} (rest : Attributes)
    (h : record.contains (prepareTrustAttrs certificate type [] ++ rest)) :
    record ckaXAssertionType = Attributes.ofUlong type := by
  have hsplit : prepareTrustAttrs certificate type [] ++ rest =
      ⟨ckaClass, Attributes.ofUlong ckoXTrustAssertion⟩ :: ⟨ckaXAssertionType, Attributes.ofUlong type⟩ ::
        ((certificate.map fun data => (⟨ckaXCertificateValue, some data⟩ : Attribute)).toList ++ rest) := by
    cases certificate <;> rfl
  rw [hsplit] at h
  have hmem := List.all_eq_true.mp h ⟨ckaXAssertionType, Attributes.ofUlong type⟩ (by simp)
  simpa using hmem

-- A record with a pin is no anchor.
theorem not_anchored (h : record.contains (prepareIsCertificatePinned pin)) :
    ¬record.contains (prepareIsCertificateAnchored certificate purpose) := by
  intro h'
  have hsplit : prepareIsCertificatePinned pin = prepareTrustAttrs pin.certificate cktXPinnedCertificate [] ++
      [⟨ckaXPurpose, some pin.purpose⟩, ⟨ckaXPeer, some pin.peer⟩] := List.append_assoc _ [_] [_]
  have hpinned := assertionType_of_contains _ (hsplit ▸ h)
  have hanchored := assertionType_of_contains [⟨ckaXPurpose, some purpose⟩] h'
  have hne : Attributes.ofUlong cktXPinnedCertificate ≠ Attributes.ofUlong cktXAnchoredCertificate := by decide
  exact hne (hpinned.symm.trans hanchored)

theorem find_of_mem (hn : (attrs.map Attribute.type).Nodup) :
    ∀ attr ∈ attrs, Attributes.find attrs attr.type = some attr := by
  unfold Attributes.find
  induction attrs
  case nil => simp
  case cons a attrs ih =>
    obtain ⟨ha, hrest⟩ := List.nodup_cons.mp hn
    refine List.forall_mem_cons.mpr ⟨by simp, fun attr hattr => ?_⟩
    have hne : a.type ≠ attr.type := by
      rintro heq
      exact ha (heq ▸ List.mem_map_of_mem hattr)
    rw [List.find?_cons, decide_eq_false hne, ih hrest attr hattr]

-- An object that is created has the attributes that are given.
theorem record_contains (hn : (attrs.map Attribute.type).Nodup) : (a.record attrs).contains attrs := by
  refine List.all_eq_true.mpr fun attr hattr => ?_
  simp [Answers.record, find_of_mem hn attr hattr]

theorem prepareAdd_nodup : ((prepareAddPinnedCertificate pin).map Attribute.type).Nodup := by
  obtain ⟨certificate, purpose, peer⟩ := pin
  cases certificate
  case none   => exact (by decide : [ckaClass, ckaXAssertionType, ckaXPurpose, ckaXPeer, ckaToken].Nodup)
  case some _ =>
    exact (by decide : [ckaClass, ckaXAssertionType, ckaXCertificateValue, ckaXPurpose, ckaXPeer, ckaToken].Nodup)

theorem isSome_enumerate_iff :
    (s.enumerate search).head?.isSome ↔ ∃ object ∈ s.objects, object.record.contains search := by
  simp [Tokens.enumerate]

theorem isSome_enumerate_create_iff :
    ((s.create record).enumerate search).head?.isSome ↔
      (s.enumerate search).head?.isSome ∨ record.contains search := by
  simp only [isSome_enumerate_iff, Tokens.create, List.mem_append, List.mem_singleton]
  refine ⟨?_, ?_⟩
  · rintro ⟨object, hmem | rfl, hcontains⟩
    · exact .inl ⟨object, hmem, hcontains⟩
    · exact .inr hcontains
  · rintro (⟨object, hmem, hcontains⟩ | hcontains)
    · exact ⟨object, .inl hmem, hcontains⟩
    · exact ⟨_, .inr rfl, hcontains⟩

-- An object is known by its id.
theorem Tokens.eq_of_id {object object' : Object} (h : object ∈ s.objects) (h' : object' ∈ s.objects)
    (hid : object.id = object'.id) : object = object' :=
  List.inj_on_of_nodup_map s.nodup h h' hid

end Records

section Pins

variable {s s' : Tokens} {pin pin' : Pin} {search attrs : Attributes} {a : Answers} {error error' : Location} {ret : Bool}
  {objects : List Object} {c : Call}

-- What a call can do to the tokens: nothing, create the record of its triple, or remove objects that its triple finds.
inductive Change (pin : Pin) (s : Tokens) : Tokens → Prop
  | none : Change pin s s
  | created (a : Answers) : Change pin s (s.create (a.record (prepareAddPinnedCertificate pin)))
  | removed {s' : Tokens} : s'.objects ⊆ s.objects →
    (∀ object ∈ s.objects, object ∉ s'.objects → object.record.contains (prepareIsCertificatePinned pin)) → Change pin s s'

namespace Change

-- A search that no record with the pin answers finds the same.
theorem isSome_iff (hc : Change pin s s')
    (hsearch : ∀ record : Record, record.contains (prepareIsCertificatePinned pin) → ¬record.contains search) :
    (s'.enumerate search).head?.isSome ↔ (s.enumerate search).head?.isSome := by
  cases hc
  case none => exact Iff.rfl
  case created a =>
    have hpinned : (a.record (prepareAddPinnedCertificate pin)).contains (prepareIsCertificatePinned pin) :=
      contains_of_add (record_contains prepareAdd_nodup)
    rw [isSome_enumerate_create_iff]
    exact or_iff_left (hsearch _ hpinned)
  case removed hsub hrest =>
    rw [isSome_enumerate_iff, isSome_enumerate_iff]
    refine ⟨fun h => ?_, fun h => ?_⟩
    · obtain ⟨object, hmem, hcontains⟩ := h
      exact ⟨object, hsub hmem, hcontains⟩
    · obtain ⟨object, hmem, hcontains⟩ := h
      refine ⟨object, ?_, hcontains⟩
      by_contra hn
      exact hsearch _ (hrest object hmem hn) hcontains

theorem mem_pins_iff (hc : Change pin s s') (hd : pin.certificate.isSome) (hne : pin' ≠ pin) :
    pin' ∈ s'.pins ↔ pin' ∈ s.pins := by
  refine and_congr_right fun hd' => hc.isSome_iff fun record h h' => ?_
  exact hne (eq_of_contains hd' hd h' h)

theorem mem_stored_iff (hc : Change pin s s') (hd : pin.certificate.isSome) (hd' : pin'.certificate.isSome)
    (hne : pin' ≠ pin) : pin' ∈ s'.stored ↔ pin' ∈ s.stored :=
  hc.isSome_iff fun _ h h' => hne (eq_of_contains hd' hd (contains_of_add h') h)

theorem anchors_eq (hc : Change pin s s') : s'.anchors = s.anchors :=
  Set.ext fun _ => hc.isSome_iff fun _ h => not_anchored h

end Change

theorem mem_pins_of_stored (hd : pin.certificate.isSome) (h : pin ∈ s.stored) : pin ∈ s.pins := by
  obtain ⟨object, hmem, hcontains⟩ := (isSome_enumerate_iff).mp h
  exact ⟨hd, (isSome_enumerate_iff).mpr ⟨object, hmem, contains_of_add hcontains⟩⟩

-- What the loop has done: it has taken away objects that it has, all of them if it succeeded.
structure Destroys (s : Tokens) (objects : List Object) (ret : Bool) (s' : Tokens) (error' : Location) : Prop where
  subset : s'.objects ⊆ s.objects
  gone   : ∀ object ∈ s.objects, object ∉ s'.objects → ∃ o ∈ objects, o.id = object.id
  every  : ret = true → ∀ object ∈ s'.objects, ∀ o ∈ objects, o.id ≠ object.id
  error  : ret = true ↔ error' = some none

theorem Destroys.cons {o : Object} (h : Destroys (s.remove o.id) objects ret s' error') :
    Destroys s (o :: objects) ret s' error' := by
  have hmem : ∀ {object}, object ∈ (s.remove o.id).objects ↔ object ∈ s.objects ∧ object.id ≠ o.id := by
    simp [Tokens.remove]
  refine ⟨fun object hobject => (hmem.mp (h.subset hobject)).1, fun object hobject hn => ?_,
    fun htrue object hobject => ?_, h.error⟩
  · by_cases hid : object.id = o.id
    case pos => exact ⟨o, List.mem_cons_self, hid.symm⟩
    case neg =>
      obtain ⟨o', ho', heq⟩ := h.gone object (hmem.mpr ⟨hobject, hid⟩) hn
      exact ⟨o', List.mem_cons_of_mem _ ho', heq⟩
  · have hne := (hmem.mp (h.subset hobject)).2
    exact List.forall_mem_cons.mpr ⟨hne.symm, h.every htrue object hobject⟩

theorem destroyAll_destroys (h : destroyAll a s objects (some none) = some (ret, s', error')) :
    Destroys s objects ret s' error' := by
  induction objects generalizing s
  case nil =>
    obtain ⟨rfl, rfl, rfl⟩ : true = ret ∧ s = s' ∧ some none = error' := by simpa [destroyAll] using h
    exact ⟨List.Subset.refl _, fun _ hmem hn => absurd hmem hn, by simp, by simp⟩
  case cons o objects ih =>
    cases hdestroyed : a.destroyed o.id
    case done =>
      rw [destroyAll, hdestroyed] at h
      exact (ih h).cons
    case gone =>
      rw [destroyAll, hdestroyed] at h
      exact (ih h).cons
    case failed e =>
      rw [destroyAll, hdestroyed] at h
      obtain ⟨rfl, rfl, rfl⟩ : false = ret ∧ s = s' ∧ some (some e.val) = error' := by simpa using h
      exact ⟨List.Subset.refl _, fun _ hmem hn => absurd hmem hn, by simp, by simp⟩

theorem destroyAll_isSome : (destroyAll a s objects (some none)).isSome := by
  induction objects generalizing s
  case nil => rfl
  case cons o objects ih => cases hdestroyed : a.destroyed o.id <;> simp [destroyAll, hdestroyed, ih]

-- An object that another process has removed does not make the loop fail.
theorem destroyAll_of_not_failed (hf : ∀ id e, a.destroyed id ≠ .failed e) :
    ∃ s', destroyAll a s objects (some none) = some (true, s', some none) := by
  induction objects generalizing s
  case nil => exact ⟨s, rfl⟩
  case cons o objects ih =>
    cases hdestroyed : a.destroyed o.id
    case done     => simpa [destroyAll, hdestroyed] using ih
    case gone     => simpa [destroyAll, hdestroyed] using ih
    case failed e => exact absurd hdestroyed (hf o.id e)

-- The objects that a search has found are destroyed.
theorem Destroys.change (h : Destroys s (s.enumerate (prepareRemovePinnedCertificate pin)) ret s' error') :
    Change pin s s' := by
  refine .removed h.subset fun object hobject hn => ?_
  obtain ⟨o, ho, hid⟩ := h.gone object hobject hn
  obtain ⟨hmem, hcontains⟩ := List.mem_filter.mp ho
  obtain rfl := Tokens.eq_of_id hmem hobject hid
  exact hcontains

theorem Destroys.not_mem_pins (h : Destroys s (s.enumerate (prepareRemovePinnedCertificate pin)) true s' error') :
    pin ∉ s'.pins := by
  rintro ⟨_, hsome⟩
  obtain ⟨object, hobject, hcontains⟩ := (isSome_enumerate_iff).mp hsome
  exact h.every rfl object hobject object (List.mem_filter.mpr ⟨h.subset hobject, hcontains⟩) rfl

end Pins

end Trust
