import GcrModel.Gcr.CertificateRequest.Request

namespace CertificateRequest

open GLib Gck
open Transition (Outcome)

variable {lib : Library} {key : PrivateKey} {m : Module} {self self' : Request} {s s' : State} {e : Event}
  {publicKey : PublicKey} {algorithm : Oid} {mechanisms : List Nat} {mechanism action i : Nat} {attrs : Attributes}
  {tbs : Bytes} {ret : Bool} {stage : Stage}

theorem findFirst_mem (h : findFirstUsableMechanism m attrs mechanisms action ≠ gckInvalid) :
    findFirstUsableMechanism m attrs mechanisms action ∈ mechanisms := by
  unfold findFirstUsableMechanism at h ⊢
  split
  case isTrue hcannot => exact absurd (if_pos hcannot) h
  case isFalse hcan =>
    rw [if_neg hcan] at h
    cases hmechs : m.getMechanisms
    case none => simp [hmechs] at h
    case some mechs =>
      simp only [hmechs] at h ⊢
      cases hfind : mechanisms.find? (mechs.contains ·)
      case none       => exact absurd (congrArg (·.getD gckInvalid) hfind) h
      case some found => exact List.mem_of_find?_eq_some hfind

theorem keyMechanismsCheck_mem (h : keyMechanismsCheck m mechanisms action ≠ gckInvalid) :
    keyMechanismsCheck m mechanisms action ∈ mechanisms := by
  unfold keyMechanismsCheck at h ⊢
  dsimp only at h ⊢
  split
  case h_1 hnone => simp [hnone] at h
  case h_2 attrs hsome =>
    rw [hsome] at h
    exact findFirst_mem h

theorem keyMechanismsCheckFinish_mem (h : keyMechanismsCheckFinish m mechanisms action ≠ gckInvalid) :
    keyMechanismsCheckFinish m mechanisms action ∈ mechanisms := by
  unfold keyMechanismsCheckFinish at h ⊢
  split
  case h_1 hnone => simp [hnone] at h
  case h_2 attrs hsome =>
    rw [hsome] at h
    exact findFirst_mem h

theorem prepare_eq
    (h : prepareSubjectPublicKeyAndMechanisms self publicKey = some (algorithm, mechanisms, self')) :
    self' = { self with subjectPKInfo := some publicKey } ∧ mechanisms = mechanismsOf algorithm := by
  unfold prepareSubjectPublicKeyAndMechanisms at h
  split at h
  all_goals
    cases h
    try exact ⟨rfl, rfl⟩

-- A mechanism of an algorithm signs something.
theorem toBeSigned_isSome (hm : mechanism ∈ mechanismsOf algorithm) (data : Bytes) :
    (toBeSigned lib mechanism data).isSome := by
  cases algorithm
  case pkix1Sha1WithRsa =>
    obtain rfl | rfl : mechanism = ckmSha1RsaPkcs ∨ mechanism = ckmRsaPkcs := by
      simpa [mechanismsOf, rsaMechanisms] using hm
    all_goals rfl
  case pkix1Sha1WithDsa =>
    obtain rfl | rfl : mechanism = ckmDsaSha1 ∨ mechanism = ckmDsa := by
      simpa [mechanismsOf, dsaMechanisms] using hm
    all_goals rfl
  all_goals simp [mechanismsOf] at hm

-- What is right of a completion in flight.
def Stage.Valid (lib : Library) (key : PrivateKey) (self : Request) : Stage → Prop
  | .loading                                             => True
  | .checking publicKey algorithm mechanisms             =>
    publicKey = key.publicKey ∧ self.subjectPKInfo = some key.publicKey ∧ mechanisms = mechanismsOf algorithm
  | .signing publicKey algorithm mechanism tbs subject   =>
    publicKey = key.publicKey ∧ self.subjectPKInfo = some key.publicKey ∧ mechanism ∈ mechanismsOf algorithm ∧
      ∀ cn, subject = some cn → toBeSigned lib mechanism (lib.encodeInfo cn key.publicKey.encoded) = some tbs
  | .returned ret                                        => ret = true → self.signature.isSome

-- The public key in the tree is that of the private key, and a signature in it is one of the information with the
-- subject that there was.
structure Inv (lib : Library) (key : PrivateKey) (s : State) : Prop where
  publicKey : ∀ publicKey, s.request.subjectPKInfo = some publicKey → publicKey = key.publicKey
  stages    : ∀ i stage, s.stages i = some stage → stage.Valid lib key s.request
  signature : ∀ signature, s.request.signature = some signature → s.request.subjectPKInfo = some key.publicKey ∧
    ∃ cn, s.signedFor = some cn ∧ key.Signs lib signature (lib.encodeInfo cn key.publicKey.encoded)
  settled   : s.settled = true → s.request.signature.isSome ∧ s.signedFor = s.request.subject

theorem Inv.consistent (hi : Inv lib key s) (hs : s.settled = true) : s.Consistent lib key := by
  obtain ⟨hsome, hsubject⟩ := hi.settled hs
  obtain ⟨signature, hsignature⟩ := Option.isSome_iff_exists.mp hsome
  obtain ⟨hpublicKey, cn, hcn, hsigns⟩ := hi.signature signature hsignature
  have hcn : s.request.subject = some cn := hsubject.symm.trans hcn
  refine ⟨cn, ⟨lib.encodeInfo cn key.publicKey.encoded, signature⟩, hcn, ?_, rfl, hsigns⟩
  simp [gcrCertificateRequestEncode, Request.info, hcn, hpublicKey, hsignature]

theorem Stage.Valid.mono (hv : stage.Valid lib key self)
    (hpublicKey : self.subjectPKInfo = some key.publicKey → self'.subjectPKInfo = some key.publicKey)
    (hsignature : self.signature.isSome → self'.signature.isSome) : stage.Valid lib key self' := by
  cases stage
  case loading  => trivial
  case checking => exact ⟨hv.1, hpublicKey hv.2.1, hv.2.2⟩
  case signing  => exact ⟨hv.1, hpublicKey hv.2.1, hv.2.2⟩
  case returned => exact fun h => hsignature (hv h)

-- The bytes that are signed are of the information that is in the tree.
theorem prepare_toBeSigned (hpublicKey : self.subjectPKInfo = some publicKey)
    {cn : Bytes} (hcn : self.subject = some cn) (h : prepareToBeSigned lib self mechanism = some tbs) :
    toBeSigned lib mechanism (lib.encodeInfo cn publicKey.encoded) = some tbs := by
  simpa [prepareToBeSigned, Request.info, hcn, hpublicKey] using h

theorem signs_of_sign (hh : m.Holds lib key) (hm : mechanism ∈ mechanismsOf algorithm) {bits info parameters : Bytes}
    (htbs : toBeSigned lib mechanism info = some tbs) (hsign : m.sign mechanism tbs = some bits) :
    key.Signs lib ⟨algorithm, parameters, bits⟩ info :=
  ⟨mechanism, hm, tbs, htbs, hh.sign mechanism tbs bits hsign⟩

-- What a synchronous completion does to the tree.
theorem complete_cases (hh : m.Holds lib key) (h : gcrCertificateRequestComplete lib m self = .ok (ret, self')) :
    (ret = false ∧ (self' = self ∨ self' = { self with subjectPKInfo := some key.publicKey })) ∨
      ret = true ∧ ∃ signature, self' = { self with subjectPKInfo := some key.publicKey, signature := some signature } ∧
        ∀ cn, self.subject = some cn → key.Signs lib signature (lib.encodeInfo cn key.publicKey.encoded) := by
  unfold gcrCertificateRequestComplete at h
  split at h
  · obtain ⟨rfl, rfl⟩ := Prod.mk.inj (Outcome.ok.inj h)
    exact .inl ⟨rfl, .inl rfl⟩
  · obtain ⟨rfl, rfl⟩ := Prod.mk.inj (Outcome.ok.inj h)
    exact .inl ⟨rfl, .inl rfl⟩
  case h_3 publicKey hload =>
    obtain rfl := hh.load publicKey hload
    split at h
    · obtain ⟨rfl, rfl⟩ := Prod.mk.inj (Outcome.ok.inj h)
      exact .inl ⟨rfl, .inl rfl⟩
    case h_2 algorithm mechanisms self₁ hprepare =>
      obtain ⟨rfl, rfl⟩ := prepare_eq hprepare
      dsimp only at h
      split at h
      · obtain ⟨rfl, rfl⟩ := Prod.mk.inj (Outcome.ok.inj h)
        exact .inl ⟨rfl, .inr rfl⟩
      case isFalse hmechanism =>
        have hm := keyMechanismsCheck_mem hmechanism
        split at h
        · cases h
        case h_2 tbs htbs =>
          split at h
          · obtain ⟨rfl, rfl⟩ := Prod.mk.inj (Outcome.ok.inj h)
            exact .inl ⟨rfl, .inr rfl⟩
          · obtain ⟨rfl, rfl⟩ := Prod.mk.inj (Outcome.ok.inj h)
            exact .inl ⟨rfl, .inr rfl⟩
          case h_3 bits _ hsign =>
            obtain ⟨rfl, rfl⟩ := Prod.mk.inj (Outcome.ok.inj h)
            refine .inr ⟨rfl, _, rfl, fun cn hcn => ?_⟩
            let info : Request := { self with subjectPKInfo := some key.publicKey }
            have hinfo := @prepare_toBeSigned lib info _ _ _ rfl cn hcn htbs
            exact signs_of_sign hh hm hinfo hsign

theorem State.put_stages {j : Nat} {stage : Option Stage} :
    (s.put i stage).stages j = if j = i then stage else s.stages j :=
  Function.update_apply _ _ _ _

theorem inv_init : ∀ s : State, s = {} → Inv lib key s := by
  rintro _ rfl
  exact ⟨by simp, by simp, by simp, by simp⟩

theorem Inv.put (hi : Inv lib key s) {stage : Option Stage}
    (hv : ∀ st, stage = some st → st.Valid lib key s.request) : Inv lib key (s.put i stage) where
  publicKey := hi.publicKey
  stages    := fun j st hst => by
    rw [State.put_stages] at hst
    split at hst
    · exact hv st hst
    · exact hi.stages j st hst
  signature := hi.signature
  settled   := hi.settled

-- The public key that is put in the tree is the one that is there, if there is one.
theorem Inv.publish (hi : Inv lib key s) :
    Inv lib key { s with request := { s.request with subjectPKInfo := some key.publicKey } } where
  publicKey := fun _ h => (Option.some.inj h).symm
  stages    := fun j st hst => (hi.stages j st hst).mono (fun _ => rfl) id
  signature := fun signature h => ⟨rfl, (hi.signature signature h).2⟩
  settled   := hi.settled

theorem Inv.setCn (hi : Inv lib key s) (cn : Bytes) :
    Inv lib key { s with request := gcrCertificateRequestSetCn s.request cn, settled := false } where
  publicKey := hi.publicKey
  stages    := fun j st hst => (hi.stages j st hst).mono id id
  signature := hi.signature
  settled   := fun h => by simp at h

theorem Inv.settle (hi : Inv lib key s) {settled : Bool}
    (h : settled = true → s.request.signature.isSome ∧ s.signedFor = s.request.subject) :
    Inv lib key { s with settled := settled } where
  publicKey := hi.publicKey
  stages    := hi.stages
  signature := hi.signature
  settled   := h

-- A signature of the information that is in the tree is put into it.
theorem Inv.sign (hi : Inv lib key s) {signature : Signature} {cn : Bytes} (hcn : s.request.subject = some cn)
    (hsigns : key.Signs lib signature (lib.encodeInfo cn key.publicKey.encoded)) :
    Inv lib key { s with
      request   := { s.request with subjectPKInfo := some key.publicKey, signature := some signature }
      signedFor := s.request.subject } where
  publicKey := fun _ h => (Option.some.inj h).symm
  stages    := fun j st hst => (hi.stages j st hst).mono (fun _ => rfl) fun _ => rfl
  signature := fun signature' h => by
    obtain rfl := Option.some.inj h
    exact ⟨rfl, cn, hcn, hsigns⟩
  settled   := fun _ => ⟨rfl, rfl⟩

-- What becomes of a completion when the public key is loaded.
theorem loaded_cases (hh : m.Holds lib key) (h : onSubjectPublicKeyLoaded lib m self = .ok (stage, self')) :
    stage.Valid lib key self' ∧ (self' = self ∨ self' = { self with subjectPKInfo := some key.publicKey }) := by
  unfold onSubjectPublicKeyLoaded at h
  split at h
  · obtain ⟨rfl, rfl⟩ := Prod.mk.inj (Outcome.ok.inj h)
    exact ⟨by simp [Stage.Valid], .inl rfl⟩
  · cases h
  case h_3 publicKey hload =>
    obtain rfl := hh.load publicKey hload
    split at h
    · obtain ⟨rfl, rfl⟩ := Prod.mk.inj (Outcome.ok.inj h)
      exact ⟨by simp [Stage.Valid], .inl rfl⟩
    case h_2 algorithm mechanisms self₁ hprepare =>
      obtain ⟨rfl, rfl⟩ := prepare_eq hprepare
      obtain ⟨rfl, rfl⟩ := Prod.mk.inj (Outcome.ok.inj h)
      exact ⟨⟨rfl, rfl, rfl⟩, .inr rfl⟩

theorem checked_valid (hv : (Stage.checking publicKey algorithm mechanisms).Valid lib key self)
    (h : onMechanismCheck lib m self publicKey algorithm mechanisms = .ok stage) : stage.Valid lib key self := by
  obtain ⟨rfl, hpublicKey, rfl⟩ := hv
  unfold onMechanismCheck at h
  dsimp only at h
  split at h
  · obtain rfl := Outcome.ok.inj h
    simp [Stage.Valid]
  case isFalse hmechanism =>
    split at h
    · cases h
    case h_2 tbs htbs =>
      obtain rfl := Outcome.ok.inj h
      exact ⟨rfl, hpublicKey, keyMechanismsCheckFinish_mem hmechanism, fun cn hcn =>
        prepare_toBeSigned hpublicKey hcn htbs⟩

-- What a step keeps when the subject is still the one that was encoded.
theorem Inv.step (hi : Inv lib key s) (hr : Regular lib s e) (h : Step lib key s e s') : Inv lib key s' := by
  obtain ⟨hgiven, h⟩ := h
  cases e
  case setCn cn =>
    obtain rfl := Outcome.ok.inj h
    exact hi.setCn cn
  case complete m =>
    simp only [after] at h
    split at h
    case h_2 => cases h
    case h_1 ret request hcomplete =>
      obtain rfl := Outcome.ok.inj h
      obtain ⟨rfl, hsame⟩ | ⟨rfl, signature, rfl, hsigns⟩ := complete_cases hgiven hcomplete
      · have hi := hi.settle fun h : false = true => by simp at h
        obtain rfl | rfl := hsame
        · exact hi
        · exact hi.publish
      · obtain ⟨cn, hcn⟩ := Option.isSome_iff_exists.mp (hr.complete m _ rfl hcomplete)
        exact (hi.sign hcn (hsigns cn hcn)).settle fun _ => ⟨rfl, rfl⟩
  case completeAsync i =>
    simp only [after] at h
    split at h
    · cases h
    · obtain rfl := Outcome.ok.inj h
      exact hi.put fun st hst => by
        obtain rfl := Option.some.inj hst
        trivial
  case loaded i m =>
    simp only [after] at h
    split at h
    case h_2 => cases h
    case h_1 hstage =>
      split at h
      case h_2 => cases h
      case h_1 stage request hloaded =>
        obtain rfl := Outcome.ok.inj h
        obtain ⟨hv, rfl | rfl⟩ := loaded_cases hgiven hloaded
        · exact hi.put fun st hst => Option.some.inj hst ▸ hv
        · exact hi.publish.put fun st hst => Option.some.inj hst ▸ hv
  case checked i m =>
    simp only [after] at h
    split at h
    case h_2 => cases h
    case h_1 publicKey algorithm mechanisms hstage =>
      split at h
      case h_2 => cases h
      case h_1 stage hchecked =>
        obtain rfl := Outcome.ok.inj h
        have hv := checked_valid (hi.stages i _ hstage) hchecked
        exact hi.put fun st hst => Option.some.inj hst ▸ hv
  case signed i m =>
    simp only [after] at h
    split at h
    case h_2 => cases h
    case h_1 publicKey algorithm mechanism tbs subject hstage =>
      obtain ⟨rfl, hpublicKey, hm, htbs⟩ := hi.stages i _ hstage
      unfold onCertificateRequestSigned at h
      split at h
      · obtain rfl := Outcome.ok.inj h
        exact hi.put fun st hst => by
          obtain rfl := Option.some.inj hst
          simp [Stage.Valid]
      case h_2 bits hsign =>
        obtain rfl := Outcome.ok.inj h
        obtain ⟨hsome, rfl⟩ := hr.signed i m _ _ _ _ _ rfl hstage (hsign ▸ rfl)
        obtain ⟨cn, hcn⟩ := Option.isSome_iff_exists.mp hsome
        have hsigns : key.Signs lib ⟨algorithm, key.publicKey.parameters, bits⟩ _ :=
          signs_of_sign hgiven hm (htbs cn hcn) hsign
        have hi := hi.sign hcn hsigns
        rw [← hpublicKey] at hi
        exact hi.put fun st hst => by
          obtain rfl := Option.some.inj hst
          exact fun _ => rfl
  case finish i cancelled =>
    simp only [after] at h
    split at h
    case h_2 => cases h
    case h_1 ret hstage =>
      obtain rfl := Outcome.ok.inj h
      have hi' : Inv lib key (s.put i none) := hi.put fun st hst => by cases hst
      refine hi'.settle fun hsettled => ?_
      obtain ⟨rfl, rfl⟩ : ret = true ∧ cancelled = false := by simpa using hsettled
      exact ⟨hi.stages i _ hstage rfl, hr.finish i rfl hstage⟩

end CertificateRequest
