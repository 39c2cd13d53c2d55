import GcrModel.Gcr.CertificateRequest.Theorems.Signed

namespace CertificateRequest

open GLib Gck
open Gck.Attributes (find findBoolean setAll)
open Transition (Outcome)

variable {lib : Library} {m : Module} {self self' : Request} {key : PublicKey} {algorithm : Oid} {mechanisms : List Nat}
  {mechanism : Nat} {attrs : Attributes} {s : State}

-- The cached attributes are there without the one that is asked for, and it cannot be got.
def Module.Stale (m : Module) : Prop :=
  m.isCache = true ∧ m.cachedForCheck.isSome = true ∧ checkHaveAttributes m.cachedForCheck [ckaSign] = false ∧
    m.getFull [ckaSign] = none

instance : DecidablePred Module.Stale := fun _ => inferInstanceAs (Decidable (_ ∧ _))

-- There are attributes, and they do not tell that the key cannot sign.
def Module.maySign (m : Module) : Bool :=
  match cacheLookupFinish m [ckaSign] with
  | none       => false
  | some attrs => findBoolean attrs ckaSign ≠ some false

-- The first of the mechanisms that the slot has.
def Module.usable (m : Module) (mechanisms : List Nat) : Option Nat :=
  m.getMechanisms.bind fun mechs => mechanisms.find? (mechs.contains ·)

theorem findFirst_eq (action : Nat) : findFirstUsableMechanism m attrs mechanisms action =
    if findBoolean attrs action = some false then gckInvalid else (m.usable mechanisms).getD gckInvalid := by
  unfold findFirstUsableMechanism Module.usable
  cases m.getMechanisms
  all_goals rfl

theorem keyMechanismsCheckFinish_eq : keyMechanismsCheckFinish m mechanisms ckaSign =
    if m.maySign then (m.usable mechanisms).getD gckInvalid else gckInvalid := by
  unfold keyMechanismsCheckFinish Module.maySign
  cases cacheLookupFinish m [ckaSign]
  case none       => rfl
  case some attrs => simp [findFirst_eq, ite_not]

-- What is got of an attribute is what is found of it, in the cached attributes as well.
theorem findBoolean_setAll (hfull : m.getFull [ckaSign] = some attrs) (cached : Attributes) :
    findBoolean (setAll cached attrs) ckaSign = findBoolean attrs ckaSign := by
  have htypes := m.getFull_types _ _ hfull
  obtain ⟨attr, rfl⟩ : ∃ attr, attrs = [attr] := by
    rw [← List.length_eq_one_iff, ← List.length_map Attribute.type, htypes, List.length_singleton]
  obtain htype : attr.type = ckaSign := by simpa using htypes
  have hcached : find (setAll cached [attr]) ckaSign = some ⟨ckaSign, attr.value⟩ := by
    rw [setAll, List.foldl_cons, List.foldl_nil, htype]
    exact Gck.Attributes.find_set_self cached ckaSign attr.value
  have hattr : find [attr] ckaSign = some attr := by simp [find, htype]
  simp only [findBoolean, Attributes.findData, hcached, hattr, Option.bind_some]

-- The two checks find the same mechanism, where the attribute that is not there can be got.
theorem keyMechanismsCheck_eq : keyMechanismsCheck m mechanisms ckaSign =
    if m.Stale then gckInvalid else keyMechanismsCheckFinish m mechanisms ckaSign := by
  unfold keyMechanismsCheck keyMechanismsCheckFinish cacheLookupFinish
  dsimp only
  by_cases hcache : m.isCache = true
  case neg => simp [hcache, Module.Stale]
  by_cases hhave : checkHaveAttributes m.cachedForCheck [ckaSign] = true
  case pos =>
    obtain ⟨attrs, hattrs⟩ : ∃ attrs, m.cachedForCheck = some attrs := by
      cases hcached : m.cachedForCheck
      case none       => simp [hcached, checkHaveAttributes] at hhave
      case some attrs => exact ⟨attrs, rfl⟩
    simp [hcache, hattrs ▸ hhave, hattrs, Module.Stale]
  case neg =>
    cases hfull : m.getFull [ckaSign]
    case none =>
      cases hcached : m.cachedForCheck
      case none       => simp [hcache, hcached, hfull, Module.Stale, checkHaveAttributes]
      case some attrs => simp [hcache, hcached, hfull, Module.Stale, hcached ▸ hhave]
    case some attrs =>
      have hboolean := findBoolean_setAll hfull (m.cachedForCheck.getD [])
      simp [hcache, hhave, hfull, Module.Stale, findFirst_eq, hboolean]

theorem usable_mem {mechanisms : List Nat} (h : m.usable mechanisms = some mechanism) : mechanism ∈ mechanisms := by
  unfold Module.usable at h
  cases hmechs : m.getMechanisms
  case none       => simp [hmechs] at h
  case some mechs =>
    rw [hmechs, Option.bind_some] at h
    exact List.mem_of_find?_eq_some h

theorem gckInvalid_notMem_mechanismsOf (algorithm : Oid) : gckInvalid ∉ mechanismsOf algorithm := by
  cases algorithm
  case pkix1Sha1WithRsa => decide
  case pkix1Sha1WithDsa => decide
  all_goals exact List.not_mem_nil

-- What the asynchronous check finds, when it is a mechanism.
theorem keyMechanismsCheckFinish_ne_iff (hinvalid : gckInvalid ∉ mechanisms) :
    keyMechanismsCheckFinish m mechanisms ckaSign ≠ gckInvalid ↔
      m.maySign = true ∧ ∃ mechanism, m.usable mechanisms = some mechanism := by
  rw [keyMechanismsCheckFinish_eq]
  cases m.maySign
  case false => simp
  case true  =>
    cases husable : m.usable mechanisms
    case none           => simp
    case some mechanism =>
      have hne : mechanism ≠ gckInvalid := fun heq => hinvalid (heq ▸ usable_mem husable)
      simpa using hne

theorem keyMechanismsCheckFinish_eq_some (hsign : m.maySign = true) (husable : m.usable mechanisms = some mechanism) :
    keyMechanismsCheckFinish m mechanisms ckaSign = mechanism := by
  simp [keyMechanismsCheckFinish_eq, hsign, husable]

-- What is signed with the first mechanism that can be used, in a tree with the public key.
def Module.signature (lib : Library) (m : Module) (self : Request) (mechanisms : List Nat) : Option Bytes :=
  (m.usable mechanisms).bind fun mechanism => (prepareToBeSigned lib self mechanism).bind (m.sign mechanism)

-- A key is loaded or there is an error, and where a key may sign and gives a signature, the attribute that tells so was
-- there or was got, and the signature has bytes.
structure Plain (lib : Library) (m : Module) (request : Request) : Prop where
  load      : subjectPublicKeyLoad lib m ≠ .silent
  signature : ∀ key algorithm mechanisms self' signature, subjectPublicKeyLoad lib m = .loaded key →
    prepareSubjectPublicKeyAndMechanisms request key = some (algorithm, mechanisms, self') → m.maySign = true →
    m.signature lib self' mechanisms = some signature → ¬ m.Stale ∧ signature ≠ []

-- What the asynchronous check finds is what is signed with, where there is something.
theorem check_cases (lib : Library) (m : Module) (self : Request) (algorithm : Oid) :
    (keyMechanismsCheckFinish m (mechanismsOf algorithm) ckaSign = gckInvalid ∧
      (m.maySign = true → m.signature lib self (mechanismsOf algorithm) = none)) ∨
    ∃ mechanism tbs, keyMechanismsCheckFinish m (mechanismsOf algorithm) ckaSign = mechanism ∧ mechanism ≠ gckInvalid ∧
      m.maySign = true ∧ prepareToBeSigned lib self mechanism = some tbs ∧
      m.signature lib self (mechanismsOf algorithm) = m.sign mechanism tbs := by
  have hinvalid := gckInvalid_notMem_mechanismsOf algorithm
  by_cases hcheck : keyMechanismsCheckFinish m (mechanismsOf algorithm) ckaSign = gckInvalid
  case pos =>
    refine .inl ⟨hcheck, fun hsign => ?_⟩
    cases husable : m.usable (mechanismsOf algorithm)
    case none           => simp [Module.signature, husable]
    case some mechanism =>
      have hne := (keyMechanismsCheckFinish_ne_iff hinvalid).mpr ⟨hsign, mechanism, husable⟩
      exact absurd hcheck hne
  case neg =>
    obtain ⟨hsign, mechanism, husable⟩ := (keyMechanismsCheckFinish_ne_iff hinvalid).mp hcheck
    have hmechanism := keyMechanismsCheckFinish_eq_some hsign husable
    obtain ⟨tbs, htbs⟩ := Option.isSome_iff_exists.mp
      (toBeSigned_isSome (usable_mem husable) ((self.info lib).getD []))
    have htbs : prepareToBeSigned lib self mechanism = some tbs := htbs
    refine .inr ⟨mechanism, tbs, hmechanism, hmechanism ▸ hcheck, hsign, htbs, ?_⟩
    simp only [Module.signature, husable, htbs, Option.bind_some]

-- Whether each of the calls succeeds with a key that is loaded.
theorem complete_ret (hload : subjectPublicKeyLoad lib m = .loaded key)
    (hprepare : prepareSubjectPublicKeyAndMechanisms self key = some (algorithm, mechanisms, self')) :
    ∃ request, gcrCertificateRequestComplete lib m self =
      .ok (m.maySign && !decide m.Stale && (m.signature lib self' mechanisms).any (· ≠ []), request) := by
  obtain ⟨hself, rfl⟩ := prepare_eq hprepare
  unfold gcrCertificateRequestComplete
  simp only [hload, hprepare, keyMechanismsCheck_eq]
  by_cases hstale : m.Stale
  case pos => simp [hstale]
  obtain ⟨hcheck, hnone⟩ | ⟨mechanism, tbs, hcheck, hne, hsign, htbs, hsignature⟩ :=
    check_cases lib m self' algorithm
  · cases hsign : m.maySign
    case false => simp [hcheck]
    case true  => simp [hcheck, hnone hsign]
  · simp only [hstale, if_false, hcheck, hne, htbs, hsign, hsignature]
    rcases m.sign mechanism tbs with _ | (_ | ⟨b, bs⟩)
    all_goals simp

theorem completeAsync_ret (hload : subjectPublicKeyLoad lib m = .loaded key)
    (hprepare : prepareSubjectPublicKeyAndMechanisms self key = some (algorithm, mechanisms, self')) :
    ∃ request, completeAsync lib m self =
      .ok (m.maySign && (m.signature lib self' mechanisms).isSome, request) := by
  obtain ⟨hself, rfl⟩ := prepare_eq hprepare
  unfold completeAsync onSubjectPublicKeyLoaded onMechanismCheck onCertificateRequestSigned
  simp only [hload, hprepare]
  obtain ⟨hcheck, hnone⟩ | ⟨mechanism, tbs, hcheck, hne, hsign, htbs, hsignature⟩ :=
    check_cases lib m self' algorithm
  · cases hsign : m.maySign
    case false => simp [hcheck]
    case true  => simp [hcheck, hnone hsign]
  · simp only [if_false, hcheck, hne, htbs, hsign, hsignature]
    cases m.sign mechanism tbs
    all_goals simp

theorem alike_iff : Alike lib m self ↔ Plain lib m self := by
  have hresults : ∀ {o o' : Outcome (Bool × Request)} {ret ret' : Bool}, (∃ request, o = .ok (ret, request)) →
      (∃ request, o' = .ok (ret', request)) →
      ((∃ ret request request', o = .ok (ret, request) ∧ o' = .ok (ret, request')) ↔ ret = ret') := by
    rintro o o' ret ret' ⟨request, rfl⟩ ⟨request', rfl⟩
    simp [eq_comm]
  cases hload : subjectPublicKeyLoad lib m
  case failed =>
    refine iff_of_true ⟨false, self, self, ?_, ?_⟩ ⟨by simp [hload], by simp [hload]⟩
    · simp [gcrCertificateRequestComplete, hload]
    · simp [completeAsync, onSubjectPublicKeyLoaded, hload]
  case silent =>
    refine iff_of_false ?_ fun hp => hp.load hload
    rintro ⟨_, _, _, _, h⟩
    simp [completeAsync, onSubjectPublicKeyLoaded, hload] at h
  case loaded key =>
    cases hprepare : prepareSubjectPublicKeyAndMechanisms self key
    case none =>
      refine iff_of_true ⟨false, self, self, ?_, ?_⟩ ⟨by simp [hload], fun key' _ _ _ _ hload' hprepare' => ?_⟩
      · simp [gcrCertificateRequestComplete, hload, hprepare]
      · simp [completeAsync, onSubjectPublicKeyLoaded, hload, hprepare]
      · obtain rfl : key = key' := by simpa [hload] using hload'
        simp [hprepare] at hprepare'
    case some prepared =>
      obtain ⟨algorithm, mechanisms, self'⟩ := prepared
      refine (hresults (complete_ret hload hprepare) (completeAsync_ret hload hprepare)).trans ?_
      constructor
      · refine fun heq => ⟨by simp [hload], ?_⟩
        simp only [hload, Load.loaded.injEq]
        rintro _ _ _ _ signature rfl hprepare' hsign hsignature
        obtain ⟨rfl, rfl, rfl⟩ : algorithm = _ ∧ mechanisms = _ ∧ self' = _ := by simpa [hprepare] using hprepare'
        simpa [hsign, hsignature] using heq
      · intro hp
        cases hsign : m.maySign
        case false => rfl
        case true  =>
          cases hsignature : m.signature lib self' mechanisms
          case none           => simp
          case some signature =>
            obtain ⟨hstale, hne⟩ := hp.signature key algorithm mechanisms self' signature hload hprepare hsign hsignature
            simp [hstale, hne]

theorem capableAlike_iff : CapableAlike m ↔ m.maySign = true ∧ (m.usable allMechanisms).isSome = true := by
  have hinvalid : gckInvalid ∉ allMechanisms := by decide
  have htrue : gcrCertificateRequestCapable m = true := by
    unfold gcrCertificateRequestCapable
    rw [keyMechanismsCheck_eq]
    split
    case isTrue => rfl
    case isFalse =>
      by_cases hcheck : keyMechanismsCheckFinish m allMechanisms ckaSign = gckInvalid
      case pos => rw [hcheck]; rfl
      case neg =>
        have hmem := keyMechanismsCheckFinish_mem hcheck
        revert hmem
        generalize keyMechanismsCheckFinish m allMechanisms ckaSign = mechanism
        intro hmem
        obtain rfl | rfl | rfl | rfl : mechanism = ckmSha1RsaPkcs ∨ mechanism = ckmDsaSha1 ∨ mechanism = ckmRsaPkcs ∨
          mechanism = ckmDsa := by simpa [allMechanisms] using hmem
        all_goals rfl
  rw [CapableAlike, htrue, gcrCertificateRequestCapableFinish, eq_comm, decide_eq_true_iff,
    keyMechanismsCheckFinish_ne_iff hinvalid, Option.isSome_iff_exists]

-- A completed request is consistent when the common name is not set while it is signed, and the two ways to complete
-- one, and those to check whether one can be, come to the same where the key and the module are plain.
theorem Run.consistent_of_regular (lib : Library) :
    (∀ {key : PrivateKey} {ts : List (State × Event × State)} {s : State}, Run lib key ts s →
      (∀ t ∈ ts, Regular lib t.1 t.2.1) → s.settled = true → s.Consistent lib key) ∧
    (∀ (m : Module) (self : Request), Alike lib m self ↔ Plain lib m self) ∧
    ∀ m : Module, CapableAlike m ↔ m.maySign = true ∧ (m.usable allMechanisms).isSome = true := by
  refine ⟨fun {key ts s} r hr hsettled => ?_, fun m self => alike_iff, fun m => capableAlike_iff⟩
  have hi : Inv lib key s := (Transition.Run.restrict r hr).invariant inv_init
    fun s e s' hi hs => hi.step hs.2 hs.1
  exact hi.consistent hsettled

-- A library, and a private key with a module that has it in its cache.
def exampleLibrary : Library where
  encodeInfo cn key := cn ++ key
  sha1 data         := data
  publicKeyFor _    := some ⟨.pkix1Rsa, [], [9]⟩

def exampleKey : PrivateKey where
  publicKey   := ⟨.pkix1Rsa, [], [9]⟩
  sign _ data := data

def exampleModule : Module where
  isCache         := true
  cached          := some [⟨ckaClass, Attributes.ofUlong ckoPrivateKey⟩, ⟨ckaKeyType, Attributes.ofUlong ckkRsa⟩,
    ⟨ckaModulus, some [9]⟩, ⟨ckaPublicExponent, some [3]⟩]
  cachedForCheck  := some [⟨ckaSign, Attributes.ofBoolean true⟩]
  lookup _        := none
  findPublic _    := none
  lookupPublic _  := none
  getFull _       := none
  getFull_types   := by simp
  getMechanisms   := some [ckmSha1RsaPkcs]
  sign _ data     := some data

def exampleSignature : Signature := ⟨.pkix1Sha1WithRsa, [], [1, 9]⟩

def exampleNamed : State := { request := { subject := some [1] } }

def exampleCompleted : State :=
  { request   := { subject := some [1], subjectPKInfo := some exampleKey.publicKey, signature := some exampleSignature }
    signedFor := some [1]
    settled   := true }

theorem exampleModule_holds : exampleModule.Holds exampleLibrary exampleKey where
  load _ h     := by
    have hload : subjectPublicKeyLoad exampleLibrary exampleModule = .loaded exampleKey.publicKey := by rfl
    rw [hload] at h
    exact (Load.loaded.inj h).symm
  sign _ _ _ h := (Option.some.inj h).symm

theorem Run.next {lib : Library} {key : PrivateKey} {ts : List (State × Event × State)} {s s' : State}
    (r : Run lib key ts s) (e : Event) (hgiven : e.Given lib key) (h : after lib s e = .ok s') :
    Run lib key ((s, e, s') :: ts) s' :=
  Transition.Run.step r ⟨hgiven, h⟩

theorem Run.consistent_of_regular_completed : exampleCompleted.Consistent exampleLibrary exampleKey := by
  have r : Run exampleLibrary exampleKey
      [(exampleNamed, .complete exampleModule, exampleCompleted), ({}, .setCn [1], exampleNamed)] exampleCompleted :=
    Run.next (Run.next (.start rfl) (.setCn [1]) trivial rfl) (.complete exampleModule) exampleModule_holds rfl
  refine (Run.consistent_of_regular exampleLibrary).1 r ?_ rfl
  rintro t (_ | ⟨_, _ | ⟨_, ⟨⟩⟩⟩)
  · exact ⟨fun _ _ _ _ => rfl, by simp, by simp⟩
  · exact ⟨by simp, by simp, by simp⟩

-- The request of one name with the signature of another one.
theorem not_consistent_of_renamed
    (h : s.request = ⟨some [2], some exampleKey.publicKey, some exampleSignature⟩) :
    ¬ s.Consistent exampleLibrary exampleKey := by
  rintro ⟨cn, encoded, hcn, hencode, hinfo, mechanism, hmechanism, tbs, htbs, hbits⟩
  rw [h] at hcn hencode
  obtain rfl : [2] = cn := Option.some.inj hcn
  obtain rfl : ⟨[2, 9], exampleSignature⟩ = encoded := Option.some.inj hencode
  obtain rfl | rfl : mechanism = ckmSha1RsaPkcs ∨ mechanism = ckmRsaPkcs := by
    simpa [mechanismsOf, rsaMechanisms, exampleSignature] using hmechanism
  all_goals
    obtain rfl := Option.some.inj htbs
    exact absurd hbits (by decide)

-- A name that is set while a request is signed, a key that is in a cache without its attributes, and a slot without
-- mechanisms.
theorem Run.not_consistent :
    (∃ ts s, Run exampleLibrary exampleKey ts s ∧ s.settled = true ∧ ¬ s.Consistent exampleLibrary exampleKey) ∧
    ¬ Alike exampleLibrary { exampleModule with cachedForCheck := some [] } {} ∧
    ¬ CapableAlike { exampleModule with getMechanisms := none } := by
  refine ⟨?_, ?_, ?_⟩
  · have r : Run exampleLibrary exampleKey [] {} := .start rfl
    have r := Run.next r (.setCn [1]) trivial rfl
    have r := Run.next r (.completeAsync 0) trivial rfl
    have r := Run.next r (.loaded 0 exampleModule) exampleModule_holds rfl
    have r := Run.next r (.checked 0 exampleModule) exampleModule_holds rfl
    have r := Run.next r (.setCn [2]) trivial rfl
    have r := Run.next r (.signed 0 exampleModule) exampleModule_holds rfl
    have r := Run.next r (.finish 0 false) trivial rfl
    exact ⟨_, _, r, rfl, not_consistent_of_renamed rfl⟩
  · rintro ⟨ret, request, request', hcomplete, hasync⟩
    obtain rfl : false = ret := (Prod.mk.inj (Outcome.ok.inj hcomplete)).1
    exact absurd (Prod.mk.inj (Outcome.ok.inj hasync)).1 (by decide)
  · exact fun h => absurd h (by unfold CapableAlike; decide)

end CertificateRequest
