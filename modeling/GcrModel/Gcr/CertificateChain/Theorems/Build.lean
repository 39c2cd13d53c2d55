import Mathlib.Data.List.Chain
import GcrModel.Gcr.CertificateChain.Chain
import GcrModel.Library.SwapRemove

namespace CertificateChain

open GLib

open scoped List

theorem removeIndexFast_eq (certificates : List Certificate) (i : Nat) :
    removeIndexFast certificates i = SwapRemove.remove certificates i := by
  rw [removeIndexFast, SwapRemove.remove]
  cases certificates.getLast? with
  | none   => rfl
  | some _ => rfl

theorem removeIndexFast_perm {certificates : List Certificate} {certificate : Certificate} {i : Nat}
    (h : certificates[i]? = some certificate) :
    certificates.Perm (certificate :: removeIndexFast certificates i) := by
  rw [removeIndexFast_eq]
  exact SwapRemove.remove_perm h

section Pop

variable {env : Lookups} {certificates rest : List Certificate} {issued : Option Certificate} {certificate : Certificate}

theorem popCertificate_eq_some (h : popCertificate env certificates issued = some (certificate, rest)) :
    certificates.Perm (certificate :: rest) ∧ ∀ c ∈ issued, isIssuer env c.object certificate.object := by
  rw [popCertificate] at h
  split at h
  case h_1 => simp at h
  case h_2 i hi =>
    obtain ⟨_, hget, heq⟩ := Option.map_eq_some_iff.mp h
    obtain ⟨rfl, rfl⟩ := Prod.mk.inj heq
    obtain ⟨hlt, hp, -⟩ := List.findIdx?_eq_some_iff_getElem.mp hi
    have hget' := (List.getElem?_eq_some_iff.mp hget).2
    refine ⟨removeIndexFast_perm hget, fun c hc => ?_⟩
    rw [hget', Option.all_eq_true] at hp
    exact hp c hc

theorem popCertificate_eq_none (h : popCertificate env certificates (some certificate) = none) :
    ∀ c ∈ certificates, isIssuer env certificate.object c.object = false := by
  rw [popCertificate] at h
  split at h
  case h_1 hi =>
    intro c hc
    simpa using List.findIdx?_eq_none_iff.mp hi c hc
  case h_2 i hi =>
    obtain ⟨hlt, -, -⟩ := List.findIdx?_eq_some_iff_getElem.mp hi
    simp [hlt] at h

theorem popCertificate_none : popCertificate env certificates none =
    certificates.head?.map fun first => (first, removeIndexFast certificates 0) := by
  cases certificates
  case nil => rfl
  case cons first others => simp [popCertificate, List.findIdx?_cons]

end Pop

def ChainPrivate.objects (pv : ChainPrivate) : List Object :=
  pv.certificates.map (·.object)

-- The next certificate in a chain.
def Follows (env : Lookups) (lookups : Bool) (issued certificate : Object) : Prop :=
  isIssuer env issued certificate ∨ lookups ∧ env.lookupIssuer issued.der = .ok (some certificate)

-- The certificates of a chain are popped from the input, of which the rest is left, or looked up.
structure Origin (env : Lookups) (lookups : Bool) (input chain popped found rest : List Object) : Prop where
  taken  : chain.Perm (popped ++ found)
  left   : input.Perm (popped ++ rest)
  lookup : ∀ c ∈ found, lookups ∧ ∃ issued ∈ chain, env.lookupIssuer issued.der = .ok (some c)

-- What a chain and its status are after it was built from the input.
structure Built (env : Lookups) (lookups : Bool) (purpose peer : Option String) (input chain : List Object)
    (status : Status) : Prop where
  first      : chain.head? = input.head?
  links      : chain.IsChain (Follows env lookups)
  pinned     : status = .pinned ↔ lookups ∧ ∃ c name, chain = [c] ∧ peer = some name ∧
    env.isCertificatePinned c.der purpose name = .ok true
  anchored   : status = .anchored ↔ lookups ∧ ∃ c, chain.tail.getLast? = some c ∧
    env.isCertificateAnchored c.der purpose = .ok true
  noAnchor   : lookups → ∀ c ∈ chain.tail.dropLast, env.isCertificateAnchored c.der purpose = .ok false
  selfsigned : status = .selfsigned ↔ status ≠ .pinned ∧ status ≠ .anchored ∧
    ∃ c, chain.getLast? = some c ∧ isIssuer env c c
  origin     : ∃ popped found rest, Origin env lookups input chain popped found rest ∧
    (status = .incomplete ↔ status ≠ .pinned ∧ status ≠ .anchored ∧
      ∃ c, chain.getLast? = some c ∧ ¬isIssuer env c c ∧ (∀ d ∈ rest, ¬isIssuer env c d) ∧
        (lookups → env.lookupIssuer c.der = .ok none))
  noLookups  : lookups = false → (status = .selfsigned ∨ status = .incomplete) ∧ ∃ rest, input.Perm (chain ++ rest)

-- The state in a round of the loop.
structure Progress (env : Lookups) (pv : ChainPrivate) (b : Build) : Prop where
  purpose : b.pv.purpose = pv.purpose
  flags   : b.pv.flags = pv.flags
  first   : b.pv.objects.head? = pv.objects.head?
  last    : b.pv.objects.getLast? = some b.certificate.object
  links   : b.pv.objects.IsChain (Follows env pv.lookups)
  anchors : pv.lookups → ∀ c ∈ b.pv.objects.tail, env.isCertificateAnchored c.der pv.purpose = .ok false
  origin  : ∃ popped found, Origin env pv.lookups pv.objects b.pv.objects popped found (b.input.map (·.object))

variable {env : Lookups} {pv pv' : ChainPrivate} {b b' : Build} {certificate : Certificate} {input : List Certificate}

theorem nextCertificate_eq_some (h : nextCertificate env b = .ok (some (certificate, input))) :
    (b.input.Perm (certificate :: input) ∧ isIssuer env b.certificate.object certificate.object) ∨
    (b.input = input ∧ b.pv.lookups ∧ env.lookupIssuer b.certificate.object.der = .ok (some certificate.object)) := by
  rw [nextCertificate] at h
  split at h
  case h_1 c rest hpop =>
    obtain ⟨rfl, rfl⟩ := Prod.mk.inj (Option.some.inj (Except.ok.inj h))
    obtain ⟨hperm, hissuer⟩ := popCertificate_eq_some hpop
    exact .inl ⟨hperm, hissuer _ rfl⟩
  case h_2 hpop =>
    split at h
    case isTrue hl =>
      split at h <;> simp at h
      case h_3 object ho =>
        obtain ⟨rfl, rfl⟩ := h
        exact .inr ⟨rfl, hl, ho⟩
    case isFalse => simp at h

theorem nextCertificate_eq_none (h : nextCertificate env b = .ok none) :
    (∀ d ∈ b.input, isIssuer env b.certificate.object d.object = false) ∧
    (b.pv.lookups → env.lookupIssuer b.certificate.object.der = .ok none) := by
  rw [nextCertificate] at h
  split at h
  case h_1 => simp at h
  case h_2 hpop =>
    refine ⟨popCertificate_eq_none hpop, fun hl => ?_⟩
    rw [if_pos hl] at h
    split at h <;> simp at h
    case h_2 ho => exact ho

theorem buildRound_eq_inr (h : buildRound env b = .inr b') :
    isIssuer env b.certificate.object b.certificate.object = false ∧
    nextCertificate env b = .ok (some (b'.certificate, b'.input)) ∧
    b'.pv = { b.pv with certificates := b.pv.certificates ++ [b'.certificate] } ∧
    (b.pv.lookups → env.isCertificateAnchored b'.certificate.object.der b.pv.purpose = .ok false) := by
  rw [buildRound] at h
  split at h
  case isTrue => simp at h
  case isFalse hself =>
    split at h
    case h_1 => simp at h
    case h_2 => simp at h
    case h_3 certificate input hnext =>
      dsimp only at h
      split at h
      case isTrue hl =>
        split at h <;> simp at h
        case h_3 ha =>
          subst h
          exact ⟨by simpa using hself, hnext, rfl, fun _ => ha⟩
      case isFalse hl =>
        obtain rfl := Sum.inr.inj h
        exact ⟨by simpa using hself, hnext, rfl, fun hl' => absurd hl' hl⟩

theorem buildRound_of_next (hself : isIssuer env b.certificate.object b.certificate.object = false)
    (hnext : nextCertificate env b = .ok (some (certificate, input)))
    (ha : b.pv.lookups → env.isCertificateAnchored certificate.object.der b.pv.purpose = .ok false) :
    buildRound env b =
      .inr ⟨{ b.pv with certificates := b.pv.certificates ++ [certificate] }, input, certificate⟩ := by
  rw [buildRound, if_neg (by simp [hself]), hnext]
  dsimp only
  split
  case isTrue hl => rw [ha hl]
  case isFalse => rfl

-- The ways in which the loop ends without an error.
theorem buildRound_eq_inl (h : buildRound env b = .inl (.ok pv)) :
    (isIssuer env b.certificate.object b.certificate.object ∧ pv = { b.pv with status := .selfsigned }) ∨
    (isIssuer env b.certificate.object b.certificate.object = false ∧ nextCertificate env b = .ok none ∧
      pv = { b.pv with status := .incomplete }) ∨
    ∃ certificate input, isIssuer env b.certificate.object b.certificate.object = false ∧
      nextCertificate env b = .ok (some (certificate, input)) ∧ b.pv.lookups ∧
      env.isCertificateAnchored certificate.object.der b.pv.purpose = .ok true ∧
      pv = { b.pv with certificates := b.pv.certificates ++ [certificate], status := .anchored } := by
  rw [buildRound] at h
  split at h
  case isTrue hself =>
    obtain rfl := Except.ok.inj (Sum.inl.inj h)
    exact .inl ⟨hself, rfl⟩
  case isFalse hself =>
    rw [Bool.not_eq_true] at hself
    split at h
    case h_1 => simp at h
    case h_2 hnext =>
      obtain rfl := Except.ok.inj (Sum.inl.inj h)
      exact .inr (.inl ⟨hself, hnext, rfl⟩)
    case h_3 certificate input hnext =>
      dsimp only at h
      split at h
      case isTrue hl =>
        split at h <;> simp at h
        case h_2 ha =>
          subst h
          exact .inr (.inr ⟨certificate, input, hself, hnext, hl, ha, rfl⟩)
      case isFalse => simp at h

-- The certificates and the rest of the input after the next certificate was added to the chain.
theorem Origin.next {lookups : Bool} {inputs objects popped found : List Object}
    (o : Origin env lookups inputs objects popped found (b.input.map (·.object)))
    (hlookups : b.pv.lookups = lookups) (hmem : b.certificate.object ∈ objects)
    (h : nextCertificate env b = .ok (some (certificate, input))) :
    ∃ popped found, Origin env lookups inputs (objects ++ [certificate.object]) popped found (input.map (·.object)) := by
  have hweak : ∀ c ∈ found, lookups ∧ ∃ issued ∈ objects ++ [certificate.object],
      env.lookupIssuer issued.der = .ok (some c) := by
    intro c hc
    obtain ⟨hl, issued, hi, hissued⟩ := o.lookup c hc
    exact ⟨hl, issued, List.mem_append_left _ hi, hissued⟩
  rcases nextCertificate_eq_some h with ⟨hperm, -⟩ | ⟨rfl, hl, hfound⟩
  · refine ⟨popped ++ [certificate.object], found, ?_, ?_, hweak⟩
    · calc objects ++ [certificate.object]
        _ ~ popped ++ found ++ [certificate.object] := o.taken.append_right _
        _ ~ popped ++ [certificate.object] ++ found := by
          rw [List.append_assoc, List.append_assoc]
          exact (List.perm_append_comm).append_left _
    · calc inputs
        _ ~ popped ++ b.input.map (·.object) := o.left
        _ ~ popped ++ (certificate.object :: input.map (·.object)) := (hperm.map (·.object)).append_left _
        _ = popped ++ [certificate.object] ++ input.map (·.object) := by simp
  · refine ⟨popped, found ++ [certificate.object], ?_, o.left, ?_⟩
    · rw [← List.append_assoc]
      exact o.taken.append_right _
    · intro c hc
      rcases List.mem_append.mp hc with hc | hc
      · exact hweak c hc
      · obtain rfl := List.mem_singleton.mp hc
        exact ⟨hlookups ▸ hl, b.certificate.object, List.mem_append_left _ hmem, hfound⟩

theorem ChainPrivate.objects_append (pv : ChainPrivate) (certificate : Certificate) :
    ChainPrivate.objects { pv with certificates := pv.certificates ++ [certificate] } =
      pv.objects ++ [certificate.object] := by
  simp [objects]

theorem nextCertificate_follows (h : nextCertificate env b = .ok (some (certificate, input))) :
    Follows env b.pv.lookups b.certificate.object certificate.object := by
  rcases nextCertificate_eq_some h with ⟨-, hi⟩ | ⟨-, hl⟩
  · exact .inl hi
  · exact .inr hl

namespace Progress

theorem lookups (p : Progress env pv b) : b.pv.lookups = pv.lookups := by
  rw [ChainPrivate.lookups, ChainPrivate.lookups, p.flags]

theorem ne_nil (p : Progress env pv b) : b.pv.objects ≠ [] := by
  intro h
  simpa [h] using p.last

theorem mem (p : Progress env pv b) : b.certificate.object ∈ b.pv.objects :=
  List.mem_of_getLast? p.last

theorem links_append (p : Progress env pv b) (h : nextCertificate env b = .ok (some (certificate, input))) :
    (b.pv.objects ++ [certificate.object]).IsChain (Follows env pv.lookups) := by
  refine List.isChain_append.mpr ⟨p.links, .singleton _, ?_⟩
  intro c hc d hd
  rw [p.last, Option.mem_some_iff] at hc
  rw [List.head?_cons, Option.mem_some_iff] at hd
  subst hc hd
  exact p.lookups ▸ nextCertificate_follows h

theorem first_append (p : Progress env pv b) (object : Object) :
    (b.pv.objects ++ [object]).head? = pv.objects.head? := by
  rw [List.head?_append_of_ne_nil _ p.ne_nil, p.first]

theorem tail_append (p : Progress env pv b) (object : Object) :
    (b.pv.objects ++ [object]).tail = b.pv.objects.tail ++ [object] :=
  List.tail_append_of_ne_nil p.ne_nil

theorem next (p : Progress env pv b) (h : buildRound env b = .inr b') : Progress env pv b' := by
  obtain ⟨-, hnext, hpv, hanchor⟩ := buildRound_eq_inr h
  obtain ⟨popped, found, ho⟩ := p.origin
  have hobjects : b'.pv.objects = b.pv.objects ++ [b'.certificate.object] :=
    hpv ▸ b.pv.objects_append b'.certificate
  refine ⟨by rw [hpv, ← p.purpose], by rw [hpv, ← p.flags], ?_, ?_, ?_, ?_, ?_⟩
  · rw [hobjects, p.first_append]
  · rw [hobjects, List.getLast?_concat]
  · exact hobjects ▸ p.links_append hnext
  · rw [hobjects, p.tail_append]
    intro hl c hc
    rcases List.mem_append.mp hc with hc | hc
    · exact p.anchors hl c hc
    · rw [List.mem_singleton.mp hc, ← p.purpose]
      exact hanchor (p.lookups ▸ hl)
  · exact hobjects ▸ ho.next p.lookups p.mem hnext

-- No certificate of the chain is an anchor as long as the loop goes on.
theorem not_anchored (p : Progress env pv b) :
    ¬(pv.lookups ∧ ∃ c, b.pv.objects.tail.getLast? = some c ∧ env.isCertificateAnchored c.der pv.purpose = .ok true) := by
  rintro ⟨hl, c, hc, ha⟩
  rw [p.anchors hl c (List.mem_of_getLast? hc)] at ha
  simp at ha

end Progress

theorem Origin.perm {lookups : Bool} {inputs objects popped found rest : List Object}
    (o : Origin env lookups inputs objects popped found rest) (h : lookups = false) : inputs ~ objects ++ rest := by
  have hfound : found = [] := by
    refine List.eq_nil_iff_forall_not_mem.mpr fun c hc => ?_
    have hl := (o.lookup c hc).1
    simp [h] at hl
  have htaken := o.taken
  rw [hfound, List.append_nil] at htaken
  exact o.left.trans (htaken.symm.append_right _)

-- The first certificate is not pinned for the peer.
def NotPinned (env : Lookups) (pv : ChainPrivate) : Prop :=
  pv.lookups → ∀ c ∈ pv.objects.head?, ∀ name ∈ pv.peer, env.isCertificatePinned c.der pv.purpose name = .ok false

theorem NotPinned.not (h : NotPinned env pv) {objects : List Object} (hfirst : objects.head? = pv.objects.head?) :
    ¬(pv.lookups ∧ ∃ c name, objects = [c] ∧ pv.peer = some name ∧
      env.isCertificatePinned c.der pv.purpose name = .ok true) := by
  rintro ⟨hl, c, name, rfl, hname, hp⟩
  rw [h hl c hfirst.symm name hname] at hp
  simp at hp

-- What the loop leaves behind is as described.
theorem Progress.built (p : Progress env pv b) (hpin : NotPinned env pv) (h : buildRound env b = .inl (.ok pv')) :
    Built env pv.lookups pv.purpose pv.peer pv.objects pv'.objects pv'.status := by
  obtain ⟨popped, found, ho⟩ := p.origin
  rcases buildRound_eq_inl h with ⟨hself, rfl⟩ | ⟨hself, hnext, rfl⟩ | ⟨c, input, hself, hnext, hl, ha, rfl⟩
  case inl =>
    exact {
      first := p.first
      links := p.links
      pinned := ⟨Status.noConfusion, fun h' => absurd h' (hpin.not p.first)⟩
      anchored := ⟨Status.noConfusion, fun h' => absurd h' p.not_anchored⟩
      noAnchor := fun hl c hc => p.anchors hl c (List.mem_of_mem_dropLast hc)
      selfsigned := ⟨fun _ => ⟨Status.noConfusion, Status.noConfusion, _, p.last, hself⟩, fun _ => rfl⟩
      origin := by
        refine ⟨popped, found, _, ho, Status.noConfusion, ?_⟩
        rintro ⟨-, -, c, hc, hnot, -⟩
        obtain rfl := Option.some.inj (p.last.symm.trans hc)
        exact absurd hself hnot
      noLookups := fun hl => ⟨.inl rfl, _, ho.perm hl⟩
    }
  case inr.inl =>
    have hnone := nextCertificate_eq_none hnext
    exact {
      first := p.first
      links := p.links
      pinned := ⟨Status.noConfusion, fun h' => absurd h' (hpin.not p.first)⟩
      anchored := ⟨Status.noConfusion, fun h' => absurd h' p.not_anchored⟩
      noAnchor := fun hl c hc => p.anchors hl c (List.mem_of_mem_dropLast hc)
      selfsigned := by
        refine ⟨Status.noConfusion, ?_⟩
        rintro ⟨-, -, c, hc, hself'⟩
        obtain rfl := Option.some.inj (p.last.symm.trans hc)
        simp [hself] at hself'
      origin := by
        refine ⟨popped, found, _, ho, fun _ => ⟨Status.noConfusion, Status.noConfusion, _, p.last, by simp [hself], ?_, ?_⟩, fun _ => rfl⟩
        · intro d hd
          obtain ⟨certificate, hc, rfl⟩ := List.mem_map.mp hd
          simpa using hnone.1 certificate hc
        · exact p.lookups ▸ hnone.2
      noLookups := fun hl => ⟨.inr rfl, _, ho.perm hl⟩
    }
  case inr.inr =>
    have hl' : pv.lookups = true := p.lookups ▸ hl
    rw [p.purpose] at ha
    have hobjects : ChainPrivate.objects { b.pv with certificates := b.pv.certificates ++ [c], status := .anchored } =
        b.pv.objects ++ [c.object] := b.pv.objects_append c
    obtain ⟨popped, found, ho⟩ := ho.next p.lookups p.mem hnext
    rw [hobjects]
    exact {
      first := p.first_append c.object
      links := p.links_append hnext
      pinned := ⟨Status.noConfusion, fun h' => absurd h' (hpin.not (p.first_append c.object))⟩
      anchored := by
        refine ⟨fun _ => ⟨hl', c.object, ?_, ha⟩, fun _ => rfl⟩
        rw [p.tail_append, List.getLast?_concat]
      noAnchor := by
        rw [p.tail_append, List.dropLast_concat]
        exact p.anchors
      selfsigned := ⟨Status.noConfusion, fun h' => absurd rfl h'.2.1⟩
      origin := ⟨popped, found, _, ho, Status.noConfusion, fun h' => absurd rfl h'.2.1⟩
      noLookups := fun hl => by simp [hl'] at hl
    }

theorem Progress.start {first : Certificate} (hfirst : pv.certificates.head? = some first)
    (hpop : pv.certificates ~ first :: input) :
    Progress env pv ⟨{ pv with certificates := [first], status := .unknown }, input, first⟩ where
  purpose := rfl
  flags := rfl
  first := by simp [ChainPrivate.objects, hfirst]
  last := rfl
  links := .singleton _
  anchors _ c hc := by simp [ChainPrivate.objects] at hc
  origin := by
    refine ⟨[first.object], [], .refl _, ?_, fun _ hc => by simp at hc⟩
    simpa [ChainPrivate.objects] using hpop.map (·.object)

theorem isPinned_eq_true (h : isPinned env pv certificate = .ok true) :
    pv.lookups ∧ ∃ name, pv.peer = some name ∧
      env.isCertificatePinned certificate.object.der pv.purpose name = .ok true := by
  rw [isPinned] at h
  split at h
  case h_1 name hl hpeer => exact ⟨hl, name, hpeer, h⟩
  case h_2 => simp at h

theorem isPinned_eq_false {first : Certificate} (hfirst : pv.certificates.head? = some first)
    (h : isPinned env { pv with certificates := [first], status := .unknown } first = .ok false) : NotPinned env pv := by
  intro hl c hc name hname
  obtain rfl : first.object = c := by simpa [ChainPrivate.objects, hfirst] using hc
  have hl' : ChainPrivate.lookups { pv with certificates := [first], status := .unknown } = true := hl
  rw [isPinned, hl', Option.mem_def.mp hname] at h
  exact h

-- A pinned certificate truncates the chain.
theorem Built.of_pinned {first : Certificate} {name : String} (hfirst : pv.certificates.head? = some first)
    (hpop : pv.certificates ~ first :: input) (hl : pv.lookups) (hname : pv.peer = some name)
    (hpin : env.isCertificatePinned first.object.der pv.purpose name = .ok true) :
    Built env pv.lookups pv.purpose pv.peer pv.objects [first.object] .pinned where
  first := by simp [ChainPrivate.objects, hfirst]
  links := .singleton _
  pinned := ⟨fun _ => ⟨hl, _, _, rfl, hname, hpin⟩, fun _ => rfl⟩
  anchored := ⟨Status.noConfusion, fun h' => by simp at h'⟩
  noAnchor _ c hc := by simp at hc
  selfsigned := ⟨Status.noConfusion, fun h' => absurd rfl h'.1⟩
  origin := by
    refine ⟨[first.object], [], input.map (·.object), ⟨.refl _, ?_, fun _ hc => by simp at hc⟩,
      Status.noConfusion, fun h' => absurd rfl h'.1⟩
    simpa [ChainPrivate.objects] using hpop.map (·.object)
  noLookups h := by simp [hl] at h

theorem performBuildChain_built {fuel : Nat} (hne : pv.certificates ≠ [])
    (h : performBuildChain env fuel pv = some (.ok pv')) :
    Built env pv.lookups pv.purpose pv.peer pv.objects pv'.objects pv'.status := by
  rw [performBuildChain] at h
  split at h
  case h_1 hpop =>
    rw [popCertificate_none, Option.map_eq_none_iff, List.head?_eq_none_iff] at hpop
    exact absurd hpop hne
  case h_2 first input hpop =>
    have hperm := (popCertificate_eq_some hpop).1
    have hfirst : pv.certificates.head? = some first := by
      rw [popCertificate_none] at hpop
      obtain ⟨_, hhead, heq⟩ := Option.map_eq_some_iff.mp hpop
      rw [hhead, (Prod.mk.inj heq).1]
    have hstart : Progress env pv ⟨{ pv with certificates := [first], status := .unknown }, input, first⟩ :=
      .start hfirst hperm
    dsimp only at h
    split at h
    case h_1 => simp at h
    case h_2 hpin =>
      obtain rfl := Except.ok.inj (Option.some.inj h)
      obtain ⟨hl, name, hname, hpin⟩ := isPinned_eq_true hpin
      exact .of_pinned hfirst hperm hl hname hpin
    case h_3 hpin =>
      obtain ⟨b, hb, hround⟩ := Loop.invariant hstart (fun _ _ hp hnext => hp.next hnext) h
      exact hb.built (isPinned_eq_false hfirst hpin) hround

theorem objects_cleanupChainPrivate (pv : ChainPrivate) : (cleanupChainPrivate pv).objects = pv.objects := by
  simp [cleanupChainPrivate, ChainPrivate.objects]

-- The lookups are not checked to give issuers.
def Lookups.FindsIssuers (env : Lookups) : Prop :=
  ∀ issued c : Object, env.lookupIssuer issued.der = .ok (some c) → isIssuer env issued c

theorem Built.issuers {lookups : Bool} {purpose peer : Option String} {input chain : List Object} {status : Status}
    (h : Built env lookups purpose peer input chain status) (hf : env.FindsIssuers) :
    chain.IsChain (isIssuer env · ·) := by
  refine h.links.imp ?_
  rintro c d (hi | ⟨-, hl⟩)
  · exact hi
  · exact hf c d hl

-- The postcondition of `gcr_certificate_chain_build`.
theorem gcrCertificateChainBuild_built {fuel : Nat} {self self' : ChainPrivate} {purpose : String}
    {peer : Option String} {flags : UInt32} {result : Except Error Unit} (hne : self.certificates ≠ [])
    (h : gcrCertificateChainBuild env fuel self purpose peer flags = some (result, self')) :
    (result = .ok () →
      Built env (prepChainPrivate self purpose peer flags).lookups (some purpose) peer
        self.objects self'.objects self'.status ∧
      (env.FindsIssuers → self'.objects.IsChain (isIssuer env · ·))) ∧
    (∀ e, result = .error e → self' = self) := by
  obtain ⟨outcome, hbuild, heq⟩ := Option.map_eq_some_iff.mp h
  cases outcome
  case error e =>
    obtain ⟨rfl, rfl⟩ := Prod.mk.inj heq
    exact ⟨fun he => by simp at he, fun _ _ => rfl⟩
  case ok pv =>
    obtain ⟨rfl, rfl⟩ := Prod.mk.inj heq
    have hne' : (prepChainPrivate self purpose peer flags).certificates ≠ [] := hne
    have hbuilt := performBuildChain_built hne' hbuild
    rw [objects_cleanupChainPrivate]
    exact ⟨fun _ => ⟨hbuilt, hbuilt.issuers⟩, fun _ he => by simp at he⟩

-- Certificates with one byte as subject and one byte as issuer.
def Lookups.small (pinned anchored : Bytes → Bool) (found : Bytes → Option Object) : Lookups where
  subject der := some (der.take 1)
  issuer der := some (der.drop 1)
  isCertificatePinned der _ _ := .ok (pinned der)
  isCertificateAnchored der _ := .ok (anchored der)
  lookupIssuer der := .ok (found der)

def Object.small (subject issuer : UInt8) : Object where
  id := subject.toNat
  kind := .simple
  der := [subject, issuer]

def ChainPrivate.small (objects : List Object) : ChainPrivate :=
  objects.foldl gcrCertificateChainAdd newChainPrivate

-- A chain with a certificate from the input and one from a lookup.
theorem gcrCertificateChainBuild_built_two :
    let env := Lookups.small (fun _ => false) (fun der => der = [2, 3]) (fun _ => some (.small 2 3))
    let self := ChainPrivate.small [.small 1 2]
    let self' : ChainPrivate := ⟨[⟨.small 1 2, false⟩, ⟨.small 2 3, false⟩], .anchored, some "server", none, 0⟩
    Built env true (some "server") none self.objects self'.objects self'.status := by
  intro env self self'
  have h : gcrCertificateChainBuild env 5 self "server" none 0 = some (.ok (), self') := by decide
  have hl : (prepChainPrivate self "server" none 0).lookups = true := by decide
  exact hl ▸ ((gcrCertificateChainBuild_built (by decide) h).1 rfl).1

-- A pinned certificate may be its own issuer, and a lookup may give a certificate with another subject.
theorem gcrCertificateChainBuild_not_exact :
    (∃ env self self', self.certificates ≠ [] ∧
      gcrCertificateChainBuild env 5 self "server" (some "host") 0 = some (.ok (), self') ∧
      (∃ c, self'.objects.getLast? = some c ∧ isIssuer env c c) ∧ self'.objects.tail = [] ∧
      self'.status ≠ .selfsigned) ∧
    ∃ env self self', self.certificates ≠ [] ∧
      gcrCertificateChainBuild env 5 self "server" (some "host") 0 = some (.ok (), self') ∧
      ¬self'.objects.IsChain (isIssuer env · ·) := by
  refine ⟨⟨.small (fun _ => true) (fun _ => false) (fun _ => none), .small [.small 1 1], _, by decide, rfl, ?_, rfl, by decide⟩,
    .small (fun _ => false) (fun _ => true) (fun _ => some (.small 3 3)), .small [.small 1 2], _, by decide, rfl, by decide⟩
  exact ⟨.small 1 1, rfl, by decide⟩

end CertificateChain
