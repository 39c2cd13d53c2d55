import Mathlib.Data.Finite.Prod
import Mathlib.Data.List.Permutation
import Mathlib.Data.List.Sublists
import GcrModel.Gcr.CertificateChain.Theorems.Build

namespace CertificateChain

open Relation

open scoped List

-- The certificate at the end of the chain and the rest of the input.
abbrev Position := Certificate × List Certificate

-- The loop goes on with a certificate that the lookup found.
structure LooksUp (env : Lookups) (pv : ChainPrivate) (input : List Certificate) (issued certificate : Certificate) :
    Prop where
  notSelfsigned : isIssuer env issued.object issued.object = false
  noCandidate   : popCertificate env input (some issued) = none
  lookups       : pv.lookups
  found         : env.lookupIssuer issued.object.der = .ok (some certificate.object)
  new           : certificate.copied = false
  notAnchored   : env.isCertificateAnchored certificate.object.der pv.purpose = .ok false

-- The loop goes on with a candidate of the input.
structure Pops (env : Lookups) (pv : ChainPrivate) (p p' : Position) : Prop where
  notSelfsigned : isIssuer env p.1.object p.1.object = false
  candidate     : popCertificate env p.2 (some p.1) = some p'
  notAnchored   : pv.lookups → env.isCertificateAnchored p'.1.object.der pv.purpose = .ok false

-- The way along the issuers of a certificate.
inductive Walk (env : Lookups) (pv : ChainPrivate) (p p' : Position) : Prop
  | pop (h : Pops env pv p p')
  | lookUp (h : LooksUp env pv p.2 p.1 p'.1) (hinput : p'.2 = p.2)

variable {env : Lookups} {pv : ChainPrivate} {b b' : Build} {p p' : Position}

def Build.position (b : Build) : Position :=
  (b.certificate, b.input)

-- What a round looks at.
def Build.key (b : Build) : Position × UInt32 × Option String :=
  (b.position, b.pv.flags, b.pv.purpose)

theorem Build.key_eq_iff : b.key = b'.key ↔
    b.certificate = b'.certificate ∧ b.input = b'.input ∧ b.pv.flags = b'.pv.flags ∧ b.pv.purpose = b'.pv.purpose := by
  simp [key, position, and_assoc]

theorem Walk.of_next (h : Loop.Next (buildRound env) b b') : Walk env b.pv b.position b'.position := by
  obtain ⟨hself, hnext, hpv, ha⟩ := buildRound_eq_inr h
  rw [nextCertificate] at hnext
  split at hnext
  case h_1 certificate input hpop =>
    obtain ⟨rfl, rfl⟩ := Prod.mk.inj (Option.some.inj (Except.ok.inj hnext))
    exact .pop ⟨hself, hpop, ha⟩
  case h_2 hpop =>
    split at hnext
    case isTrue hl =>
      split at hnext <;> simp at hnext
      case h_3 object ho =>
        obtain ⟨hc, hi⟩ := hnext
        have hb : b'.position.1 = ⟨object, false⟩ := hc.symm
        exact .lookUp ⟨hself, hpop, hl, by rw [hb]; exact ho, by rw [hb], ha hl⟩ hi.symm
    case isFalse => simp at hnext

theorem Walk.next (h : Walk env b.pv b.position p) : ∃ b', Loop.Next (buildRound env) b b' ∧ b'.position = p ∧
    b'.pv.flags = b.pv.flags ∧ b'.pv.purpose = b.pv.purpose := by
  refine ⟨⟨{ b.pv with certificates := b.pv.certificates ++ [p.1] }, p.2, p.1⟩, ?_, rfl, rfl, rfl⟩
  cases h
  case pop h =>
    have hc : popCertificate env b.input (some b.certificate) = some p := h.candidate
    have hnext : nextCertificate env b = .ok (some (p.1, p.2)) := by rw [nextCertificate, hc]
    exact buildRound_of_next h.notSelfsigned hnext h.notAnchored
  case lookUp h hinput =>
    have hc : popCertificate env b.input (some b.certificate) = none := h.noCandidate
    have hf : env.lookupIssuer b.certificate.object.der = .ok (some p.1.object) := h.found
    have hp : (⟨p.1.object, false⟩ : Certificate) = p.1 := by rw [← h.new]
    have hnext : nextCertificate env b = .ok (some (p.1, p.2)) := by
      rw [nextCertificate, hc, hinput]
      dsimp only
      rw [if_pos h.lookups, hf, ← hp]
      rfl
    exact buildRound_of_next h.notSelfsigned hnext fun _ => h.notAnchored

-- The walk depends on the flags and the purpose only.
theorem Walk.congr {pv' : ChainPrivate} (hf : pv.flags = pv'.flags) (hp : pv.purpose = pv'.purpose)
    (h : Walk env pv p p') : Walk env pv' p p' := by
  have hl : pv.lookups = pv'.lookups := by rw [ChainPrivate.lookups, ChainPrivate.lookups, hf]
  cases h
  case pop h =>
    exact .pop ⟨h.notSelfsigned, h.candidate, fun h' => hp ▸ h.notAnchored (hl ▸ h')⟩
  case lookUp h hinput =>
    exact .lookUp ⟨h.notSelfsigned, h.noCandidate, hl ▸ h.lookups, h.found, h.new, hp ▸ h.notAnchored⟩ hinput

-- A round does not look at more than the key.
theorem next_of_key {s s' t : Build} (hk : s.key = s'.key) (h : Loop.Next (buildRound env) s t) :
    ∃ t', Loop.Next (buildRound env) s' t' ∧ t'.key = t.key := by
  obtain ⟨hc, hi, hf, hp⟩ := (Build.key_eq_iff).mp hk
  have hpos : s.position = s'.position := by rw [Build.position, Build.position, hc, hi]
  have hw : Walk env s'.pv s'.position t.position := hpos ▸ (Walk.of_next h).congr hf hp
  obtain ⟨t', hnext, hpos', hf', hp'⟩ := hw.next
  have hpv := (buildRound_eq_inr h).2.2.1
  refine ⟨t', hnext, ?_⟩
  rw [Build.key, Build.key, hpos', hf', hp', ← hf, ← hp, hpv]

-- The build is for the flags and the purpose.
def Build.Agrees (b : Build) (pv : ChainPrivate) : Prop :=
  b.pv.flags = pv.flags ∧ b.pv.purpose = pv.purpose

-- The rounds of the loop are the steps of the walk.
theorem walk_of_reaches (ha : b.Agrees pv) (h : ReflTransGen (Loop.Next (buildRound env)) b b') :
    ReflTransGen (Walk env pv) b.position b'.position ∧ b'.Agrees pv := by
  induction h
  case refl => exact ⟨.refl, ha⟩
  case tail c d _ hcd ih =>
    have hpv := (buildRound_eq_inr hcd).2.2.1
    refine ⟨ih.1.tail ((Walk.of_next hcd).congr ih.2.1 ih.2.2), ?_⟩
    rw [Build.Agrees, hpv]
    exact ih.2

theorem reaches_of_walk (ha : b.Agrees pv) (h : ReflTransGen (Walk env pv) b.position p) :
    ∃ b', ReflTransGen (Loop.Next (buildRound env)) b b' ∧ b'.position = p ∧ b'.Agrees pv := by
  induction h
  case refl => exact ⟨b, .refl, rfl, ha⟩
  case tail q r _ hqr ih =>
    obtain ⟨c, hbc, rfl, hf, hp⟩ := ih
    obtain ⟨d, hcd, hd, hf', hp'⟩ := (hqr.congr hf.symm hp.symm).next
    exact ⟨d, hbc.tail hcd, hd, hf'.trans hf, hp'.trans hp⟩

theorem Walk.length_le (h : Walk env pv p p') :
    p'.2.length < p.2.length ∨ p'.2 = p.2 ∧ LooksUp env pv p.2 p.1 p'.1 := by
  cases h
  case pop h =>
    have hlen := (popCertificate_eq_some h.candidate).1.length_eq
    exact .inl (by rw [hlen, List.length_cons]; exact Nat.lt_succ_self _)
  case lookUp h hinput => exact .inr ⟨hinput, h⟩

-- A walk that leaves the input as it is takes no candidate.
theorem lookUps_of_walk (h : TransGen (Walk env pv) p p') :
    p'.2.length < p.2.length ∨ p'.2 = p.2 ∧ TransGen (LooksUp env pv p.2) p.1 p'.1 := by
  induction h
  case single h =>
    rcases h.length_le with h | ⟨hi, h⟩
    · exact .inl h
    · exact .inr ⟨hi, .single h⟩
  case tail q r _ hqr ih =>
    rcases hqr.length_le with h | ⟨hi, h⟩ <;> rcases ih with ih | ⟨hi', ih⟩
    · exact .inl (h.trans ih)
    · exact .inl (hi' ▸ h)
    · exact .inl (hi ▸ ih)
    · rw [hi'] at h hi
      exact .inr ⟨hi, ih.tail h⟩

theorem walk_of_lookUps {input : List Certificate} {c d : Certificate} (h : TransGen (LooksUp env pv input) c d) :
    TransGen (Walk env pv) (c, input) (d, input) := by
  induction h
  case single h      => exact .single (.lookUp h rfl)
  case tail hcd ih => exact ih.tail (.lookUp hcd rfl)

-- From some point of the walk on the lookups come back to a certificate.
def Circles (env : Lookups) (pv : ChainPrivate) (p : Position) : Prop :=
  ∃ q, ReflTransGen (Walk env pv) p q ∧ TransGen (LooksUp env pv q.2) q.1 q.1

theorem cycle_iff (ha : b.Agrees pv) :
    (∃ t, ReflTransGen (Loop.Next (buildRound env)) b t ∧ Loop.Cycle (buildRound env) Build.key t) ↔
      Circles env pv b.position := by
  constructor
  · rintro ⟨t, hbt, u, htu, hk⟩
    obtain ⟨hw, hat⟩ := walk_of_reaches ha hbt
    obtain ⟨hc, hi, -⟩ := (Build.key_eq_iff).mp hk
    obtain ⟨m, htm, hmu⟩ := TransGen.tail'_iff.mp htu
    obtain ⟨hw', ham⟩ := walk_of_reaches hat htm
    refine ⟨t.position, hw, ?_⟩
    rcases lookUps_of_walk (.tail' hw' ((Walk.of_next hmu).congr ham.1 ham.2)) with hlt | ⟨-, hl⟩
    · have hlt' : u.input.length < t.input.length := hlt
      exact absurd hlt' (by rw [hi]; exact Nat.lt_irrefl _)
    · have hc' : u.position.1 = t.position.1 := hc
      exact hc' ▸ hl
  · rintro ⟨q, hw, hl⟩
    obtain ⟨t, hbt, rfl, hat⟩ := reaches_of_walk ha hw
    obtain ⟨m, htm, hmu⟩ := TransGen.tail'_iff.mp (walk_of_lookUps hl)
    obtain ⟨u, htu, rfl, hau⟩ := reaches_of_walk hat htm
    obtain ⟨v, huv, hv, hf, hp⟩ := (hmu.congr hau.1.symm hau.2.symm).next
    refine ⟨t, hbt, v, .tail' htu huv, (Build.key_eq_iff).mpr ⟨congrArg Prod.fst hv, congrArg Prod.snd hv, ?_, ?_⟩⟩
    · rw [hf, hau.1, hat.1]
    · rw [hp, hau.2, hat.2]

-- The certificates that the lookup finds.
def Lookups.available (env : Lookups) : Set Object :=
  {object | ∃ der, env.lookupIssuer der = .ok (some object)}

-- Where the walk gets to.
def reachable (env : Lookups) (p : Position) : Set Position :=
  ({c | c ∈ p.1 :: p.2} ∪ (fun object => ⟨object, false⟩) '' env.available) ×ˢ {input | input <+~ p.2}

theorem reachable_finite (hfin : env.available.Finite) (p : Position) : (reachable env p).Finite := by
  refine (Set.Finite.union (List.finite_toSet _) (hfin.image _)).prod ?_
  refine (List.finite_toSet (p.2.sublists.flatMap List.permutations)).subset ?_
  rintro input ⟨l, hperm, hsub⟩
  exact List.mem_flatMap.mpr ⟨l, List.mem_sublists.mpr hsub, List.mem_permutations.mpr hperm.symm⟩

theorem mem_reachable (h : ReflTransGen (Walk env pv) p p') : p' ∈ reachable env p := by
  induction h
  case refl => exact ⟨.inl (List.mem_cons_self ..), .refl _⟩
  case tail q r _ hqr ih =>
    obtain ⟨-, hsub⟩ := ih
    cases hqr
    case pop h =>
      have hperm := (popCertificate_eq_some h.candidate).1
      refine ⟨.inl (List.mem_cons_of_mem _ ?_), ?_⟩
      · exact hsub.subset (hperm.mem_iff.mpr (List.mem_cons_self ..))
      · exact (List.subperm_cons_self.trans hperm.symm.subperm).trans hsub
    case lookUp h hinput =>
      refine ⟨.inr ⟨r.1.object, ⟨_, h.found⟩, by rw [← h.new]⟩, ?_⟩
      rw [hinput]
      exact hsub

theorem halts_iff (hfin : env.available.Finite) (pv : ChainPrivate) (b : Build) (ha : b.Agrees pv) :
    Loop.Halts (buildRound env) b ↔ ¬Circles env pv b.position := by
  have hkeys : (Build.key '' {t | ReflTransGen (Loop.Next (buildRound env)) b t}).Finite := by
    refine ((reachable_finite hfin b.position).prod (Set.finite_singleton (pv.flags, pv.purpose))).subset ?_
    rintro _ ⟨t, ht, rfl⟩
    obtain ⟨hw, hf, hp⟩ := walk_of_reaches ha ht
    exact ⟨mem_reachable hw, Prod.ext hf hp⟩
  rw [Loop.halts_iff_of_finite (fun _ _ _ => next_of_key) hkeys, cycle_iff ha]

section Perform

variable {fuel : Nat} (hpop : popCertificate env pv.certificates none = some p)

include hpop

theorem performBuildChain_of_error {e : Error} (h : isPinned env pv p.1 = .error e) :
    performBuildChain env fuel pv = some (.error e) := by
  have h' : isPinned env { pv with certificates := [p.1], status := .unknown } p.1 = .error e := h
  simp [performBuildChain, hpop, h']

theorem performBuildChain_of_pinned (h : isPinned env pv p.1 = .ok true) :
    performBuildChain env fuel pv = some (.ok { pv with certificates := [p.1], status := .pinned }) := by
  have h' : isPinned env { pv with certificates := [p.1], status := .unknown } p.1 = .ok true := h
  simp [performBuildChain, hpop, h']

theorem performBuildChain_of_notPinned (h : isPinned env pv p.1 = .ok false) :
    performBuildChain env fuel pv =
      Loop.run (buildRound env) fuel ⟨{ pv with certificates := [p.1], status := .unknown }, p.2, p.1⟩ := by
  have h' : isPinned env { pv with certificates := [p.1], status := .unknown } p.1 = .ok false := h
  simp [performBuildChain, hpop, h']

end Perform

-- `perform_build_chain` returns if and only if it does not get to certificates that are found as
-- issuers of each other without an end.
theorem performBuildChain_returns_iff (hfin : env.available.Finite) (pv : ChainPrivate) :
    (∃ fuel outcome, performBuildChain env fuel pv = some outcome) ↔
      ¬∃ p, popCertificate env pv.certificates none = some p ∧ isPinned env pv p.1 = .ok false ∧ Circles env pv p := by
  cases hpop : popCertificate env pv.certificates none
  case none =>
    refine ⟨fun _ => by simp, fun _ => ⟨0, .ok { pv with status := .unknown }, ?_⟩⟩
    simp [performBuildChain, hpop]
  case some p =>
    simp only [Option.some.injEq, exists_eq_left']
    cases hpin : isPinned env pv p.1
    case error e => simp [performBuildChain_of_error hpop hpin]
    case ok pinned =>
      cases pinned
      case true => simp [performBuildChain_of_pinned hpop hpin]
      case false =>
        simp only [true_and, performBuildChain_of_notPinned hpop hpin]
        exact halts_iff hfin pv ⟨{ pv with certificates := [p.1], status := .unknown }, p.2, p.1⟩ ⟨rfl, rfl⟩

-- Two certificate authorities that signed each other.
def Lookups.crossSigned : Lookups :=
  .small (fun _ => false) (fun _ => false) fun der => some (if der.drop 1 = [3] then .small 3 2 else .small 2 3)

theorem Lookups.crossSigned_finite : crossSigned.available.Finite := by
  refine (List.finite_toSet [Object.small 3 2, .small 2 3]).subset ?_
  rintro object ⟨der, h⟩
  have h' : (if der.drop 1 = [3] then Object.small 3 2 else .small 2 3) = object :=
    Option.some.inj (Except.ok.inj h)
  rw [← h']
  split <;> simp

theorem performBuildChain_returns_iff_crossSigned :
    (∃ fuel outcome, performBuildChain .crossSigned fuel (.small [.small 1 2]) = some outcome) ↔
      ¬∃ p, popCertificate .crossSigned (ChainPrivate.small [.small 1 2]).certificates none = some p ∧
        isPinned .crossSigned (.small [.small 1 2]) p.1 = .ok false ∧ Circles .crossSigned (.small [.small 1 2]) p :=
  performBuildChain_returns_iff Lookups.crossSigned_finite (.small [.small 1 2])

theorem circles_crossSigned : Circles .crossSigned (.small [.small 1 2]) (⟨.small 1 2, false⟩, []) := by
  have hlookUp (issued certificate : Object) (hself : isIssuer .crossSigned issued issued = false)
      (hfound : Lookups.crossSigned.lookupIssuer issued.der = .ok (some certificate)) :
      LooksUp .crossSigned (.small [.small 1 2]) [] ⟨issued, false⟩ ⟨certificate, false⟩ :=
    ⟨hself, rfl, by decide, hfound, rfl, rfl⟩
  refine ⟨(⟨.small 2 3, false⟩, []), .single (.lookUp (hlookUp _ _ (by decide) (by decide)) rfl), ?_⟩
  exact .tail (.single (hlookUp (.small 2 3) (.small 3 2) (by decide) (by decide)))
    (hlookUp (.small 3 2) (.small 2 3) (by decide) (by decide))

-- The chain of the certificate and of its issuer is built forever.
theorem performBuildChain_crossSigned_loops :
    ¬∃ fuel outcome, performBuildChain .crossSigned fuel (.small [.small 1 2]) = some outcome := by
  have h := halts_iff Lookups.crossSigned_finite (.small [.small 1 2])
    ⟨.small [.small 1 2], [], ⟨.small 1 2, false⟩⟩ ⟨rfl, rfl⟩
  have hn := h.not.mpr (not_not.mpr circles_crossSigned)
  rintro ⟨fuel, outcome, hrun⟩
  exact hn ⟨fuel, outcome, hrun⟩

end CertificateChain
