import GcrModel.Gcr.CertificateChain.Theorems.Terminates

namespace CertificateChain

open Relation

open scoped List

variable {env : Lookups} {pv pv' : ChainPrivate} {b b' : Build} {certificates rest : List Certificate} {cs : List Object}
variable {issued certificate : Certificate} {c : Object} {i k : Nat}

section Pop

-- What is popped depends on the objects only.
def objectsOf (certificates : List Certificate) : List Object :=
  certificates.map (·.object)

theorem objectsOf_removeIndexFast (certificates : List Certificate) (i : Nat) :
    objectsOf (removeIndexFast certificates i) = SwapRemove.remove (objectsOf certificates) i := by
  rw [removeIndexFast, SwapRemove.remove, objectsOf, objectsOf, List.getLast?_map]
  cases certificates.getLast? with
  | none      => rfl
  | some last => rw [Option.map_some, List.map_dropLast, List.map_set]

theorem popCertificate_some_iff (env : Lookups) (certificates : List Certificate) (issued certificate : Certificate)
    (rest : List Certificate) : popCertificate env certificates (some issued) = some (certificate, rest) ↔
      ∃ i, (objectsOf certificates).findIdx? (isIssuer env issued.object) = some i ∧ certificates[i]? = some certificate ∧
        rest = removeIndexFast certificates i := by
  have hfind : (certificates.findIdx? fun certificate => (some issued).all fun issued => isIssuer env issued.object certificate.object) =
      (objectsOf certificates).findIdx? (isIssuer env issued.object) := by
    rw [objectsOf, List.findIdx?_map]
    rfl
  rw [popCertificate, hfind]
  cases (objectsOf certificates).findIdx? (isIssuer env issued.object) with
  | none   => exact ⟨by rintro ⟨⟩, by rintro ⟨_, ⟨⟩, _⟩⟩
  | some i =>
    dsimp only
    rw [Option.map_eq_some_iff]
    constructor
    · rintro ⟨c, hget, heq⟩
      obtain ⟨rfl, rfl⟩ := Prod.mk.inj heq
      exact ⟨i, rfl, hget, rfl⟩
    · rintro ⟨_, ⟨⟩, hget, rfl⟩
      exact ⟨certificate, hget, rfl⟩

theorem nextCertificate_of_pop (h : popCertificate env b.input (some b.certificate) = some (certificate, rest)) :
    nextCertificate env b = .ok (some (certificate, rest)) := by
  rw [nextCertificate, h]

end Pop

section Order

-- The list up to the first certificate that issued itself.
def untilSelfIssued (env : Lookups) : List Object → List Object
  | []      => []
  | c :: cs => if isIssuer env c c then [c] else c :: untilSelfIssued env cs

-- No certificate before the one at `k` issued itself.
def NotSelfIssued (env : Lookups) (cs : List Object) (k : Nat) : Prop :=
  ∀ i < k, ∀ c ∈ cs[i]?, isIssuer env c c = false

theorem NotSelfIssued.mono {l : Nat} (h : NotSelfIssued env cs l) (hle : k ≤ l) : NotSelfIssued env cs k :=
  fun i hi => h i (Nat.lt_of_lt_of_le hi hle)

theorem untilSelfIssued_eq (hne : cs ≠ []) : ∃ k c, cs[k]? = some c ∧ untilSelfIssued env cs = cs.take (k + 1) ∧
    NotSelfIssued env cs k ∧ (isIssuer env c c ∨ k + 1 = cs.length) := by
  induction cs with
  | nil         => exact absurd rfl hne
  | cons d cs ih =>
    rw [untilSelfIssued]
    by_cases hself : isIssuer env d d
    case pos =>
      refine ⟨0, d, rfl, ?_, nofun, .inl hself⟩
      rw [if_pos hself]
      rfl
    case neg =>
      rw [if_neg hself]
      rw [Bool.not_eq_true] at hself
      cases cs with
      | nil => exact ⟨0, d, rfl, rfl, nofun, .inr rfl⟩
      | cons e cs =>
        obtain ⟨k, c, hget, htake, hnot, hend⟩ := ih (List.cons_ne_nil e cs)
        refine ⟨k + 1, c, hget, ?_, ?_, ?_⟩
        · rw [htake]
          rfl
        · intro i hi f hf
          cases i with
          | zero   => cases hf; exact hself
          | succ i => exact hnot i (Nat.lt_of_succ_lt_succ hi) f hf
        · exact hend.imp_right fun h => by rw [List.length_cons, h]

-- Of the certificates that fast removal has put in front of the next one, none is an issuer.
def InOrderAt (env : Lookups) (cs : List Object) (k : Nat) : Prop :=
  ∀ issued ∈ cs[k]?, ∀ other ∈ SwapRemove.inFront cs (k + 1), isIssuer env issued other = false

def InOrder (env : Lookups) (cs : List Object) : Prop :=
  ∀ k, NotSelfIssued env cs (k + 1) → InOrderAt env cs k

theorem take_succ (h : cs[k]? = some c) : cs.take (k + 1) = cs.take k ++ [c] := by
  rw [List.take_add_one, h]
  rfl

theorem isIssuer_of_isChain (hchain : cs.IsChain (isIssuer env · ·)) {d : Object} (hd : cs[k]? = some d)
    (hc : cs[k + 1]? = some c) : isIssuer env d c := by
  obtain ⟨_, rfl⟩ := List.getElem?_eq_some_iff.mp hd
  obtain ⟨hk, rfl⟩ := List.getElem?_eq_some_iff.mp hc
  exact List.isChain_iff_getElem.mp hchain k hk

-- In the round for the certificate at `k`, those before it are in the chain.
structure Stands (pv : ChainPrivate) (cs : List Object) (k : Nat) (b : Build) : Prop where
  purpose : b.pv.purpose = pv.purpose
  flags   : b.pv.flags = pv.flags
  objects : b.pv.objects = cs.take (k + 1)
  last    : cs[k]? = some b.certificate.object
  left    : objectsOf b.input = SwapRemove.leftover cs (k + 1)

theorem Stands.lookups (h : Stands pv cs k b) : b.pv.lookups = pv.lookups := by
  rw [ChainPrivate.lookups, ChainPrivate.lookups, h.flags]

theorem Stands.pop (h : Stands pv cs k b) (horder : InOrderAt env cs k) (hc : cs[k + 1]? = some c)
    (hissuer : isIssuer env b.certificate.object c) :
    ∃ certificate rest, certificate.object = c ∧ nextCertificate env b = .ok (some (certificate, rest)) ∧
      objectsOf rest = SwapRemove.leftover cs (k + 2) := by
  have hmem := SwapRemove.mem_leftover hc
  have hget := SwapRemove.getElem?_idxOf hmem
  have hfind := (SwapRemove.findIdx?_eq_idxOf_iff hmem hissuer).mpr fun d hd =>
    Bool.eq_false_iff.mp (horder _ h.last d (SwapRemove.inFront_eq hc ▸ hd))
  rw [← h.left] at hfind hget
  rw [objectsOf, List.getElem?_map, Option.map_eq_some_iff] at hget
  obtain ⟨certificate, hcertificate, rfl⟩ := hget
  have hpop := (popCertificate_some_iff env b.input b.certificate certificate _).mpr ⟨_, hfind, hcertificate, rfl⟩
  refine ⟨certificate, _, rfl, nextCertificate_of_pop hpop, ?_⟩
  rw [objectsOf_removeIndexFast, SwapRemove.leftover_succ hc, ← h.left]

theorem Stands.next (h : Stands pv cs k b) (horder : InOrderAt env cs k) (hc : cs[k + 1]? = some c)
    (hissuer : isIssuer env b.certificate.object c) (hself : isIssuer env b.certificate.object b.certificate.object = false)
    (hanchor : pv.lookups → env.isCertificateAnchored c.der pv.purpose = .ok false) :
    ∃ b', Loop.Next (buildRound env) b b' ∧ Stands pv cs (k + 1) b' := by
  obtain ⟨certificate, rest, rfl, hnext, hleft⟩ := h.pop horder hc hissuer
  refine ⟨_, buildRound_of_next hself hnext ?_, h.purpose, h.flags, ?_, hc, hleft⟩
  · rw [h.lookups, h.purpose]
    exact hanchor
  · rw [ChainPrivate.objects_append, h.objects, take_succ hc]

-- An anchor is added too, and ends the chain.
theorem Stands.anchor (h : Stands pv cs k b) (horder : InOrderAt env cs k) (hc : cs[k + 1]? = some c)
    (hissuer : isIssuer env b.certificate.object c) (hself : isIssuer env b.certificate.object b.certificate.object = false)
    (hl : pv.lookups) (hanchor : env.isCertificateAnchored c.der pv.purpose = .ok true) :
    ∃ pv', buildRound env b = .inl (.ok pv') ∧ pv'.objects = cs.take (k + 2) ∧ pv'.status = .anchored := by
  obtain ⟨certificate, rest, rfl, hnext, -⟩ := h.pop horder hc hissuer
  refine ⟨{ b.pv with certificates := b.pv.certificates ++ [certificate], status := .anchored }, ?_, ?_, rfl⟩
  · have hlookups : ChainPrivate.lookups { b.pv with certificates := b.pv.certificates ++ [certificate] } = true :=
      h.lookups.trans hl
    rw [buildRound, if_neg (Bool.eq_false_iff.mp hself), hnext]
    dsimp only
    rw [if_pos hlookups, h.purpose, hanchor]
  · have happend : ChainPrivate.objects { b.pv with certificates := b.pv.certificates ++ [certificate], status := .anchored } =
        b.pv.objects ++ [certificate.object] := b.pv.objects_append certificate
    rw [happend, h.objects, take_succ hc]

-- The loop gets to each certificate, up to the first that issued itself or is an anchor.
theorem Stands.reaches (h : Stands pv cs 0 b) (hchain : cs.IsChain (isIssuer env · ·)) (horder : InOrder env cs)
    (hself : NotSelfIssued env cs k) (hk : k < cs.length)
    (hanchor : pv.lookups → ∀ i < k, ∀ d ∈ cs[i + 1]?, env.isCertificateAnchored d.der pv.purpose = .ok false) :
    ∃ b', ReflTransGen (Loop.Next (buildRound env)) b b' ∧ Stands pv cs k b' := by
  induction k with
  | zero => exact ⟨b, .refl, h⟩
  | succ k ih =>
    have hc : cs[k + 1]? = some cs[k + 1] := List.getElem?_eq_getElem hk
    obtain ⟨b', hreach, hb'⟩ := ih (hself.mono (Nat.le_succ k)) (Nat.lt_of_succ_lt hk)
      fun hl i hi => hanchor hl i (Nat.lt_succ_of_lt hi)
    have hissuer := isIssuer_of_isChain hchain hb'.last hc
    obtain ⟨b'', hnext, hb''⟩ := hb'.next (horder k hself) hc hissuer (hself k (Nat.lt_succ_self k) _ hb'.last)
      fun hl => hanchor hl k (Nat.lt_succ_self k) _ hc
    exact ⟨b'', hreach.tail hnext, hb''⟩

end Order

section Stop

-- The status of a chain that ends with a certificate of which there is no issuer.
def statusOf (env : Lookups) (c : Object) : Status :=
  if isIssuer env c c then .selfsigned else .incomplete

theorem nextCertificate_of_empty (hinput : b.input = [])
    (hnone : b.pv.lookups → env.lookupIssuer b.certificate.object.der = .ok none) : nextCertificate env b = .ok none := by
  rw [nextCertificate, hinput]
  dsimp only [popCertificate, List.findIdx?_nil]
  split
  case isTrue hl => rw [hnone hl]
  case isFalse   => rfl

theorem Stands.stop (h : Stands pv cs k b) (hc : cs[k]? = some c) (hend : isIssuer env c c ∨ k + 1 = cs.length)
    (hnone : pv.lookups → isIssuer env c c = false → env.lookupIssuer c.der = .ok none) :
    buildRound env b = .inl (.ok { b.pv with status := statusOf env c }) := by
  obtain rfl : b.certificate.object = c := Option.some.inj (h.last.symm.trans hc)
  by_cases hself : isIssuer env b.certificate.object b.certificate.object
  case pos => rw [buildRound, if_pos hself, statusOf, if_pos hself]
  case neg =>
    have hlen := hend.resolve_left hself
    have hinput : b.input = [] := by
      have hperm := SwapRemove.leftover_perm cs (k + 1)
      rw [← h.left, hlen, List.drop_length] at hperm
      exact List.map_eq_nil_iff.mp hperm.eq_nil
    have hnext := nextCertificate_of_empty hinput fun hl => hnone (h.lookups ▸ hl) (Bool.eq_false_iff.mpr hself)
    rw [buildRound, if_neg hself, hnext, statusOf, if_neg hself]

end Stop

section Start

variable {first : Certificate}

theorem popCertificate_first (env : Lookups) (h : certificates.head? = some first) :
    popCertificate env certificates none = some (first, removeIndexFast certificates 0) := by
  rw [popCertificate_none, h, Option.map_some]

def firstRound (pv : ChainPrivate) (first : Certificate) : Build :=
  ⟨{ pv with certificates := [first], status := .unknown }, removeIndexFast pv.certificates 0, first⟩

theorem findIdx?_true (h : certificates.head? = some first) :
    (objectsOf certificates).findIdx? (fun _ => true) = some 0 ∧ (objectsOf certificates)[0]? = some first.object := by
  cases certificates with
  | nil       => cases h
  | cons c cs => cases h; exact ⟨rfl, rfl⟩

theorem objectsOf_first (h : certificates.head? = some first) :
    objectsOf (removeIndexFast certificates 0) = SwapRemove.leftover (objectsOf certificates) 1 := by
  obtain ⟨hfind, hget⟩ := findIdx?_true h
  rw [objectsOf_removeIndexFast, SwapRemove.leftover_succ hget, SwapRemove.leftover, ← SwapRemove.eq_idxOf hfind hget]

theorem Stands.start (h : pv.certificates.head? = some first) : Stands pv (objectsOf pv.certificates) 0 (firstRound pv first) where
  purpose := rfl
  flags   := rfl
  objects := by
    obtain ⟨-, hget⟩ := findIdx?_true h
    rw [take_succ hget]
    rfl
  last    := (findIdx?_true h).2
  left    := objectsOf_first h

theorem performBuildChain_cases {fuel : Nat} (hfirst : pv.certificates.head? = some first)
    (h : performBuildChain env fuel pv = some (.ok pv')) :
    (isPinned env pv first = .ok true ∧ pv' = { pv with certificates := [first], status := .pinned }) ∨
      (isPinned env pv first = .ok false ∧ Loop.run (buildRound env) fuel (firstRound pv first) = some (.ok pv')) := by
  have hpop := popCertificate_first env hfirst
  cases hpin : isPinned env pv first with
  | error e => cases (performBuildChain_of_error hpop hpin).symm.trans h
  | ok pinned =>
    cases pinned with
    | true =>
      cases (performBuildChain_of_pinned hpop hpin).symm.trans h
      exact .inl ⟨rfl, rfl⟩
    | false => exact .inr ⟨rfl, (performBuildChain_of_notPinned hpop hpin).symm.trans h⟩

theorem performBuildChain_of_reaches (hfirst : pv.certificates.head? = some first) (hpin : isPinned env pv first = .ok false)
    (hreach : ReflTransGen (Loop.Next (buildRound env)) (firstRound pv first) b) (hround : buildRound env b = .inl (.ok pv')) :
    ∃ fuel, performBuildChain env fuel pv = some (.ok pv') := by
  obtain ⟨fuel, hrun⟩ := Loop.run_eq_some_iff.mpr ⟨b, hreach, hround⟩
  exact ⟨fuel, (performBuildChain_of_notPinned (popCertificate_first env hfirst) hpin).trans hrun⟩

end Start

section Traces

-- In a run that has added the certificates of the list in order so far, the rest of them is left as fast removal leaves it.
structure Traced (env : Lookups) (cs : List Object) (k : Nat) (b : Build) : Prop where
  last  : cs[k]? = some b.certificate.object
  left  : objectsOf b.input = SwapRemove.leftover cs (k + 1)
  order : ∀ l < k, InOrderAt env cs l

def Traces (env : Lookups) (cs : List Object) (b : Build) : Prop :=
  ∃ k, b.pv.objects.length = k + 1 ∧ (b.pv.objects <+: cs → Traced env cs k b)

theorem Traced.next (h : Traced env cs k b) (hchain : cs.IsChain (isIssuer env · ·))
    (hc : cs[k + 1]? = some certificate.object) (hnext : nextCertificate env b = .ok (some (certificate, rest))) :
    InOrderAt env cs k ∧ objectsOf rest = SwapRemove.leftover cs (k + 2) := by
  have hissuer := isIssuer_of_isChain hchain h.last hc
  have hpop : popCertificate env b.input (some b.certificate) = some (certificate, rest) := by
    cases hpop : popCertificate env b.input (some b.certificate) with
    | some p => exact congrArg some (Option.some.inj (Except.ok.inj ((nextCertificate_of_pop hpop).symm.trans hnext)))
    | none =>
      have hmem : certificate.object ∈ objectsOf b.input := by
        rw [h.left]
        exact SwapRemove.mem_leftover hc
      obtain ⟨d, hd, heq⟩ := List.mem_map.mp hmem
      have hnot := popCertificate_eq_none hpop d hd
      rw [heq, hissuer] at hnot
      cases hnot
  obtain ⟨i, hfind, hget, rfl⟩ := (popCertificate_some_iff env b.input b.certificate certificate rest).mp hpop
  have hget' : (objectsOf b.input)[i]? = some certificate.object := by
    rw [objectsOf, List.getElem?_map, hget, Option.map_some]
  rw [h.left] at hfind hget'
  have hplace := SwapRemove.eq_idxOf hfind hget'
  rw [hplace] at hfind
  constructor
  · intro issued hissued other hother
    cases h.last.symm.trans hissued
    rw [SwapRemove.inFront_eq hc] at hother
    exact Bool.eq_false_iff.mpr ((SwapRemove.findIdx?_eq_idxOf_iff (SwapRemove.mem_leftover hc) hissuer).mp hfind other hother)
  · rw [objectsOf_removeIndexFast, SwapRemove.leftover_succ hc, h.left, hplace]

theorem getElem?_of_prefix {l : List Object} (h : l ++ [c] <+: cs) : cs[l.length]? = some c := by
  obtain ⟨more, rfl⟩ := h
  rw [List.append_assoc, List.getElem?_append_right (Nat.le_refl _), Nat.sub_self]
  rfl

theorem Traces.next (h : Traces env cs b) (hchain : cs.IsChain (isIssuer env · ·))
    (hnext : buildRound env b = .inr b') : Traces env cs b' := by
  obtain ⟨k, hlen, htraced⟩ := h
  obtain ⟨-, hcertificate, hpv, -⟩ := buildRound_eq_inr hnext
  have hobjects : b'.pv.objects = b.pv.objects ++ [b'.certificate.object] := hpv ▸ b.pv.objects_append b'.certificate
  refine ⟨k + 1, by rw [hobjects, List.length_append, hlen, List.length_singleton], fun hstart => ?_⟩
  rw [hobjects] at hstart
  have hc := getElem?_of_prefix hstart
  rw [hlen] at hc
  have hb := htraced ((List.prefix_append _ _).trans hstart)
  obtain ⟨horder, hleft⟩ := hb.next hchain hc hcertificate
  refine ⟨hc, hleft, fun l hl => ?_⟩
  rcases Nat.lt_or_eq_of_le (Nat.le_of_lt_succ hl) with hlt | rfl
  · exact hb.order l hlt
  · exact horder

theorem Traces.start {first : Certificate} (h : pv.certificates.head? = some first) :
    Traces env (objectsOf pv.certificates) (firstRound pv first) :=
  ⟨0, rfl, fun _ => ⟨(findIdx?_true h).2, objectsOf_first h, nofun⟩⟩

-- The condition is necessary where the chain ends up as a part of the list.
theorem Traces.inOrder (h : Traces env cs b) (hchain : cs.IsChain (isIssuer env · ·))
    (hround : buildRound env b = .inl (.ok pv')) (hobjects : pv'.objects = cs.take (k + 1)) (hk : k < cs.length) :
    ∀ l < k, InOrderAt env cs l := by
  obtain ⟨k', hlen, htraced⟩ := h
  have hstart : pv'.objects <+: cs := hobjects ▸ List.take_prefix _ _
  have hlen' : pv'.objects.length = k + 1 := by rw [hobjects, List.length_take, Nat.min_eq_left hk]
  rcases buildRound_eq_inl hround with ⟨-, rfl⟩ | ⟨-, -, rfl⟩ | ⟨certificate, input, -, hnext, -, -, rfl⟩
  · obtain rfl : k' = k := Nat.succ.inj (hlen.symm.trans hlen')
    exact (htraced hstart).order
  · obtain rfl : k' = k := Nat.succ.inj (hlen.symm.trans hlen')
    exact (htraced hstart).order
  · have happend : ChainPrivate.objects { b.pv with certificates := b.pv.certificates ++ [certificate], status := .anchored } =
        b.pv.objects ++ [certificate.object] := b.pv.objects_append certificate
    rw [happend] at hstart hlen'
    rw [List.length_append, hlen, List.length_singleton] at hlen'
    obtain rfl : k = k' + 1 := Nat.succ.inj hlen'.symm
    have hc := getElem?_of_prefix hstart
    rw [hlen] at hc
    have hb := htraced ((List.prefix_append _ _).trans hstart)
    intro l hl
    rcases Nat.lt_or_eq_of_le (Nat.le_of_lt_succ hl) with hlt | rfl
    · exact hb.order l hlt
    · exact (hb.next hchain hc hnext).1

-- Behind the first certificate that issued itself, or the last one, there is no condition.
theorem InOrder.of_lt (hc : cs[k]? = some c) (hend : isIssuer env c c ∨ k + 1 = cs.length)
    (h : ∀ l < k, InOrderAt env cs l) : InOrder env cs := by
  intro l hself
  rcases Nat.lt_or_ge l k with hlt | hge
  · exact h l hlt
  · rcases hend with hselfc | hlen
    · have hnot := hself k (Nat.lt_succ_of_le hge) c hc
      rw [hselfc] at hnot
      cases hnot
    · intro _ _ d hd
      rw [SwapRemove.inFront, List.getElem?_eq_none (by omega)] at hd
      cases hd

theorem performBuildChain_inOrder {fuel : Nat}
    (hchain : (objectsOf pv.certificates).IsChain (isIssuer env · ·)) (h : performBuildChain env fuel pv = some (.ok pv'))
    (hobjects : pv'.objects = untilSelfIssued env (objectsOf pv.certificates)) : InOrder env (objectsOf pv.certificates) := by
  cases hfirst : pv.certificates.head? with
  | none =>
    rw [List.head?_eq_none_iff] at hfirst
    rw [hfirst]
    exact fun k _ issued hissued => by cases hissued
  | some first =>
    have hne : objectsOf pv.certificates ≠ [] := fun hnil => by
      have hget := (findIdx?_true hfirst).2
      rw [hnil] at hget
      cases hget
    obtain ⟨k, c, hc, htake, -, hend⟩ := @untilSelfIssued_eq env _ hne
    obtain ⟨hk, -⟩ := List.getElem?_eq_some_iff.mp hc
    rw [htake] at hobjects
    refine .of_lt hc hend ?_
    rcases performBuildChain_cases hfirst h with ⟨-, rfl⟩ | ⟨-, hrun⟩
    · have hlen := congrArg List.length hobjects
      rw [List.length_take, Nat.min_eq_left hk] at hlen
      obtain rfl : 0 = k := Nat.succ.inj hlen
      exact nofun
    · obtain ⟨b, hb, hround⟩ := Loop.invariant (Traces.start hfirst) (fun _ _ hb hnext => hb.next hchain hnext) hrun
      exact hb.inOrder hchain hround hobjects hk

end Traces

section Build

theorem ne_nil_of_head {first : Certificate} (h : certificates.head? = some first) : objectsOf certificates ≠ [] := by
  intro hnil
  have hget := (findIdx?_true h).2
  rw [hnil] at hget
  cases hget

theorem performBuildChain_of_empty (env : Lookups) (fuel : Nat) (h : pv.certificates = []) :
    performBuildChain env fuel pv = some (.ok { pv with status := .unknown }) := by
  rw [performBuildChain]
  dsimp only
  rw [popCertificate_none, h]
  rfl

-- Without lookups, a list in order is kept up to the first certificate that issued itself.
theorem performBuildChain_ordered (hl : pv.lookups = false) (hchain : (objectsOf pv.certificates).IsChain (isIssuer env · ·))
    (horder : InOrder env (objectsOf pv.certificates)) :
    ∃ fuel pv', performBuildChain env fuel pv = some (.ok pv') ∧
      pv'.objects = untilSelfIssued env (objectsOf pv.certificates) := by
  cases hfirst : pv.certificates.head? with
  | none =>
    rw [List.head?_eq_none_iff] at hfirst
    refine ⟨0, _, performBuildChain_of_empty env 0 hfirst, ?_⟩
    rw [ChainPrivate.objects, hfirst]
    rfl
  | some first =>
    obtain ⟨k, c, hc, htake, hself, hend⟩ := @untilSelfIssued_eq env _ (ne_nil_of_head hfirst)
    obtain ⟨hk, -⟩ := List.getElem?_eq_some_iff.mp hc
    have hpin : isPinned env pv first = .ok false := by rw [isPinned, hl]
    obtain ⟨b, hreach, hb⟩ := (Stands.start hfirst).reaches hchain horder hself hk fun h => by rw [hl] at h; cases h
    have hstop := hb.stop hc hend fun h => by rw [hl] at h; cases h
    obtain ⟨fuel, hbuild⟩ := performBuildChain_of_reaches hfirst hpin hreach hstop
    exact ⟨fuel, _, hbuild, hb.objects.trans htake.symm⟩

-- The loop went on behind each certificate of the chain but the last.
structure Ongoing (env : Lookups) (pv : ChainPrivate) (b : Build) : Prop where
  progress : Progress env pv b
  self     : NotSelfIssued env b.pv.objects (b.pv.objects.length - 1)

theorem NotSelfIssued.last (h : NotSelfIssued env cs (cs.length - 1)) (hlast : cs.getLast? = some c)
    (hself : isIssuer env c c = false) : NotSelfIssued env cs cs.length := by
  intro i hi d hd
  rcases Nat.lt_or_ge i (cs.length - 1) with hlt | hge
  · exact h i hlt d hd
  · obtain rfl : i = cs.length - 1 := by omega
    rw [List.getLast?_eq_getElem?] at hlast
    cases hlast.symm.trans hd
    exact hself

theorem Ongoing.next (h : Ongoing env pv b) (hnext : buildRound env b = .inr b') : Ongoing env pv b' := by
  obtain ⟨hself, -, hpv, -⟩ := buildRound_eq_inr hnext
  have hobjects : b'.pv.objects = b.pv.objects ++ [b'.certificate.object] := hpv ▸ b.pv.objects_append b'.certificate
  refine ⟨h.progress.next hnext, ?_⟩
  rw [hobjects, List.length_append, List.length_singleton, Nat.add_sub_cancel]
  intro i hi d hd
  rw [List.getElem?_append_left hi] at hd
  exact h.self.last h.progress.last hself i hi d hd

theorem Progress.start_firstRound {first : Certificate} (h : pv.certificates.head? = some first) :
    Progress env pv (firstRound pv first) := by
  refine .start h (removeIndexFast_perm ?_)
  rw [← List.head?_eq_getElem?, h]

theorem Ongoing.start {first : Certificate} (h : pv.certificates.head? = some first) : Ongoing env pv (firstRound pv first) where
  progress := .start_firstRound h
  self     := nofun

-- The same parameters of a build.
structure Alike (pv pv' : ChainPrivate) : Prop where
  purpose : pv'.purpose = pv.purpose
  peer    : pv'.peer = pv.peer
  flags   : pv'.flags = pv.flags

theorem Alike.lookups (h : Alike pv pv') : pv'.lookups = pv.lookups := by
  rw [ChainPrivate.lookups, ChainPrivate.lookups, h.flags]

theorem Alike.isPinned (h : Alike pv pv') {first first' : Certificate} (hfirst : first'.object = first.object) :
    isPinned env pv' first' = isPinned env pv first := by
  rw [CertificateChain.isPinned, CertificateChain.isPinned, h.lookups, h.purpose, h.peer, hfirst]

theorem Progress.anchored (p : Progress env pv b) (hl : pv.lookups) {d : Object} (hd : b.pv.objects[i + 1]? = some d) :
    env.isCertificateAnchored d.der pv.purpose = .ok false := by
  refine p.anchors hl d ?_
  rw [← List.getElem?_tail] at hd
  exact List.mem_of_getElem? hd

section Again

variable {pv₂ : ChainPrivate} {first : Certificate} (hsame : Alike pv pv₂) (hfirst : pv₂.certificates.head? = some first)
variable (hchain : pv₂.objects.IsChain (isIssuer env · ·)) (horder : InOrder env pv₂.objects)
variable (hpin : isPinned env pv₂ first = .ok false)

include hsame hfirst hchain horder hpin

-- The loop ends where it ended before, if there is no issuer of the last certificate.
theorem performBuildChain_again_stop (h : Ongoing env pv b) (hobjects : pv₂.objects = b.pv.objects)
    (hnone : pv.lookups → isIssuer env b.certificate.object b.certificate.object = false →
      env.lookupIssuer b.certificate.object.der = .ok none) :
    ∃ fuel r, performBuildChain env fuel pv₂ = some (.ok r) ∧ r.objects = b.pv.objects ∧
      r.status = statusOf env b.certificate.object := by
  have hlast := h.progress.last
  rw [List.getLast?_eq_getElem?] at hlast
  obtain ⟨hk, -⟩ := List.getElem?_eq_some_iff.mp hlast
  have hlen : b.pv.objects.length - 1 + 1 = b.pv.objects.length := by omega
  rw [hobjects] at hchain horder
  have hstart := Stands.start hfirst
  rw [show objectsOf pv₂.certificates = b.pv.objects from hobjects] at hstart
  obtain ⟨b', hreach, hb'⟩ := hstart.reaches hchain horder h.self hk fun hl i _ d hd => by
    rw [hsame.purpose]
    exact h.progress.anchored (hsame.lookups ▸ hl) hd
  have hstop := hb'.stop hlast (.inr hlen) fun hl => hnone (hsame.lookups ▸ hl)
  obtain ⟨fuel, hbuild⟩ := performBuildChain_of_reaches hfirst hpin hreach hstop
  refine ⟨fuel, _, hbuild, ?_, rfl⟩
  have hobj := hb'.objects
  rw [hlen, List.take_length] at hobj
  exact hobj

-- It ends at the anchor again.
theorem performBuildChain_again_anchor (h : Ongoing env pv b) (hobjects : pv₂.objects = b.pv.objects ++ [c])
    (hself : isIssuer env b.certificate.object b.certificate.object = false) (hl : pv.lookups)
    (hanchor : env.isCertificateAnchored c.der pv.purpose = .ok true) :
    ∃ fuel r, performBuildChain env fuel pv₂ = some (.ok r) ∧ r.objects = b.pv.objects ++ [c] ∧ r.status = .anchored := by
  have hlast := h.progress.last
  rw [List.getLast?_eq_getElem?] at hlast
  obtain ⟨hk, -⟩ := List.getElem?_eq_some_iff.mp hlast
  have hlen : b.pv.objects.length - 1 + 1 = b.pv.objects.length := by omega
  have hnot : NotSelfIssued env (b.pv.objects ++ [c]) b.pv.objects.length := by
    intro i hi d hd
    rw [List.getElem?_append_left hi] at hd
    exact h.self.last h.progress.last hself i hi d hd
  have hc : (b.pv.objects ++ [c])[b.pv.objects.length - 1 + 1]? = some c := by
    rw [hlen, List.getElem?_append_right (Nat.le_refl _), Nat.sub_self]
    rfl
  rw [hobjects] at hchain horder
  have hstart := Stands.start hfirst
  rw [show objectsOf pv₂.certificates = b.pv.objects ++ [c] from hobjects] at hstart
  obtain ⟨b', hreach, hb'⟩ := hstart.reaches hchain horder (hnot.mono (Nat.sub_le _ 1))
    (by rw [List.length_append]; omega) fun hl' i hi d hd => by
      rw [List.getElem?_append_left (by omega)] at hd
      rw [hsame.purpose]
      exact h.progress.anchored hl hd
  have hsame' : b'.certificate.object = b.certificate.object := by
    have hlast' := hb'.last
    rw [List.getElem?_append_left hk] at hlast'
    exact Option.some.inj (hlast'.symm.trans hlast)
  obtain ⟨r, hround, hobj, hstatus⟩ := hb'.anchor (horder _ (hlen ▸ hnot)) hc (isIssuer_of_isChain hchain hb'.last hc) (hsame' ▸ hself) (hsame.lookups ▸ hl)
    (hsame.purpose ▸ hanchor)
  obtain ⟨fuel, hbuild⟩ := performBuildChain_of_reaches hfirst hpin hreach hround
  refine ⟨fuel, r, hbuild, ?_, hstatus⟩
  rw [hobj, List.take_of_length_le]
  rw [List.length_append, List.length_singleton]
  omega

end Again

-- A list that was built is in order if no certificate before its last one issued itself.
theorem untilSelfIssued_of_not (h : NotSelfIssued env cs (cs.length - 1)) : untilSelfIssued env cs = cs := by
  rcases eq_or_ne cs [] with rfl | hne
  · rfl
  · obtain ⟨k, c, hc, htake, -, hend⟩ := @untilSelfIssued_eq env cs hne
    obtain ⟨hk, -⟩ := List.getElem?_eq_some_iff.mp hc
    have hlen : k + 1 = cs.length := by
      rcases hend with hself | hlen
      · by_contra hnot
        have hfalse := h k (by omega) c hc
        rw [hself] at hfalse
        cases hfalse
      · exact hlen
    rw [htake, hlen, List.take_length]

-- The first certificate of the chain is not pinned.
def Unpinned (env : Lookups) (pv pv' : ChainPrivate) : Prop :=
  ∃ first : Certificate, pv'.objects.head? = some first.object ∧ isPinned env pv first = .ok false

-- In what way a chain was built that is not empty.
inductive Outcome (env : Lookups) (pv pv' : ChainPrivate) : Prop
  | pinned (first : Certificate) (hpin : isPinned env pv first = .ok true) (hobjects : pv'.objects = [first.object])
    (hstatus : pv'.status = .pinned)
  | stopped (b : Build) (h : Ongoing env pv b) (hpin : Unpinned env pv pv') (hobjects : pv'.objects = b.pv.objects)
    (hstatus : pv'.status = statusOf env b.certificate.object)
    (hnone : pv.lookups → isIssuer env b.certificate.object b.certificate.object = false →
      env.lookupIssuer b.certificate.object.der = .ok none)
  | anchored (b : Build) (c : Object) (h : Ongoing env pv b) (hpin : Unpinned env pv pv')
    (hobjects : pv'.objects = b.pv.objects ++ [c]) (hstatus : pv'.status = .anchored)
    (hself : isIssuer env b.certificate.object b.certificate.object = false) (hl : pv.lookups)
    (hanchor : env.isCertificateAnchored c.der pv.purpose = .ok true)

theorem Outcome.of_build {fuel : Nat} {first : Certificate} (hfirst : pv.certificates.head? = some first)
    (h : performBuildChain env fuel pv = some (.ok pv')) : Outcome env pv pv' := by
  rcases performBuildChain_cases hfirst h with ⟨hpin, rfl⟩ | ⟨hpin, hrun⟩
  · exact .pinned first hpin rfl rfl
  · obtain ⟨b, hb, hround⟩ := Loop.invariant (Ongoing.start hfirst) (fun _ _ hb hnext => hb.next hnext) hrun
    have hhead : b.pv.objects.head? = some first.object := by
      rw [hb.progress.first, ChainPrivate.objects, List.head?_map, hfirst, Option.map_some]
    rcases buildRound_eq_inl hround with ⟨hself, rfl⟩ | ⟨hself, hnext, rfl⟩ | ⟨certificate, input, hself, -, hl, hanchor, rfl⟩
    · refine .stopped b hb ⟨first, hhead, hpin⟩ rfl ?_ fun _ hnot => ?_
      · rw [statusOf, if_pos hself]
      · rw [hself] at hnot
        cases hnot
    · refine .stopped b hb ⟨first, hhead, hpin⟩ rfl ?_ fun hl _ => ?_
      · rw [statusOf, if_neg (Bool.eq_false_iff.mp hself)]
      · exact (nextCertificate_eq_none hnext).2 (hb.progress.lookups ▸ hl)
    · have hobjects : ChainPrivate.objects { b.pv with certificates := b.pv.certificates ++ [certificate], status := .anchored } =
          b.pv.objects ++ [certificate.object] := b.pv.objects_append certificate
      refine .anchored b certificate.object hb ⟨first, ?_, hpin⟩ hobjects rfl hself (hb.progress.lookups ▸ hl)
        (hb.progress.purpose ▸ hanchor)
      rw [hobjects, List.head?_append_of_ne_nil _ hb.progress.ne_nil, hhead]

theorem Outcome.untilSelfIssued (h : Outcome env pv pv') : untilSelfIssued env pv'.objects = pv'.objects := by
  refine untilSelfIssued_of_not ?_
  cases h with
  | pinned first _ hobjects _         => rw [hobjects]; exact nofun
  | stopped b h _ hobjects _ _        => rw [hobjects]; exact h.self
  | anchored b c h _ hobjects _ hself =>
    rw [hobjects, List.length_append, List.length_singleton, Nat.add_sub_cancel]
    intro i hi d hd
    rw [List.getElem?_append_left hi] at hd
    exact h.self.last h.progress.last hself i hi d hd

theorem Unpinned.alike {pv₂ : ChainPrivate} {first : Certificate} (h : Unpinned env pv pv') (hsame : Alike pv pv₂)
    (hobjects : pv₂.objects = pv'.objects) (hfirst : pv₂.certificates.head? = some first) :
    isPinned env pv₂ first = .ok false := by
  obtain ⟨first', hhead, hpin⟩ := h
  rw [← hobjects, ChainPrivate.objects, List.head?_map, hfirst, Option.map_some, Option.some_inj] at hhead
  exact (hsame.isPinned hhead).trans hpin

-- A chain that was built and is in order is the same when it is built again.
theorem Outcome.again (h : Outcome env pv pv') {pv₂ : ChainPrivate} (hsame : Alike pv pv₂) (heq : pv₂.objects = pv'.objects)
    (hchain : pv'.objects.IsChain (isIssuer env · ·)) (horder : InOrder env pv'.objects) :
    ∃ fuel r, performBuildChain env fuel pv₂ = some (.ok r) ∧ r.objects = pv'.objects ∧ r.status = pv'.status := by
  have hne : pv₂.objects ≠ [] := by
    rw [heq]
    cases h with
    | pinned _ _ hobjects _         => rw [hobjects]; exact List.cons_ne_nil _ _
    | stopped b h _ hobjects _ _    => rw [hobjects]; exact h.progress.ne_nil
    | anchored b c h _ hobjects _ _ => rw [hobjects]; exact List.append_ne_nil_of_right_ne_nil _ (List.cons_ne_nil _ _)
  cases hfirst : pv₂.certificates.head? with
  | none =>
    rw [List.head?_eq_none_iff] at hfirst
    exact absurd (congrArg objectsOf hfirst) hne
  | some first =>
    rw [← heq] at hchain horder
    cases h with
    | pinned first' hpin hobjects hstatus =>
      have hsingle := heq.trans hobjects
      have hobject : first.object = first'.object := by
        have hhead := congrArg List.head? hsingle
        rw [ChainPrivate.objects, List.head?_map, hfirst] at hhead
        exact Option.some.inj hhead
      have hpin' := (hsame.isPinned hobject).trans hpin
      refine ⟨0, _, performBuildChain_of_pinned (popCertificate_first env hfirst) hpin', ?_, hstatus.symm⟩
      rw [hobjects, ← hobject]
      rfl
    | stopped b h hpin hobjects hstatus hnone =>
      have hagain := performBuildChain_again_stop hsame hfirst hchain horder (hpin.alike hsame heq hfirst) h (heq.trans hobjects) hnone
      rwa [← hobjects, ← hstatus] at hagain
    | anchored b c h hpin hobjects hstatus hself hl hanchor =>
      have hagain := performBuildChain_again_anchor hsame hfirst hchain horder (hpin.alike hsame heq hfirst) h (heq.trans hobjects)
        hself hl hanchor
      rwa [← hobjects, ← hstatus] at hagain

end Build

section Documented

variable {self self' : ChainPrivate} {purpose : String} {peer : Option String} {flags : UInt32}

-- The list is as it was up to the first certificate that issued itself.
def KeepsOrder (env : Lookups) (self : ChainPrivate) (purpose : String) (peer : Option String) (flags : UInt32) : Prop :=
  ∃ fuel self', gcrCertificateChainBuild env fuel self purpose peer flags = some (.ok (), self') ∧
    self'.objects = untilSelfIssued env self.objects

-- The certificates and the status are as they were.
def Stable (env : Lookups) (self : ChainPrivate) (purpose : String) (peer : Option String) (flags : UInt32) : Prop :=
  ∃ fuel self', gcrCertificateChainBuild env fuel self purpose peer flags = some (.ok (), self') ∧
    self'.objects = self.objects ∧ self'.status = self.status

theorem gcrCertificateChainBuild_ok_iff {fuel : Nat} :
    gcrCertificateChainBuild env fuel self purpose peer flags = some (.ok (), self') ↔
      ∃ pv, performBuildChain env fuel (prepChainPrivate self purpose peer flags) = some (.ok pv) ∧ self' = cleanupChainPrivate pv := by
  rw [gcrCertificateChainBuild, Option.map_eq_some_iff]
  constructor
  · rintro ⟨outcome, hbuild, heq⟩
    cases outcome with
    | error e => cases heq
    | ok pv   => cases heq; exact ⟨pv, hbuild, rfl⟩
  · rintro ⟨pv, hbuild, rfl⟩
    exact ⟨.ok pv, hbuild, rfl⟩

theorem lookups_of_noLookups (self : ChainPrivate) (purpose : String) (peer : Option String)
    (h : flags &&& noLookups = noLookups) : (prepChainPrivate self purpose peer flags).lookups = false :=
  decide_eq_false (not_not.mpr h)

theorem keepsOrder_of_inOrder (h : flags &&& noLookups = noLookups) (hchain : self.objects.IsChain (isIssuer env · ·))
    (horder : InOrder env self.objects) : KeepsOrder env self purpose peer flags := by
  obtain ⟨fuel, pv, hbuild, hobjects⟩ :=
    performBuildChain_ordered (lookups_of_noLookups self purpose peer h) hchain horder
  refine ⟨fuel, _, (gcrCertificateChainBuild_ok_iff).mpr ⟨pv, hbuild, rfl⟩, ?_⟩
  rw [objects_cleanupChainPrivate]
  exact hobjects

theorem inOrder_of_keepsOrder (h : KeepsOrder env self purpose peer flags) (hchain : self.objects.IsChain (isIssuer env · ·)) :
    InOrder env self.objects := by
  obtain ⟨fuel, self', hbuild, hobjects⟩ := h
  obtain ⟨pv, hperform, rfl⟩ := (gcrCertificateChainBuild_ok_iff).mp hbuild
  rw [objects_cleanupChainPrivate] at hobjects
  exact @performBuildChain_inOrder env (prepChainPrivate self purpose peer flags) pv fuel hchain hperform hobjects

-- The parameters of the second build are those of the first one.
theorem alike_prep (self self' : ChainPrivate) (purpose : String) (peer : Option String) (flags : UInt32) :
    Alike (prepChainPrivate self purpose peer flags) (prepChainPrivate self' purpose peer flags) :=
  ⟨rfl, rfl, rfl⟩

theorem outcome_of_build {fuel : Nat} {pv : ChainPrivate}
    (h : performBuildChain env fuel (prepChainPrivate self purpose peer flags) = some (.ok pv)) :
    (pv.certificates = [] ∧ pv.status = .unknown) ∨ Outcome env (prepChainPrivate self purpose peer flags) pv := by
  cases hfirst : self.certificates.head? with
  | some first => exact .inr (@Outcome.of_build env (prepChainPrivate self purpose peer flags) pv fuel first hfirst h)
  | none =>
    have hempty : self.certificates = [] := List.head?_eq_none_iff.mp hfirst
    cases (@performBuildChain_of_empty (prepChainPrivate self purpose peer flags) env fuel hempty).symm.trans h
    exact .inl ⟨hempty, rfl⟩

theorem issuers_of_build {fuel : Nat} (hfinds : env.FindsIssuers)
    (h : gcrCertificateChainBuild env fuel self purpose peer flags = some (.ok (), self')) :
    self'.objects.IsChain (isIssuer env · ·) := by
  obtain ⟨pv, hperform, rfl⟩ := (gcrCertificateChainBuild_ok_iff).mp h
  rw [objects_cleanupChainPrivate]
  rcases eq_or_ne self.certificates [] with hempty | hne
  · cases (@performBuildChain_of_empty (prepChainPrivate self purpose peer flags) env fuel hempty).symm.trans hperform
    rw [ChainPrivate.objects]
    exact hempty ▸ .nil
  · exact (@performBuildChain_built env (prepChainPrivate self purpose peer flags) pv fuel hne hperform).issuers hfinds

theorem stable_iff_inOrder {fuel : Nat} (h : gcrCertificateChainBuild env fuel self purpose peer flags = some (.ok (), self'))
    (hchain : self'.objects.IsChain (isIssuer env · ·)) : Stable env self' purpose peer flags ↔ InOrder env self'.objects := by
  obtain ⟨pv, hperform, rfl⟩ := (gcrCertificateChainBuild_ok_iff).mp h
  have heq := objects_cleanupChainPrivate pv
  rcases outcome_of_build hperform with ⟨hempty, hstatus⟩ | hout
  · have hempty' : (cleanupChainPrivate pv).certificates = [] := by rw [cleanupChainPrivate, hempty]; rfl
    have hobjects : (cleanupChainPrivate pv).objects = [] := by rw [ChainPrivate.objects, hempty']; rfl
    rw [hobjects]
    refine iff_of_true ?_ fun k _ issued hissued => by cases hissued
    have hbuild := @performBuildChain_of_empty (prepChainPrivate (cleanupChainPrivate pv) purpose peer flags) env 0 hempty'
    refine ⟨0, _, (gcrCertificateChainBuild_ok_iff).mpr ⟨_, hbuild, rfl⟩, objects_cleanupChainPrivate _, hstatus.symm⟩
  · constructor
    · rintro ⟨fuel', self'', hbuild, hobjects, -⟩
      refine inOrder_of_keepsOrder ⟨fuel', self'', hbuild, ?_⟩ hchain
      rw [hobjects, heq, hout.untilSelfIssued]
    · intro horder
      rw [heq] at hchain horder
      obtain ⟨fuel', r, hagain, hobjects, hstatus⟩ :=
        hout.again (alike_prep self (cleanupChainPrivate pv) purpose peer flags) heq hchain horder
      refine ⟨fuel', _, (gcrCertificateChainBuild_ok_iff).mpr ⟨r, hagain, rfl⟩, ?_, hstatus⟩
      rw [objects_cleanupChainPrivate, hobjects, heq]

-- A list in the documented order is kept, and a chain that was built is stable, just if fast removal puts no other issuer in
-- front of the next certificate.
theorem documented_order (env : Lookups) (purpose : String) (peer : Option String) (flags : UInt32) :
    (∀ self : ChainPrivate, flags &&& noLookups = noLookups → self.objects.IsChain (isIssuer env · ·) →
      (KeepsOrder env self purpose peer flags ↔ InOrder env self.objects)) ∧
    ∀ fuel self self', env.FindsIssuers → gcrCertificateChainBuild env fuel self purpose peer flags = some (.ok (), self') →
      (Stable env self' purpose peer flags ↔ InOrder env self'.objects) := by
  constructor
  · intro self hflags hchain
    exact ⟨fun h => inOrder_of_keepsOrder h hchain, keepsOrder_of_inOrder hflags hchain⟩
  · intro fuel self self' hfinds hbuild
    exact stable_iff_inOrder hbuild (issuers_of_build hfinds hbuild)

theorem documented_order_two : ∃ fuel self', gcrCertificateChainBuild (.small (fun _ => false) (fun _ => false) fun _ => none) fuel
      (.small [.small 1 2, .small 2 2]) "server" none 1 = some (.ok (), self') ∧
    (KeepsOrder (.small (fun _ => false) (fun _ => false) fun _ => none) (.small [.small 1 2, .small 2 2]) "server" none 1 ↔
      InOrder (.small (fun _ => false) (fun _ => false) fun _ => none) [.small 1 2, .small 2 2]) ∧
    (Stable (.small (fun _ => false) (fun _ => false) fun _ => none) self' "server" none 1 ↔
      InOrder (.small (fun _ => false) (fun _ => false) fun _ => none) self'.objects) := by
  have hfinds : (Lookups.small (fun _ => false) (fun _ => false) fun _ => none).FindsIssuers := fun _ _ h => by cases h
  have hbuild : gcrCertificateChainBuild (.small (fun _ => false) (fun _ => false) fun _ => none) 5
      (.small [.small 1 2, .small 2 2]) "server" none 1 =
        some (.ok (), ⟨[⟨.small 1 2, false⟩, ⟨.small 2 2, false⟩], .selfsigned, some "server", none, 1⟩) := by decide
  obtain ⟨hkeeps, hstable⟩ := documented_order (.small (fun _ => false) (fun _ => false) fun _ => none) "server" none 1
  exact ⟨5, _, hbuild, hkeeps (.small [.small 1 2, .small 2 2]) (by decide) (by decide), hstable 5 _ _ hfinds hbuild⟩

-- Two authorities have the same name: the last one is moved in front of the first, which is skipped.
theorem not_keepsOrder : ¬∀ (env : Lookups) (purpose : String) (peer : Option String) (flags : UInt32) (self : ChainPrivate),
    flags &&& noLookups = noLookups → self.objects.IsChain (isIssuer env · ·) → KeepsOrder env self purpose peer flags := by
  intro h
  have hkeeps := h (.small (fun _ => false) (fun _ => false) fun _ => none) "server" none 1
    (.small [.small 1 2, .small 2 3, .small 3 2, .small 2 2]) (by decide) (by decide)
  have horder := inOrder_of_keepsOrder hkeeps (by decide)
  have hself : NotSelfIssued (.small (fun _ => false) (fun _ => false) fun _ => none)
      [.small 1 2, .small 2 3, .small 3 2, .small 2 2] 1 := by
    intro i hi c hc
    obtain rfl : i = 0 := Nat.lt_one_iff.mp hi
    cases hc
    decide
  exact absurd (horder 0 hself (.small 1 2) rfl (.small 2 2) (by decide)) (by decide)

end Documented

end CertificateChain
