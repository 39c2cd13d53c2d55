import GcrModel.Gck.Session.Theorems.Find

namespace Session

open GLib Monitor

variable {σ α : Type*} {f : Functions σ} {rules : Rules} {fuel wantObjects : Nat} {module : σ}

theorem started {rv : RV} (hrv : rv = ckrOk) :
    rules.active [.init .search rv] = Function.update idle .search true ∧ rules.Admits idle [.init .search rv] :=
  ⟨by rw [hrv, Rules.active, after_cons, after_nil, init_ok], rfl, trivial⟩

theorem searchRound_calls (s : Search σ) :
    (∀ t, searchRound f s = .inl t → t.calls = s.calls ++ [.findObjects (f.findObjects 128 s.module).1.1
      (f.findObjects 128 s.module).1.2]) ∧
      ∀ t, searchRound f s = .inr t → t.calls = s.calls ++ [.findObjects (f.findObjects 128 s.module).1.1
        (f.findObjects 128 s.module).1.2] := by
  simp only [searchRound]
  split
  case isTrue  => simp
  case isFalse => simp

theorem searchRound_next {s t : Search σ}
    (hs : rules.active s.calls = Function.update idle .search true ∧ rules.Admits idle s.calls)
    (hst : Loop.Next (searchRound f) s t) :
    rules.active t.calls = Function.update idle .search true ∧ rules.Admits idle t.calls := by
  rw [(searchRound_calls s).2 t hst, active_findObjects, admits_findObjects]
  exact hs

theorem stateFind_quiet {args : SessionEnumerator} {h : Handled σ} (hf : stateFind f fuel args module = some h) :
    Quiet rules h.calls := by
  simp only [stateFind] at hf
  split at hf
  case h_1 => exact absurd hf (by simp)
  case h_2 =>
    split at hf
    case isTrue => exact absurd hf (by simp)
    case isFalse =>
      split at hf
      case isTrue =>
        cases hf
        exact .nil
      case isFalse =>
        split at hf
        case isFalse hrv =>
          cases hf
          exact .init_failed hrv
        case isTrue hrv =>
          split at hf
          case h_1 => exact absurd hf (by simp)
          case h_2 s hrun =>
            cases hf
            -- The search is active until the last call.
            obtain ⟨t, ⟨hactive, hadmits⟩, hstop⟩ := Loop.invariant
              (p := fun s => rules.active s.calls = Function.update idle .search true ∧ rules.Admits idle s.calls)
              (started hrv) (fun _ _ => searchRound_next) hrun
            have hcalls := (searchRound_calls t).1 s hstop
            refine ⟨active_final ?_, admits_final.mpr ?_⟩
            · rw [hcalls, active_findObjects, hactive]
            · rw [hcalls, admits_findObjects]
              exact hadmits

theorem stateResults_quiet {args : SessionEnumerator} {h : Handled σ} (hf : stateResults f args module = some h) :
    Quiet rules h.calls := by
  simp only [stateResults] at hf
  split at hf
  case h_1 =>
    split at hf
    case isTrue =>
      cases hf
      exact .nil
    case isFalse =>
      split at hf <;> cases hf <;> exact .nil
  case h_2 => exact absurd hf (by simp)

theorem forward_quiet {args : SessionEnumerator} {h : Handled σ} (hf : forward f fuel args module = some h) :
    Quiet rules h.calls := by
  simp only [forward] at hf
  split at hf
  case h_1 | h_2 =>
    cases hf
    exact .nil
  case h_3 => exact absurd hf (by simp)
  case h_4 =>
    obtain ⟨_, _, rfl⟩ := Option.map_eq_some_iff.mp hf
    exact .nil
  case h_5 => exact stateFind_quiet hf
  case h_6 => exact stateResults_quiet hf

theorem forwardRound_quiet {s : Enumerating σ} (hs : Quiet rules s.calls) :
    (∀ t, forwardRound f fuel s = .inr t → Quiet rules t.calls) ∧
      ∀ t, forwardRound f fuel s = .inl (some t) → Quiet rules t.calls := by
  simp only [forwardRound]
  split
  case h_1 => simp
  case h_2 h hf =>
    have hquiet := hs.append (forward_quiet hf)
    split
    case h_1 => simpa using hquiet
    case h_2 => simpa using hquiet

theorem performEnumerateNext_quiet {count : Nat} {states : List SessionEnumerator}
    {p : Performed σ (List SessionEnumerator)} (h : performEnumerateNext f fuel wantObjects count states module = some p) :
    Quiet rules p.calls := by
  induction states generalizing count module p
  case nil =>
    cases h
    exact .nil
  case cons state chained ih =>
    simp only [performEnumerateNext] at h
    split at h
    case h_1 => exact absurd h (by simp)
    case h_2 s hrun =>
      obtain ⟨t, ht, hstop⟩ := Loop.invariant (p := fun s => Quiet rules s.calls) .nil
        (fun s t hs hst => (forwardRound_quiet hs).1 t hst) (Option.join_eq_some_iff.mp hrun)
      have hs : Quiet rules s.calls := (forwardRound_quiet ht).2 s hstop
      split at h
      case isTrue =>
        cases h
        exact hs
      case isFalse =>
        obtain ⟨p, hp, rfl⟩ := Option.map_eq_some_iff.mp h
        exact hs.append (ih hp)

-- What a call on the session does, if what it performs is.
structure Calls (rules : Rules) (r : Returned σ α) (delivers : α → List Event → Prop) (regular : Prop) : Prop where
  admitted : rules.Admits idle r.calls
  kept     : rules.active r.calls = idle ∧ (∀ v, r.reply = .ok v → delivers v r.calls) ↔ regular

theorem Calls.silent {r : Returned σ α} {delivers : α → List Event → Prop} {regular : Prop} (hcalls : r.calls = [])
    (hreply : ∀ v, r.reply ≠ .ok v) (h : regular) : Calls rules r delivers regular where
  admitted := hcalls ▸ trivial
  kept     := ⟨fun _ => h, fun _ => ⟨hcalls ▸ rfl, fun v hv => absurd hv (hreply v)⟩⟩

theorem call_calls {how : How} {perform : σ → Option (Performed σ α)} {r : Returned σ α}
    {delivers : α → List Event → Prop} {regular : Bool → Prop} (h : call how perform module = some r)
    (hp : ∀ p, perform module = some p → Performs rules p delivers regular) :
    Calls rules r delivers (how.begins → regular how.finishes) := by
  have hsync : ∀ {cancelled r}, callSync cancelled perform module = some r →
      Calls rules r delivers (!cancelled → regular true) ∧
        Calls rules (basicFinish true r) delivers (!cancelled → regular false) := by
    intro cancelled r hr
    cases cancelled
    case true =>
      cases hr
      exact ⟨.silent rfl (by simp) (by simp), .silent rfl (by simp [basicFinish]) (by simp)⟩
    case false =>
      obtain ⟨p, hperform, rfl⟩ := Option.map_eq_some_iff.mp hr
      have hp := hp p hperform
      refine ⟨⟨hp.admitted, ?_⟩, ⟨hp.admitted, ?_⟩⟩
      · have hreply : (∀ v, (if p.rv = ckrOk then Reply.ok p.args else .error p.rv) = .ok v → delivers v p.calls) ↔
            (p.rv = ckrOk → delivers p.args p.calls) := by
          by_cases hrv : p.rv = ckrOk <;> simp [hrv]
        simpa [hreply] using hp.kept true
      · simpa [basicFinish] using hp.kept false
  cases how
  case sync cancelled => exact (hsync h).1
  case async cancelled cancelledLater =>
    obtain ⟨r, hr, rfl⟩ := Option.map_eq_some_iff.mp h
    cases cancelledLater
    case false => exact (hsync hr).1
    case true  => exact (hsync hr).2

theorem Calls.value {r : Returned σ α} {delivers : α → List Event → Prop} {regular : Prop} {g : α → Value}
    (h : Calls rules r delivers regular)
    (hg : ∀ v, Delivered (σ := σ) ⟨.ok (g v), r.calls, r.module⟩ ↔ delivers v r.calls) :
    rules.Admits idle r.calls ∧ (rules.active r.calls = idle ∧ Delivered (r.value g) ↔ regular) := by
  refine ⟨h.admitted, Iff.trans (and_congr_right' ?_) h.kept⟩
  rcases r with ⟨reply, calls, module⟩
  cases reply
  case refused  => simp [Delivered, Returned.value, Reply.map]
  case error rv => simp [Delivered, Returned.value, Reply.map]
  case ok v     => simpa [Returned.value, Reply.map] using hg v

theorem crypt_calls {how : How} {args : Crypt} {r : Returned σ CryptResult}
    (h : crypt f how fuel args module = some r) :
    Calls rules r CryptResult.Delivers (how.begins → Crypt.Regular f rules args module) := by
  simp only [crypt] at h
  split at h
  case isTrue hkey =>
    cases h
    exact .silent rfl (by simp) fun _ hne => absurd hkey hne
  case isFalse hkey => exact call_calls h fun p hp => performCrypt_performs hkey hp

theorem gckSessionVerify_calls {how : How} {args : Verify} {r : Returned σ Unit}
    (h : gckSessionVerify f how fuel args module = some r) :
    Calls rules r (fun _ _ => True) (how.begins → Verify.Regular f args module) := by
  simp only [gckSessionVerify] at h
  split at h
  case isTrue hkey =>
    cases h
    exact .silent rfl (by simp) fun _ hne => absurd hkey hne
  case isFalse hkey => exact call_calls h fun p hp => performVerify_performs hkey hp

theorem gckSessionFindHandles_calls {how : How} {attrs : List (Nat × Bytes)} {r : Returned σ (List Nat)}
    (h : gckSessionFindHandles f how fuel attrs module = some r) :
    Calls rules r (fun handles calls => handles = found calls) (how.begins → FindHandles.Regular f how attrs module) := by
  have hcalls : Calls rules r _ _ := call_calls h fun p hp => performFindObjects_performs hp
  have hhow : FindHandles.Regular f (.async false !how.finishes) attrs module ↔ FindHandles.Regular f how attrs module := by
    refine ⟨fun hr => ⟨hr.succeeds, fun hok hf => hr.counts hok ?_⟩, fun hr => ⟨hr.succeeds, fun hok hf => hr.counts hok ?_⟩⟩
    · simpa [How.finishes] using hf
    · simpa [How.finishes] using hf
  simpa only [hhow] using hcalls

theorem gckEnumeratorNext_calls {how : How} {states : List SessionEnumerator} {r : Returned σ (List SessionEnumerator)}
    (h : gckEnumeratorNext f how fuel wantObjects states module = some r) :
    Calls rules r (fun _ _ => True) (how.begins → True) := by
  suffices ∀ p, performEnumerateNext f fuel wantObjects 0 states module = some p →
      Performs rules p (fun _ _ => True) fun _ => True from call_calls h this
  intro p hp
  have hquiet : Quiet rules p.calls := performEnumerateNext_quiet hp
  exact ⟨hquiet.admitted, fun _ => by simp [hquiet.ended]⟩

-- One call: it finds no reason to be refused, and it leaves nothing active and delivers what it should if and
-- only if it is regular.
theorem perform_calls {how : How} {c : Call} {r : Returned σ Value} (h : perform f fuel how module c = some r) :
    rules.Admits idle r.calls ∧
      (rules.active r.calls = idle ∧ Delivered r ↔ (how.begins → c.Regular f rules how module)) := by
  cases c
  case encrypt | decrypt | sign =>
    obtain ⟨r, hr, rfl⟩ := Option.map_eq_some_iff.mp h
    exact (crypt_calls hr).value fun v => Iff.rfl
  case verify =>
    obtain ⟨r, hr, rfl⟩ := Option.map_eq_some_iff.mp h
    exact (gckSessionVerify_calls hr).value fun v => Iff.rfl
  case findHandles =>
    obtain ⟨r, hr, rfl⟩ := Option.map_eq_some_iff.mp h
    exact (gckSessionFindHandles_calls hr).value fun v => Iff.rfl
  case enumerateNext =>
    obtain ⟨r, hr, rfl⟩ := Option.map_eq_some_iff.mp h
    exact (gckEnumeratorNext_calls hr).value fun v => Iff.rfl

theorem Step.keeps {s s' : State σ} {e : How × Call} (h : Step f s e s') (hs : Kept rules s) :
    Kept rules s' ↔ Regular f rules s e := by
  obtain ⟨fuel, r, hr, rfl⟩ := h
  have hcalls : rules.Admits idle r.calls ∧ _ := perform_calls hr
  obtain ⟨hadmits, hkept⟩ := hcalls
  rw [Regular, ← hkept]
  constructor
  · intro hs'
    exact ⟨active_append hs.ended ▸ hs'.ended, hs'.delivered r rfl⟩
  · rintro ⟨hidle, hdelivered⟩
    refine ⟨(active_append hs.ended).trans hidle, (admits_append hs.ended).mpr ⟨hs.admitted, hadmits⟩, ?_⟩
    rintro _ ⟨⟩
    exact hdelivered

theorem Run.idle_iff {ts : List (State σ × (How × Call) × State σ)} {s : State σ} (r : Run f ts s) :
    (∀ t ∈ ts, Kept rules t.2.2) ↔ ∀ t ∈ ts, Regular f rules t.1 t.2.1 := by
  refine Transition.Run.forall_iff (p := fun _ => True) r (fun _ _ => trivial) (fun _ _ _ _ _ => trivial) ?_ ?_
  · rintro s ⟨hcalls, hreturned⟩
    refine ⟨?_, ?_, ?_⟩
    · rw [hcalls]
      rfl
    · rw [hcalls]
      trivial
    · simp [hreturned]
  · intro s e s' _ hs hstep
    exact hstep.keeps hs

-- A module that starts a search and fails then, with CKR_DEVICE_ERROR.
def failing : Functions Unit where
  init _ _ _ s          := (ckrOk, s)
  lengthOf _ _ s        := ((ckrOk, 0), s)
  complete _ _ _ s      := ((ckrOk, []), s)
  verify _ _ s          := (ckrOk, s)
  findObjectsInit _ s   := (ckrOk, s)
  findObjects _ s       := ((0x30, []), s)
  findObjectsFinal s    := (ckrOk, s)
  keyAttributes _ s     := ((ckrAttributeTypeInvalid, ⟨0, 0⟩), s)
  keyLabel _ _ s        := ((ckrOk, []), s)
  attributeSizes _ _ s  := (ckrOk, s)
  attributeValues _ _ s := ((ckrOk, []), s)
  getSessionInfo s      := ((ckrOk, 0), s)
  getTokenInfo _ s      := ((ckrOk, 0), s)
  login _ s             := (ckrOk, s)
  askPassword _ s       := (.unhandled, s)
  complete_length       := fun _ _ _ _ => Nat.zero_le _
  findObjects_count     := fun _ _ => Nat.zero_le _

def failedSearch : State Unit where
  module   := ()
  calls    := [.init .search ckrOk, .findObjects 0x30 []]
  returned := some ⟨.error 0x30, [.init .search ckrOk, .findObjects 0x30 []], ()⟩

theorem failing_run :
    Run failing [(⟨(), [], none⟩, (.sync false, .findHandles []), failedSearch)] failedSearch :=
  .step (.start ⟨rfl, rfl⟩) ⟨1, _, rfl, rfl⟩

-- A signature comes before the search.
theorem Run.idle_iff_twoCalls : ∃ ts s, Run failing ts s ∧
    ts.map (·.2.1) = [(.sync false, .findHandles []), (.sync false, .sign 1 ⟨0, []⟩ [7] false)] ∧
      ((∀ t ∈ ts, Kept ⟨false⟩ t.2.2) ↔ ∀ t ∈ ts, Regular failing ⟨false⟩ t.1 t.2.1) := by
  obtain ⟨s, hsign⟩ : ∃ s, Step failing ⟨(), [], none⟩ (.sync false, .sign 1 ⟨0, []⟩ [7] false) s := ⟨_, 9, _, rfl, rfl⟩
  obtain ⟨s', hfind⟩ : ∃ s', Step failing s (.sync false, .findHandles []) s' := ⟨_, 1, _, rfl, rfl⟩
  have r : Run failing _ s' := .step (.step (.start ⟨rfl, rfl⟩) hsign) hfind
  exact ⟨_, _, r, rfl, Run.idle_iff r⟩

-- The search is still active, whatever the rules are.
theorem Run.not_idle : ¬∀ rules ts s, Run failing ts s → ∀ t ∈ ts, Kept rules t.2.2 := by
  intro h
  have hkept := (h ⟨false⟩ _ _ failing_run _ List.mem_cons_self).ended
  exact absurd (congrFun hkept .search) (by decide)

end Session
