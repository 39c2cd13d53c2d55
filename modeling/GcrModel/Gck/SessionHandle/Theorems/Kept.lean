import GcrModel.Gck.SessionHandle.Theorems.References

namespace SessionHandle

open Transition (Outcome)

variable {s s' : State} {i j h handle : Nat} {holder : Holder} {loginUser cancelled : Bool} {answers : Answers}
  {e : Event}

-- What a step keeps, and when it keeps the account of the handles.
structure Follows (s s' : State) (regular : Prop) : Prop where
  valid  : Valid s'
  ledger : Ledger s → (Ledger s' ↔ regular)

theorem Follows.of_true {p : Prop} (hf : Follows s s' True) (hp : p) : Follows s s' p where
  valid  := hf.valid
  ledger := fun hl => (hf.ledger hl).trans (iff_true_intro hp).symm

theorem Follows.trans {t : State} {p : Prop} (hl : Ledger s → Ledger t) (hf : Follows t s' p) : Follows s s' p where
  valid  := hf.valid
  ledger := fun h => hf.ledger (hl h)

theorem Follows.of_unref (hv : Valid s) (hr : (holder, i) ∈ s.references) (hc : holder = .task → s.calls i = none)
    (h : s.unref holder i = .ok s') : Follows s s' True := by
  obtain ⟨t, ht, hvalid, hledger⟩ := hv.unref hr hc
  obtain rfl : t = s' := by simpa [ht] using h
  exact ⟨hvalid, fun hl => iff_true_intro (hledger.mpr hl)⟩

-- A session without a call that gets a handle.
theorem setHandle_usesBy (hpos : 0 < (s.sessions i).refs) (hc : s.calls i = none) :
    (s.setSession i { s.sessions i with handle := h }).UsesBy j handle ↔ if j = i then h = handle else s.UsesBy j handle := by
  by_cases heq : j = i
  case pos => simp [State.UsesBy, State.setSession, heq, hpos, hc]
  case neg => simp [State.UsesBy, State.setSession, heq]

theorem Valid.setHandle (hv : Valid s) (hpos : 0 < (s.sessions i).refs) (hc : s.calls i = none)
    (hu : h ≠ 0 → ∀ j, j ≠ i → ¬s.UsesBy j h) : Valid (s.setSession i { s.sessions i with handle := h }) := by
  refine ⟨fun j => ?_, fun j hj => ?_, hv.tasked, fun j call hj => ?_, fun j hj => ?_, fun j k h' hh hj hk => ?_⟩
  · have hcount := hv.counted j
    by_cases heq : j = i
    case pos => simpa [State.count, State.setSession, heq] using heq ▸ hcount
    case neg => simpa [State.count, State.setSession, heq] using hcount
  · have hne : j ≠ i := by
      rintro rfl
      exact absurd (hv.fresh j hj).1 (by omega)
    simpa [State.setSession, hne] using hv.fresh j hj
  · have hne : j ≠ i := by
      rintro rfl
      simp [State.setSession, hc] at hj
    simpa [State.setSession, hne] using hv.called j call hj
  · by_cases heq : j = i
    case pos => simpa [State.setSession, heq] using hv.kept i hpos
    case neg =>
      simp only [State.setSession, Function.update_of_ne heq] at hj ⊢
      exact hv.kept j hj
  · rw [setHandle_usesBy hpos hc] at hj hk
    split at hj
    case isTrue hj' =>
      split at hk
      case isTrue hk'  => rw [hj', hk']
      case isFalse hk' => exact absurd (hj ▸ hk) (hu (hj ▸ hh) k hk')
    case isFalse hj' =>
      split at hk
      case isTrue hk'  => exact absurd (hk ▸ hj) (hu (hk ▸ hh) j hj')
      case isFalse hk' => exact hv.alone j k h' hh hj hk

theorem setHandle_uses (hpos : 0 < (s.sessions i).refs) (hc : s.calls i = none) (hzero : (s.sessions i).handle = 0)
    (hh : handle ≠ 0) :
    (s.setSession i { s.sessions i with handle := h }).Uses handle ↔ handle = h ∨ s.Uses handle := by
  constructor
  · rintro ⟨j, hj⟩
    have hj' := (setHandle_usesBy hpos hc).mp hj
    split at hj'
    case isTrue  => exact .inl hj'.symm
    case isFalse => exact .inr hj'.uses
  · rintro (rfl | ⟨j, hj⟩)
    · exact ⟨i, (setHandle_usesBy hpos hc).mpr (by simp)⟩
    · have hne : j ≠ i := by
        rintro rfl
        exact hh ((UsesBy.handle hc hj).trans hzero)
      exact ⟨j, (setHandle_usesBy hpos hc).mpr (by rw [if_neg hne]; exact hj)⟩

-- A session gets the handle that was opened for it.
theorem opened_ok (hv : Valid s) (hpos : 0 < (s.sessions i).refs) (hc : s.calls i = none)
    (hzero : (s.sessions i).handle = 0) (hh : h ≠ 0) (hu : ¬s.Uses h) :
    Valid ((s.gain 0 h).setSession i { s.sessions i with handle := h }) ∧
      (Ledger s → Ledger ((s.gain 0 h).setSession i { s.sessions i with handle := h })) := by
  have hv₁ : Valid (s.gain 0 h) := hv.gain
  have hsessions : (s.gain 0 h).sessions i = s.sessions i := by rw [gain_sessions]
  have hcalls : (s.gain 0 h).calls i = none := by rw [gain_calls, hc]
  rw [← hsessions] at hpos hzero ⊢
  refine ⟨hv₁.setHandle hpos hcalls fun _ j _ hj => hu (gain_uses.mp hj.uses), fun hl => ?_⟩
  refine hl.gain (h := h) (gain_changes hh) fun h' hh' => ?_
  rw [setHandle_uses hpos hcalls hzero hh', gain_uses]

-- A handle that was opened for a session that goes away has leaked.
theorem opened_failed (hv : Valid s) (hr : (.app, i) ∈ s.references) (hh : h ≠ 0) (hu : ¬s.Uses h)
    (ho : (s.gain 0 h).unref .app i = .ok s') : Valid s' ∧ ¬Ledger s' := by
  have hv₁ : Valid (s.gain 0 h) := hv.gain
  obtain ⟨t, ht, hvalid, hledger⟩ := hv₁.unref (gain_references.symm ▸ hr) (by simp)
  obtain rfl : t = s' := by simpa [ht] using ho
  refine ⟨hvalid, fun hl => ?_⟩
  exact Ledger.leak hh (gain_changes hh) (fun hu' => hu (gain_uses.mp hu')) (hledger.mp hl)

theorem performOpenSession_of_ne (hh : handle ≠ 0) :
    performOpenSession handle loginUser answers = (!loginUser || answers.login, handle) := by
  cases loginUser <;> simp [performOpenSession, hh]

theorem performOpenSession_none (ha : answers.opened = none) :
    performOpenSession 0 loginUser answers = (false, 0) := by
  simp [performOpenSession, ha]

theorem performOpenSession_some (ha : answers.opened = some h) :
    performOpenSession 0 loginUser answers = (!loginUser || answers.login, h) := by
  cases loginUser <;> simp [performOpenSession, ha]

-- The session that is to be opened.
structure Created (s : State) (i handle : Nat) (loginUser : Bool) : Prop where
  valid : Valid s
  self  : s.sessions i = { handle := handle, loginUser := loginUser, refs := 1 }
  calls : s.calls i = none
  app   : (.app, i) ∈ s.references

theorem initableInit_follows (hc : Created s i handle loginUser) (hf : handle = 0 → ∀ h ∈ answers.opened, h ≠ 0 ∧ ¬s.Uses h)
    (h : initableInit s i cancelled answers = .ok s') :
    Follows s s' (handle = 0 → !cancelled → answers.opened.isSome → loginUser → answers.login) := by
  have hunref : s.unref .app i = .ok s' → Follows s s' True := .of_unref hc.valid hc.app (by simp)
  simp only [initableInit, hc.self] at h
  split at h
  case isTrue hdone =>
    cases h
    exact ⟨hc.valid, fun hl => iff_of_true hl fun hzero => absurd hzero hdone.1⟩
  case isFalse hdone =>
    split at h
    case isTrue hcancelled => exact (hunref h).of_true fun _ hn => by simp [hcancelled] at hn
    case isFalse hcancelled =>
      by_cases hzero : handle = 0
      case neg =>
        simp only [performOpenSession_of_ne hzero, State.gain_of_ne hzero] at h
        split at h
        case isTrue =>
          obtain rfl := Outcome.ok.inj h
          have hsame : s.setSession i { handle := handle, loginUser := loginUser, refs := 1 } = s := by
            simp only [State.setSession, ← hc.self, Function.update_eq_self]
          rw [hsame]
          exact ⟨hc.valid, fun hl => iff_of_true hl fun h0 => absurd h0 hzero⟩
        case isFalse => exact (hunref h).of_true fun h0 => absurd h0 hzero
      case pos =>
        subst hzero
        cases ha : answers.opened
        case none =>
          simp only [performOpenSession_none ha, State.gain_zero] at h
          exact (hunref h).of_true (by simp)
        case some opened =>
          obtain ⟨hne, hunused⟩ := hf rfl opened ha
          simp only [performOpenSession_some ha] at h
          split at h
          case isTrue hok =>
            obtain rfl := Outcome.ok.inj h
            have hopened := opened_ok (i := i) hc.valid (by simp [hc.self]) hc.calls (by simp [hc.self]) hne hunused
            rw [hc.self] at hopened
            exact ⟨hopened.1, fun hl => iff_of_true (hopened.2 hl) fun _ _ _ hlogin => by simpa [hlogin] using hok⟩
          case isFalse hok =>
            obtain ⟨hvalid, hleak⟩ := opened_failed hc.valid hc.app hne hunused h
            refine ⟨hvalid, fun _ => iff_of_false hleak fun hr => hok ?_⟩
            cases hlogin : loginUser
            case false => rfl
            case true  => simpa using hr rfl (by simpa using hcancelled) rfl hlogin

-- The call of a session.
def State.setCall (s : State) (i : Nat) (call : Option OpenSession) : State :=
  { s with calls := Function.update s.calls i call }

theorem setCall_usesBy {call : Option OpenSession} :
    (s.setCall i call).UsesBy j h ↔
      if j = i then (0 < (s.sessions i).refs ∧ (s.sessions i).handle = h) ∨ ∃ c ∈ call, c.session = h
      else s.UsesBy j h := by
  by_cases heq : j = i
  case pos => simp [State.UsesBy, State.setCall, heq]
  case neg => simp [State.UsesBy, State.setCall, heq]

theorem Valid.setCall {call : Option OpenSession} (hv : Valid s) (hr : (.task, i) ∈ s.references)
    (hc : ∀ c ∈ call, (s.sessions i).handle = 0 ∨ c.session = (s.sessions i).handle)
    (hu : ∀ c ∈ call, c.session ≠ 0 → ∀ j, j ≠ i → ¬s.UsesBy j c.session) : Valid (s.setCall i call) := by
  have hpos := hv.refs_pos hr
  have hown : ∀ {h' k}, h' ≠ 0 → k ≠ i → s.UsesBy k h' →
      ¬((0 < (s.sessions i).refs ∧ (s.sessions i).handle = h') ∨ ∃ c ∈ call, c.session = h') := by
    rintro h' k hh hk huk (hl | ⟨c, hcall, rfl⟩)
    · exact hk (hv.alone k i h' hh huk (.inl hl))
    · exact hu c hcall hh k hk huk
  refine ⟨hv.counted, fun j hj => ?_, fun j c hj => ?_, fun j c hj => ?_, hv.kept, fun j k h' hh hj hk => ?_⟩
  · have hne : j ≠ i := by
      rintro rfl
      exact absurd (hv.fresh j hj).1 (by omega)
    simpa [State.setCall, hne] using hv.fresh j hj
  · by_cases heq : j = i
    case pos => exact heq ▸ hr
    case neg => exact hv.tasked j c (by simpa [State.setCall, heq] using hj)
  · by_cases heq : j = i
    case pos =>
      subst heq
      exact hc c (by simpa [State.setCall] using hj)
    case neg => exact hv.called j c (by simpa [State.setCall, heq] using hj)
  · rw [setCall_usesBy] at hj hk
    split at hj
    case isTrue hj' =>
      split at hk
      case isTrue hk'  => rw [hj', hk']
      case isFalse hk' => exact absurd hj (hown hh hk' hk)
    case isFalse hj' =>
      split at hk
      case isTrue hk'  => exact absurd hk (hown hh hj' hj)
      case isFalse hk' => exact hv.alone j k h' hh hj hk

-- A call of a session without one uses the handle that the session has.
theorem initableInitAsync_follows (hv : Valid s) (hr : (.task, i) ∈ s.references) (hc : s.calls i = none) :
    Follows s (initableInitAsync s i) True := by
  have hpos := hv.refs_pos hr
  have hself : s.UsesBy i (s.sessions i).handle := .inl ⟨hpos, rfl⟩
  refine ⟨hv.setCall hr ?_ ?_, fun hl => iff_true_intro ?_⟩
  · rintro c ⟨⟩
    exact .inr rfl
  · rintro c ⟨⟩ hne j hj huj
    exact hj (hv.alone j i _ hne huj hself)
  · refine hl.of_usesBy rfl fun j h hh => ?_
    refine Iff.trans setCall_usesBy ?_
    split
    case isTrue heq => simp [State.UsesBy, heq, hpos, hc]
    case isFalse    => rfl

-- The call gets the handle that was opened.
theorem opened_follows {call c : OpenSession} (hv : Valid s) (hc : s.calls i = some call) (hzero : call.session = 0)
    (hhandle : (s.sessions i).handle = 0) (hh : h ≠ 0) (hu : ¬s.Uses h) (heq : c.session = h) :
    Follows s ((s.gain 0 h).setCall i (some c)) True := by
  have hvalid : Valid (s.gain 0 h) := hv.gain
  have hr : (.task, i) ∈ (s.gain 0 h).references := by
    rw [gain_references]
    exact hv.tasked i call hc
  refine ⟨hvalid.setCall hr ?_ ?_, fun hl => iff_true_intro ?_⟩
  · rintro _ ⟨⟩
    exact .inl (by rw [gain_sessions, hhandle])
  · rintro _ ⟨⟩ _ j _ huj
    exact hu (gain_uses.mp (heq ▸ huj.uses))
  · refine hl.gain (gain_changes hh) fun h' hh' => ?_
    constructor
    · rintro ⟨j, hj⟩
      have hj' := (setCall_usesBy).mp hj
      split at hj'
      case isTrue =>
        rcases hj' with ⟨_, hj'⟩ | ⟨_, ⟨⟩, rfl⟩
        · rw [gain_sessions, hhandle] at hj'
          exact absurd hj'.symm hh'
        · exact .inl heq
      case isFalse => exact .inr (gain_uses.mp hj'.uses)
    · rintro (rfl | ⟨j, hj⟩)
      · exact ⟨i, (setCall_usesBy).mpr (by simp [heq])⟩
      · have hji : j ≠ i := by
          rintro rfl
          rcases hj with ⟨_, hj⟩ | ⟨c', hcall, hj⟩
          · exact hh' (hj.symm.trans hhandle)
          · obtain rfl : call = c' := Option.some.inj (hc.symm.trans hcall)
            exact hh' (hj.symm.trans hzero)
        refine ⟨j, (setCall_usesBy).mpr ?_⟩
        rw [if_neg hji]
        simpa only [State.UsesBy, gain_sessions, gain_calls] using hj

theorem openSessionThread_follows {call : OpenSession} (hv : Valid s) (hc : s.calls i = some call)
    (hf : s.Fresh answers.opened) : Follows s (openSessionThread s i call cancelled answers) True := by
  have hr := hv.tasked i call hc
  have hcalled := hv.called i call hc
  have hsession : s.UsesBy i call.session := .inr ⟨call, hc, rfl⟩
  -- a call that returns with the handle that it had
  have hsame : ∀ c : OpenSession, c.session = call.session → Follows s (s.setCall i (some c)) True := by
    intro c heq
    refine ⟨hv.setCall hr ?_ ?_, fun hl => iff_true_intro ?_⟩
    · rintro _ ⟨⟩
      exact heq.symm ▸ hcalled
    · rintro _ ⟨⟩ hne j hj huj
      exact hj (hv.alone j i _ hne huj (heq ▸ hsession))
    · refine hl.of_usesBy rfl fun j h hh => ?_
      refine Iff.trans setCall_usesBy ?_
      split
      case isTrue hji => simp [State.UsesBy, hji, hc, heq]
      case isFalse    => rfl
  simp only [openSessionThread]
  split
  case isTrue => exact hsame _ rfl
  case isFalse =>
    by_cases hzero : call.session = 0
    case neg =>
      simp only [performOpenSession_of_ne hzero, State.gain_of_ne hzero]
      exact hsame _ rfl
    case pos =>
      rw [hzero]
      cases ha : answers.opened
      case none =>
        simp only [performOpenSession_none ha, State.gain_zero]
        exact hsame _ hzero.symm
      case some opened =>
        obtain ⟨hne, hunused⟩ := hf opened ha
        simp only [performOpenSession_some ha]
        have hhandle : (s.sessions i).handle = 0 := hcalled.elim id fun heq => heq.symm.trans hzero
        rw [← gain_calls (s := s)]
        exact opened_follows hv hc hzero hhandle hne hunused rfl

theorem initableInitFinish_follows {call : OpenSession} {ok : Bool} (hv : Valid s) (hc : s.calls i = some call)
    (h : initableInitFinish s i call ok cancelled = .ok s') :
    Follows s s' (call.session ≠ (s.sessions i).handle → ok ∧ !cancelled) := by
  have hr := hv.tasked i call hc
  have hpos := hv.refs_pos hr
  have hcalled := hv.called i call hc
  have hsession : s.UsesBy i call.session := .inr ⟨call, hc, rfl⟩
  have hdrop : Valid (s.setCall i none) := hv.setCall hr (by simp) (by simp)
  have hnone : (s.setCall i none).calls i = none := by simp [State.setCall]
  simp only [initableInitFinish] at h
  split at h
  case isTrue hok =>
    obtain rfl := Outcome.ok.inj h
    have hother : ∀ j, j ≠ i → ∀ h', ((s.setCall i none).UsesBy j h' ↔ s.UsesBy j h') := by
      intro j hj h'
      rw [setCall_usesBy, if_neg hj]
    have hset : Valid ((s.setCall i none).setSession i { s.sessions i with handle := call.session }) :=
      hdrop.setHandle hpos hnone fun hne j hj huj => hj (hv.alone j i _ hne ((hother j hj _).mp huj) hsession)
    refine ⟨hset.pass hr fun _ => hnone, fun hl => iff_of_true ?_ fun _ => by simpa using hok⟩
    rw [Ledger.pass]
    refine hl.of_usesBy rfl fun j h' hh' => ?_
    refine Iff.trans (setHandle_usesBy (s := s.setCall i none) hpos hnone) ?_
    split
    case isTrue heq =>
      subst heq
      refine ⟨fun heq => heq ▸ hsession, ?_⟩
      rintro (⟨_, hj⟩ | ⟨c, hcall, hj⟩)
      · exact hcalled.elim (fun hzero => absurd (hj.symm.trans hzero) hh') fun heq => heq.trans hj
      · obtain rfl : call = c := Option.some.inj (hc.symm.trans hcall)
        exact hj
    case isFalse hne => exact hother j hne h'
  case isFalse hok =>
    obtain ⟨t, ht, hvalid, hledger⟩ := hdrop.unref hr fun _ => hnone
    obtain rfl : t = s' := Outcome.ok.inj (ht.symm.trans h)
    refine ⟨hvalid, fun hl => hledger.trans ?_⟩
    by_cases heq : call.session = (s.sessions i).handle
    case pos =>
      refine iff_of_true (hl.of_usesBy rfl fun j h' hh' => ?_) fun hne => absurd heq hne
      refine Iff.trans setCall_usesBy ?_
      split
      case isTrue hji => simp [State.UsesBy, hji, hc, hpos, heq]
      case isFalse    => rfl
    case neg =>
      -- the handle was opened by the call
      have hzero : (s.sessions i).handle = 0 := hcalled.resolve_right heq
      have hne : call.session ≠ 0 := fun hz => heq (hz.trans hzero.symm)
      refine iff_of_false (fun hl' => ?_) fun hr => hok (by simpa using hr heq)
      obtain ⟨j, hj⟩ := (hl'.held _ hne).mp ((hl.held _ hne).mpr hsession.uses)
      have hj' := (setCall_usesBy).mp hj
      split at hj'
      case isTrue =>
        rcases hj' with ⟨_, hj'⟩ | ⟨_, ⟨⟩, _⟩
        exact heq hj'.symm
      case isFalse hji => exact hji (hv.alone j i _ hne hj' hsession)

theorem create_follows (hv : Valid s) (hw : handle ≠ 0 → ¬s.Uses handle) :
    Follows s (s.create handle loginUser holder) True where
  valid  := hv.create hw
  ledger := fun hl => iff_true_intro (Ledger.create hv hl)

theorem mem_of_has {o : Outcome State} (h : s.has holder i o = .ok s') : (holder, i) ∈ s.references ∧ o = .ok s' := by
  simp only [State.has] at h
  split at h
  case isTrue hr => exact ⟨hr, h⟩
  case isFalse   => exact absurd h (by simp)

theorem ref_follows {holder' : Holder} (hv : Valid s) (hr : (holder, i) ∈ s.references) :
    Follows s (s.ref holder' i) True where
  valid  := hv.ref hr
  ledger := fun hl => iff_true_intro ((Ledger.ref hv hr).mpr hl)

theorem Step.follows (h : Step s e s') (hv : Valid s) (hw : Wraps s e) : Follows s s' (Regular s e) := by
  obtain ⟨hf, h⟩ := h
  have hfresh := hv.fresh s.created (Nat.le_refl _)
  cases e
  case openSession handle loginUser cancelled answers =>
    have hcreated : Created (s.create handle loginUser .app) s.created handle loginUser := by
      refine ⟨hv.create hw, ?_, ?_, ?_⟩
      · simp [State.create, gain_sessions]
      · simp [State.create, gain_calls, hfresh.2]
      · simp [State.create, gain_references]
    refine (initableInit_follows hcreated ?_ h).trans (Ledger.create hv)
    rintro rfl opened ho
    obtain ⟨hne, hunused⟩ := hf opened ho
    rw [create_uses hv]
    exact ⟨hne, by simp [hne, hunused]⟩
  case openSessionAsync handle loginUser =>
    obtain rfl := Outcome.ok.inj h
    refine ((initableInitAsync_follows (hv.create hw) ?_ ?_).trans (Ledger.create hv)).of_true trivial
    · simp [State.create, gain_references]
    · simp [State.create, gain_calls, hfresh.2]
  case thread i cancelled answers =>
    simp only [after] at h
    split at h
    case h_1 => exact absurd h (by simp)
    case h_2 call hc =>
      split at h
      case h_1 => exact absurd h (by simp)
      case h_2 =>
        obtain rfl := Outcome.ok.inj h
        exact openSessionThread_follows hv hc hf
  case openSessionFinish i cancelled =>
    simp only [after] at h
    split at h
    case h_1 => exact absurd h (by simp)
    case h_2 call hc =>
      split at h
      case h_1 => exact absurd h (by simp)
      case h_2 ok hresult =>
        have hfollows := initableInitFinish_follows hv hc h
        have hreg : Regular s (.openSessionFinish i cancelled) ↔
            (call.session ≠ (s.sessions i).handle → ok ∧ !cancelled) := by
          simp [Regular, hc, hresult]
        exact ⟨hfollows.valid, fun hl => (hfollows.ledger hl).trans hreg.symm⟩
  case fromHandle handle =>
    obtain rfl := Outcome.ok.inj h
    exact create_follows hv hw
  case ref i =>
    obtain ⟨hr, h⟩ := mem_of_has h
    obtain rfl := Outcome.ok.inj h
    exact ref_follows hv hr
  case unref i =>
    obtain ⟨hr, h⟩ := mem_of_has h
    exact .of_unref hv hr (by simp) h
  case enumerateSession k i =>
    simp only [after] at h
    split at h
    case isTrue => exact absurd h (by simp)
    case isFalse =>
      obtain ⟨hr, h⟩ := mem_of_has h
      obtain rfl := Outcome.ok.inj h
      exact ref_follows hv hr
  case stateSlot k opened =>
    simp only [after] at h
    split at h
    case isTrue => exact absurd h (by simp)
    case isFalse =>
      cases opened
      case none =>
        obtain rfl := Outcome.ok.inj h
        exact ⟨hv, fun hl => iff_true_intro hl⟩
      case some handle =>
        obtain rfl := Outcome.ok.inj h
        exact create_follows hv fun _ => (hf handle rfl).2
  case stateFind k i =>
    obtain ⟨hr, h⟩ := mem_of_has h
    obtain rfl := Outcome.ok.inj h
    exact ref_follows hv hr
  case stateResults k i read =>
    obtain ⟨hr, h⟩ := mem_of_has h
    cases read
    case false => exact .of_unref hv hr (by simp) h
    case true  =>
      obtain rfl := Outcome.ok.inj h
      exact ⟨hv.pass hr (by simp), fun hl => iff_true_intro (Ledger.pass.mpr hl)⟩
  case stateSessionBackward k i =>
    obtain ⟨hr, h⟩ := mem_of_has h
    exact .of_unref hv hr (by simp) h
  case extractResult k i =>
    obtain ⟨hr, h⟩ := mem_of_has h
    refine Follows.trans (Ledger.ref hv hr).mpr (.of_unref (hv.ref hr) ?_ (by simp) h)
    exact List.mem_cons_of_mem _ hr
  case resultFree k i found =>
    obtain ⟨hr, h⟩ := mem_of_has h
    refine .of_unref hv hr ?_ h
    cases found <;> simp

-- An assertion fails only where a session is not referred to.
theorem unref_ne_aborted (hpos : 0 < (s.sessions i).refs) : s.unref holder i ≠ .aborted := by
  simp only [State.unref, gObjectUnref]
  split
  case h_1 hzero => exact absurd hzero (by omega)
  case h_2 =>
    simp only [gckSessionDispose, gckSessionFinalize]
    split <;> split <;> simp_all [State.setSession]
  case h_3 => simp

theorem initableInit_ne_aborted (hpos : 0 < (s.sessions i).refs) : initableInit s i cancelled answers ≠ .aborted := by
  simp only [initableInit]
  split
  case isTrue => simp
  case isFalse =>
    split
    case isTrue  => exact unref_ne_aborted hpos
    case isFalse =>
      split
      case isTrue  => simp
      case isFalse => exact unref_ne_aborted (by rw [gain_sessions]; exact hpos)

theorem has_ne_aborted {o : Outcome State} (ho : (holder, i) ∈ s.references → o ≠ .aborted) :
    s.has holder i o ≠ .aborted := by
  simp only [State.has]
  split
  case isTrue hr => exact ho hr
  case isFalse   => simp

theorem after_ne_aborted (hv : Valid s) : after s e ≠ .aborted := by
  have hunref : ∀ holder i, s.has holder i (s.unref holder i) ≠ .aborted :=
    fun holder i => has_ne_aborted fun hr => unref_ne_aborted (hv.refs_pos hr)
  cases e
  case openSession => exact initableInit_ne_aborted (by simp [State.create, gain_sessions])
  case openSessionAsync | fromHandle => simp [after]
  case thread i cancelled answers =>
    simp only [after]
    split
    case h_1 => simp
    case h_2 => split <;> simp
  case openSessionFinish i cancelled =>
    simp only [after]
    split
    case h_1 => simp
    case h_2 call hc =>
      split
      case h_1 => simp
      case h_2 =>
        simp only [initableInitFinish]
        split
        case isTrue  => simp
        case isFalse => exact unref_ne_aborted (hv.refs_pos (hv.tasked i call hc))
  case ref | stateFind => exact has_ne_aborted fun _ => by simp
  case unref i => exact hunref .app i
  case enumerateSession k i =>
    simp only [after]
    split
    case isTrue  => simp
    case isFalse => exact has_ne_aborted fun _ => by simp
  case stateSlot k opened =>
    simp only [after]
    split
    case isTrue  => simp
    case isFalse => cases opened <;> simp
  case stateResults k i read =>
    cases read
    case false => exact hunref (.found k) i
    case true  => exact has_ne_aborted fun _ => by simp
  case stateSessionBackward k i => exact hunref (.session k) i
  case extractResult k i =>
    exact has_ne_aborted fun _ => unref_ne_aborted (by simp [State.ref, State.setSession])
  case resultFree k i found => exact hunref _ i

theorem Run.balanced_iff {ts : List (State × Event × State)} (r : Run ts s) (hw : ∀ t ∈ ts, Wraps t.1 t.2.1) :
    (∀ t ∈ ts, Kept t.2.2) ↔ ∀ t ∈ ts, Regular t.1 t.2.1 := by
  have hkept : ∀ {s}, Valid s → (Kept s ↔ Ledger s) := by
    intro s hv
    exact ⟨fun h => ⟨h.held, h.once⟩, fun h => ⟨h.held, h.once, fun _ => after_ne_aborted hv⟩⟩
  refine Transition.Run.forall_iff (p := Valid) (Transition.Run.restrict r hw) ?_ ?_ ?_ ?_
  · rintro _ rfl
    exact .start
  · rintro s e s' hv ⟨hstep, hwraps⟩
    exact (hstep.follows hv hwraps).valid
  · rintro _ rfl
    exact (hkept .start).mpr .start
  · rintro s e s' hv hs ⟨hstep, hwraps⟩
    have hfollows := hstep.follows hv hwraps
    exact (hkept hfollows.valid).trans (hfollows.ledger ((hkept hv).mp hs))

-- A login that fails after the session was opened.
def failedLogin : Event :=
  .openSession 0 true false ⟨some 1, false⟩

-- The object is gone again, and the handle is still open.
def afterFailedLogin : State where
  sessions := Function.update (Function.update (fun _ => {}) 0 { loginUser := true, refs := 1 }) 0 { loginUser := true }
  created  := 1
  changes  := [.gained 1]

theorem failedLogin_step : Step {} failedLogin afterFailedLogin := by
  refine ⟨?_, rfl⟩
  rintro _ ⟨⟩
  exact ⟨by decide, by simp [State.Uses]⟩

-- A second reference is given up, and the first one.
theorem Run.balanced_iff_closed : ∃ ts s, Run ts s ∧ ts.map (·.2.1) = [.unref 0, .unref 0, .ref 0, .fromHandle 1] ∧
    ((∀ t ∈ ts, Kept t.2.2) ↔ ∀ t ∈ ts, Regular t.1 t.2.1) := by
  have next : ∀ {ts s s'} e, e.opened = none → Run ts s → after s e = .ok s' → Run ((s, e, s') :: ts) s' :=
    fun e he r h => r.step ⟨by simp [State.Fresh, he], h⟩
  have r := next (.ref 0) rfl (next (.fromHandle 1) rfl (.start rfl) rfl) rfl
  have r := next (.unref 0) rfl (next (.unref 0) rfl r rfl) rfl
  exact ⟨_, _, r, rfl, Run.balanced_iff r (by simp [Wraps, State.Uses])⟩

-- The session that was opened is closed by nobody.
theorem Run.not_balanced : ¬∀ ts s, Run ts s → (∀ t ∈ ts, Wraps t.1 t.2.1) → ∀ t ∈ ts, Kept t.2.2 := by
  intro h
  have hkept := h _ _ (.step (.start rfl) failedLogin_step) (by simp [Wraps, failedLogin]) _ List.mem_cons_self
  have hfollows := failedLogin_step.follows .start (fun hne => absurd rfl hne)
  have hregular := (hfollows.ledger .start).mp ⟨hkept.held, hkept.once⟩
  exact absurd (hregular rfl rfl rfl rfl) (by decide)

end SessionHandle
