import GcrModel.Gck.SessionHandle.SessionHandle

namespace SessionHandle

open Transition (Outcome)
open Monitor

section Ledger

variable {s s' : State} {i j h : Nat} {holder holder' : Holder} {changes : List Change}

-- The handles that one session uses.
def State.UsesBy (s : State) (i h : Nat) : Prop :=
  (0 < (s.sessions i).refs ∧ (s.sessions i).handle = h) ∨ ∃ call ∈ s.calls i, call.session = h

theorem State.UsesBy.uses (hu : s.UsesBy i h) : s.Uses h :=
  ⟨i, hu⟩

-- The handles that are held are those in use, and each was held when it was discarded.
structure Ledger (s : State) : Prop where
  held : ∀ h, h ≠ 0 → (held s.changes h ↔ s.Uses h)
  once : Accepts Change.follow Change.allowed (fun _ => false) s.changes

theorem held_gained : held (changes ++ [.gained h]) = Function.update (held changes) h true := by
  simp [held, Change.follow]

theorem held_discarded : held (changes ++ [.discarded h]) = Function.update (held changes) h false := by
  simp [held, Change.follow]

theorem once_gained :
    Accepts Change.follow Change.allowed (fun _ => false) (changes ++ [.gained h]) ↔
      Accepts Change.follow Change.allowed (fun _ => false) changes := by
  simp [Change.allowed]

theorem once_discarded :
    Accepts Change.follow Change.allowed (fun _ => false) (changes ++ [.discarded h]) ↔
      Accepts Change.follow Change.allowed (fun _ => false) changes ∧ held changes h := by
  simp [Change.allowed, held]

theorem Ledger.congr (hc : s'.changes = s.changes) (hu : ∀ h, h ≠ 0 → (s'.Uses h ↔ s.Uses h)) :
    Ledger s' ↔ Ledger s := by
  constructor
  · rintro ⟨hheld, honce⟩
    exact ⟨fun h hh => hc ▸ (hheld h hh).trans (hu h hh), hc ▸ honce⟩
  · rintro ⟨hheld, honce⟩
    exact ⟨fun h hh => hc.symm ▸ (hheld h hh).trans (hu h hh).symm, hc.symm ▸ honce⟩

theorem Ledger.of_usesBy (hl : Ledger s) (hc : s'.changes = s.changes)
    (hu : ∀ j h, h ≠ 0 → (s'.UsesBy j h ↔ s.UsesBy j h)) : Ledger s' :=
  (Ledger.congr hc fun h hh => exists_congr fun j => hu j h hh).mpr hl

theorem Ledger.gain (hl : Ledger s) (hc : s'.changes = s.changes ++ [.gained h])
    (hu : ∀ h', h' ≠ 0 → (s'.Uses h' ↔ h' = h ∨ s.Uses h')) : Ledger s' where
  held := fun h' hh' => by
    rw [hc, held_gained, hu h' hh', Function.update_apply]
    split
    case isTrue heq  => simp [heq]
    case isFalse hne => simp [hne, hl.held h' hh']
  once := by
    rw [hc, once_gained]
    exact hl.once

-- A handle that is gained and not used afterwards has leaked.
theorem Ledger.leak (hh : h ≠ 0) (hc : s'.changes = s.changes ++ [.gained h]) (hu : ¬s'.Uses h) : ¬Ledger s' := by
  intro hl
  refine hu ((hl.held h hh).mp ?_)
  rw [hc, held_gained, Function.update_self]

theorem Ledger.discard (hh : h ≠ 0) (hc : s'.changes = s.changes ++ [.discarded h]) (hs : s.Uses h) (hs' : ¬s'.Uses h)
    (hu : ∀ h', h' ≠ 0 → h' ≠ h → (s'.Uses h' ↔ s.Uses h')) : Ledger s' ↔ Ledger s := by
  constructor
  · rintro ⟨hheld, honce⟩
    rw [hc, once_discarded] at honce
    refine ⟨fun h' hh' => ?_, honce.1⟩
    by_cases heq : h' = h
    case pos => simp [heq, honce.2, hs]
    case neg =>
      rw [← hu h' hh' heq, ← hheld h' hh', hc, held_discarded, Function.update_of_ne heq]
  · rintro ⟨hheld, honce⟩
    refine ⟨fun h' hh' => ?_, ?_⟩
    · by_cases heq : h' = h
      case pos =>
        subst heq
        simp [hc, held_discarded, hs']
      case neg => rw [hu h' hh' heq, ← hheld h' hh', hc, held_discarded, Function.update_of_ne heq]
    · rw [hc, once_discarded]
      exact ⟨honce, (hheld h hh).mpr hs⟩

-- How many references to a session there are.
def State.count (s : State) (i : Nat) : Nat :=
  s.references.countP (·.2 = i)

-- The references are counted, what a call or a session uses nothing else uses, and what is discarded nobody refers to.
structure Valid (s : State) : Prop where
  counted : ∀ i, (s.sessions i).refs = s.count i
  fresh   : ∀ i, s.created ≤ i → (s.sessions i).refs = 0 ∧ s.calls i = none
  tasked  : ∀ i call, s.calls i = some call → (.task, i) ∈ s.references
  called  : ∀ i call, s.calls i = some call → (s.sessions i).handle = 0 ∨ call.session = (s.sessions i).handle
  kept    : ∀ i, 0 < (s.sessions i).refs → (s.sessions i).discarded = false
  alone   : ∀ i j h, h ≠ 0 → s.UsesBy i h → s.UsesBy j h → i = j

theorem Valid.start : Valid {} where
  counted := fun _ => rfl
  fresh   := fun _ _ => ⟨rfl, rfl⟩
  tasked  := fun _ _ h => absurd h (by simp)
  called  := fun _ _ h => absurd h (by simp)
  kept    := fun _ h => absurd h (by simp)
  alone   := fun i _ h hh hu => by simp [State.UsesBy] at hu

theorem Ledger.start : Ledger {} where
  held := fun h _ => by simp [SessionHandle.held, State.Uses]
  once := trivial

-- A session without a call uses its own handle.
theorem UsesBy.handle (hc : s.calls i = none) (hu : s.UsesBy i h) : h = (s.sessions i).handle := by
  rcases hu with ⟨_, hu⟩ | ⟨call, hcall, _⟩
  · exact hu.symm
  · simp [hc] at hcall

theorem Valid.refs_pos (hv : Valid s) (hr : (holder, i) ∈ s.references) : 0 < (s.sessions i).refs := by
  rw [hv.counted, State.count, List.countP_pos_iff]
  exact ⟨_, hr, by simp⟩

end Ledger

section References

variable {s s' : State} {i j h handle : Nat} {holder holder' : Holder} {loginUser : Bool}

theorem count_erase (hr : (holder, i) ∈ s.references) (j : Nat) :
    s.count j = (s.references.erase (holder, i)).countP (·.2 = j) + if i = j then 1 else 0 := by
  rw [State.count, (List.perm_cons_erase hr).countP_eq, List.countP_cons]
  simp

theorem State.gain_zero : s.gain 0 0 = s := by
  simp [State.gain]

theorem State.gain_of_ne {before after : Nat} (hb : before ≠ 0) : s.gain before after = s := by
  simp [State.gain, hb]

theorem gain_sessions {before after : Nat} : (s.gain before after).sessions = s.sessions := by
  simp only [State.gain]
  split <;> rfl

theorem gain_calls {before after : Nat} : (s.gain before after).calls = s.calls := by
  simp only [State.gain]
  split <;> rfl

theorem gain_references {before after : Nat} : (s.gain before after).references = s.references := by
  simp only [State.gain]
  split <;> rfl

theorem gain_created {before after : Nat} : (s.gain before after).created = s.created := by
  simp only [State.gain]
  split <;> rfl

theorem gain_changes (hh : h ≠ 0) : (s.gain 0 h).changes = s.changes ++ [.gained h] := by
  simp [State.gain, hh]

-- What is gained is recorded and changes nothing else.
theorem Valid.gain {before after : Nat} (hv : Valid s) : Valid (s.gain before after) := by
  refine ⟨?_, ?_, ?_, ?_, ?_, ?_⟩
  · simpa only [State.count, gain_sessions, gain_references] using hv.counted
  · simpa only [gain_sessions, gain_calls, gain_created] using hv.fresh
  · simpa only [gain_calls, gain_references] using hv.tasked
  · simpa only [gain_calls, gain_sessions] using hv.called
  · simpa only [gain_sessions] using hv.kept
  · simpa only [State.UsesBy, gain_sessions, gain_calls] using hv.alone

theorem gain_uses {before after : Nat} : (s.gain before after).Uses h ↔ s.Uses h := by
  simp only [State.Uses, gain_sessions, gain_calls]

-- What a session that is made uses.
theorem create_usesBy (hv : Valid s) :
    (s.create handle loginUser holder).UsesBy j h ↔ if j = s.created then handle = h else s.UsesBy j h := by
  simp only [State.UsesBy, State.create, gain_sessions, gain_calls]
  split
  case isTrue heq =>
    subst heq
    simp [(hv.fresh _ (Nat.le_refl _)).2]
  case isFalse hne => simp [Function.update_of_ne hne]

theorem create_uses (hv : Valid s) :
    (s.create handle loginUser holder).Uses h ↔ h = handle ∨ s.Uses h := by
  constructor
  · rintro ⟨j, hj⟩
    have hj' := (create_usesBy hv).mp hj
    split at hj'
    case isTrue  => exact .inl hj'.symm
    case isFalse => exact .inr hj'.uses
  · rintro (rfl | ⟨j, hj⟩)
    · exact ⟨s.created, (create_usesBy hv).mpr (by simp)⟩
    · have hne : j ≠ s.created := by
        rintro rfl
        obtain ⟨hrefs, hcalls⟩ := hv.fresh _ (Nat.le_refl _)
        simp [hrefs, hcalls] at hj
      exact ⟨j, (create_usesBy hv).mpr (by rw [if_neg hne]; exact hj)⟩

theorem Valid.create (hv : Valid s) (hw : handle ≠ 0 → ¬s.Uses handle) :
    Valid (s.create handle loginUser holder) := by
  have hfresh := hv.fresh s.created (Nat.le_refl _)
  refine ⟨fun j => ?_, fun j hj => ?_, fun j call hj => ?_, fun j call hj => ?_, fun j hj => ?_, fun j k h hh hj hk => ?_⟩
  · have hcount := hv.counted j
    have hzero : s.count s.created = 0 := (hv.counted s.created).symm.trans hfresh.1
    simp only [State.count] at hcount hzero
    simp only [State.count, State.create, gain_sessions, gain_references, List.countP_cons, Function.update_apply]
    by_cases heq : j = s.created
    case pos => simp [heq, hzero]
    case neg => simp [heq, hcount, Ne.symm heq]
  · simp only [State.create, gain_created, gain_sessions, gain_calls] at hj ⊢
    have hne : j ≠ s.created := by omega
    rw [Function.update_of_ne hne]
    exact hv.fresh j (by omega)
  · simp only [State.create, gain_calls, gain_references] at hj ⊢
    exact List.mem_cons_of_mem _ (hv.tasked j call hj)
  · simp only [State.create, gain_calls, gain_sessions] at hj ⊢
    have hne : j ≠ s.created := by
      rintro rfl
      simp [hfresh.2] at hj
    rw [Function.update_of_ne hne]
    exact hv.called j call hj
  · simp only [State.create, gain_sessions, Function.update_apply] at hj ⊢
    split
    case isTrue => rfl
    case isFalse hne =>
      rw [if_neg hne] at hj
      exact hv.kept j hj
  · rw [create_usesBy hv] at hj hk
    split at hj
    case isTrue hj' =>
      split at hk
      case isTrue hk'  => rw [hj', hk']
      case isFalse hk' => exact absurd hk.uses (hj ▸ hw (hj ▸ hh))
    case isFalse hj' =>
      split at hk
      case isTrue hk'  => exact absurd hj.uses (hk ▸ hw (hk ▸ hh))
      case isFalse hk' => exact hv.alone j k h hh hj hk

theorem Ledger.create (hv : Valid s) (hl : Ledger s) : Ledger (s.create handle loginUser holder) := by
  by_cases hh : handle = 0
  case pos =>
    refine (Ledger.congr ?_ fun h hne => ?_).mpr hl
    · simp [State.create, State.gain, hh]
    · rw [create_uses hv, hh]
      simp [hne]
  case neg =>
    refine hl.gain (h := handle) ?_ fun _ _ => create_uses hv
    simp [State.create, State.gain, hh]

-- A session with other references is used as before.
theorem Valid.ref (hv : Valid s) (hr : (holder, i) ∈ s.references) : Valid (s.ref holder' i) := by
  have hpos := hv.refs_pos hr
  have hsame : ∀ j h, (s.ref holder' i).UsesBy j h ↔ s.UsesBy j h := by
    intro j h
    by_cases heq : j = i
    case pos => simp [State.UsesBy, State.ref, State.setSession, heq, hpos]
    case neg => simp [State.UsesBy, State.ref, State.setSession, Function.update_of_ne heq]
  refine ⟨fun j => ?_, fun j hj => ?_, fun j call hj => ?_, fun j call hj => ?_, fun j hj => ?_, fun j k h hh hj hk => ?_⟩
  · have hcount := hv.counted j
    simp only [State.count] at hcount
    simp only [State.count, State.ref, State.setSession, List.countP_cons, Function.update_apply]
    by_cases heq : j = i
    case pos =>
      subst heq
      simp [hcount]
    case neg => simp [heq, hcount, Ne.symm heq]
  · have hne : j ≠ i := by
      rintro rfl
      exact absurd (hv.fresh j hj).1 (by omega)
    simpa [State.ref, State.setSession, Function.update_of_ne hne] using hv.fresh j hj
  · exact List.mem_cons_of_mem _ (hv.tasked j call hj)
  · have hcalled := hv.called j call hj
    by_cases heq : j = i
    case pos => simpa [State.ref, State.setSession, heq] using heq ▸ hcalled
    case neg => simpa [State.ref, State.setSession, Function.update_of_ne heq] using hcalled
  · by_cases heq : j = i
    case pos => simpa [State.ref, State.setSession, heq] using hv.kept i hpos
    case neg =>
      simp only [State.ref, State.setSession, Function.update_of_ne heq] at hj ⊢
      exact hv.kept j hj
  · exact hv.alone j k h hh ((hsame j h).mp hj) ((hsame k h).mp hk)

theorem Ledger.ref (hv : Valid s) (hr : (holder, i) ∈ s.references) : Ledger (s.ref holder' i) ↔ Ledger s := by
  have hpos := hv.refs_pos hr
  refine Ledger.congr rfl fun h _ => exists_congr fun j => ?_
  by_cases heq : j = i
  case pos => simp [State.ref, State.setSession, heq, hpos]
  case neg => simp [State.ref, State.setSession, Function.update_of_ne heq]

-- A reference that another one takes over.
theorem Valid.pass (hv : Valid s) (hr : (holder, i) ∈ s.references) (hc : holder = .task → s.calls i = none) :
    Valid (s.pass holder holder' i) where
  counted := fun j => by
    have hcount := (hv.counted j).trans (count_erase hr j)
    simpa [State.count, State.pass, List.countP_cons] using hcount
  fresh   := hv.fresh
  tasked  := fun j call hj => by
    have hne : (Holder.task, j) ≠ (holder, i) := by
      rintro heq
      obtain ⟨rfl, rfl⟩ := Prod.mk.inj heq
      exact absurd hj (by simp [State.pass, hc rfl])
    exact List.mem_cons_of_mem _ ((List.mem_erase_of_ne hne).mpr (hv.tasked j call hj))
  called  := hv.called
  kept    := hv.kept
  alone   := hv.alone

theorem Ledger.pass : Ledger (s.pass holder holder' i) ↔ Ledger s :=
  Ledger.congr rfl fun _ _ => Iff.rfl

-- An object that was disposed of and finalized.
def State.finalized (s : State) (i : Nat) : State :=
  { s with
    sessions := Function.update s.sessions i
      { s.sessions i with discarded := decide ((s.sessions i).handle ≠ 0) || (s.sessions i).discarded, refs := 0 }
    changes  := s.changes ++ if (s.sessions i).handle ≠ 0 then [.discarded (s.sessions i).handle] else [] }

@[simp]
theorem finalized_refs : ((s.finalized i).sessions i).refs = 0 := by
  simp [State.finalized]

-- The handle of a session that was not discarded is when the session goes away, and the assertion holds.
theorem gObjectUnref_last (hrefs : (s.sessions i).refs = 1) (hd : (s.sessions i).discarded = false) :
    gObjectUnref s i = .ok (s.finalized i) := by
  by_cases hh : (s.sessions i).handle = 0
  case pos =>
    simp [gObjectUnref, hrefs, gckSessionDispose, hh, gckSessionFinalize, State.finalized, State.setSession, hd]
  case neg =>
    simp [gObjectUnref, hrefs, gckSessionDispose, hh, gckSessionFinalize, State.finalized, State.setSession, hd]

theorem finalized_usesBy (hc : s.calls i = none) :
    (s.finalized i).UsesBy j h ↔ j ≠ i ∧ s.UsesBy j h := by
  by_cases heq : j = i
  case pos => simp [State.UsesBy, State.finalized, heq, hc]
  case neg => simp [State.UsesBy, State.finalized, heq]

theorem Ledger.finalized (hv : Valid s) (hrefs : 0 < (s.sessions i).refs) (hc : s.calls i = none) :
    Ledger (s.finalized i) ↔ Ledger s := by
  have hself : s.UsesBy i (s.sessions i).handle := .inl ⟨hrefs, rfl⟩
  have huses : ∀ h, (s.finalized i).Uses h → s.Uses h := by
    rintro h ⟨j, hj⟩
    exact ((finalized_usesBy hc).mp hj).2.uses
  by_cases hh : (s.sessions i).handle = 0
  case pos =>
    refine Ledger.congr (by simp [State.finalized, hh]) fun h hne => ⟨huses h, ?_⟩
    rintro ⟨j, hj⟩
    refine ⟨j, (finalized_usesBy hc).mpr ⟨?_, hj⟩⟩
    rintro rfl
    exact hne ((UsesBy.handle hc hj).trans hh)
  case neg =>
    refine Ledger.discard hh (by simp [State.finalized, hh]) hself.uses ?_ fun h hne hne' => ⟨huses h, ?_⟩
    · rintro ⟨j, hj⟩
      obtain ⟨hji, hj⟩ := (finalized_usesBy hc).mp hj
      exact hji (hv.alone j i _ hh hj hself)
    · rintro ⟨j, hj⟩
      refine ⟨j, (finalized_usesBy hc).mpr ⟨?_, hj⟩⟩
      rintro rfl
      exact hne' (UsesBy.handle hc hj)

-- While there is a call its task holds a reference.
theorem Valid.call_eq_none (hv : Valid s) (hr : (holder, i) ∈ s.references) (hc : holder = .task → s.calls i = none)
    (hrefs : (s.sessions i).refs = 1) : s.calls i = none := by
  cases hcall : s.calls i
  case none => rfl
  case some call =>
    have hne : (Holder.task, i) ≠ (holder, i) := by
      rintro heq
      simp [hc (Prod.mk.inj heq).1.symm] at hcall
    have hmem : (Holder.task, i) ∈ s.references.erase (holder, i) :=
      (List.mem_erase_of_ne hne).mpr (hv.tasked i call hcall)
    have hpos : 0 < (s.references.erase (holder, i)).countP (·.2 = i) :=
      List.countP_pos_iff.mpr ⟨_, hmem, by simp⟩
    have hcount := (hv.counted i).symm.trans hrefs
    rw [count_erase hr i, if_pos rfl] at hcount
    omega

-- A reference that is given up.
theorem Valid.unref (hv : Valid s) (hr : (holder, i) ∈ s.references) (hc : holder = .task → s.calls i = none) :
    ∃ s', s.unref holder i = .ok s' ∧ Valid s' ∧ (Ledger s' ↔ Ledger s) := by
  have hpos := hv.refs_pos hr
  have hcount : ∀ j, (s.sessions j).refs = (s.references.erase (holder, i)).countP (·.2 = j) + if i = j then 1 else 0 :=
    fun j => (hv.counted j).trans (count_erase hr j)
  have htasked : ∀ j call, j ≠ i ∨ s.calls i ≠ none → s.calls j = some call →
      (.task, j) ∈ s.references.erase (holder, i) := by
    intro j call hj hcall
    have hne : (Holder.task, j) ≠ (holder, i) := by
      rintro heq
      obtain ⟨rfl, rfl⟩ := Prod.mk.inj heq
      rcases hj with hj | hj
      · exact hj rfl
      · exact hj (hc rfl)
    exact (List.mem_erase_of_ne hne).mpr (hv.tasked j call hcall)
  rcases hrefs : (s.sessions i).refs with _ | _ | n
  · omega
  · -- the last reference
    have hcalls := hv.call_eq_none hr hc hrefs
    refine ⟨({ s with references := s.references.erase (holder, i) } : State).finalized i,
      gObjectUnref_last hrefs (hv.kept i hpos), ⟨fun j => ?_, fun j hj => ?_, fun j call hj => ?_, fun j call hj => ?_,
      fun j hj => ?_, fun j k h hh hj hk => ?_⟩, ?_⟩
    · have hj := hcount j
      by_cases heq : j = i
      case pos =>
        subst heq
        rw [hrefs, if_pos rfl] at hj
        have hzero : (s.references.erase (holder, j)).countP (·.2 = j) = 0 := by omega
        exact (finalized_refs).trans hzero.symm
      case neg => simpa [State.count, State.finalized, heq, Ne.symm heq] using hj
    · have hne : j ≠ i := by
        rintro rfl
        exact absurd (hv.fresh j hj).1 (by omega)
      simpa [State.finalized, Function.update_of_ne hne] using hv.fresh j hj
    · have hne : j ≠ i := by
        rintro rfl
        simp [State.finalized, hcalls] at hj
      exact htasked j call (.inl hne) hj
    · have hne : j ≠ i := by
        rintro rfl
        simp [State.finalized, hcalls] at hj
      simpa [State.finalized, Function.update_of_ne hne] using hv.called j call hj
    · have hne : j ≠ i := by
        rintro rfl
        simp [State.finalized] at hj
      simp only [State.finalized, Function.update_of_ne hne] at hj ⊢
      exact hv.kept j hj
    · exact hv.alone j k h hh ((finalized_usesBy hcalls).mp hj).2 ((finalized_usesBy hcalls).mp hk).2
    · have hsame : Ledger (({ s with references := s.references.erase (holder, i) } : State).finalized i) ↔
          Ledger (s.finalized i) := Ledger.congr rfl fun _ _ => Iff.rfl
      exact hsame.trans (Ledger.finalized hv hpos hcalls)
  · -- one of several
    let s' := ({ s with references := s.references.erase (holder, i) } : State).setSession i
      { s.sessions i with refs := n + 1 }
    have hsame : ∀ j h, s'.UsesBy j h ↔ s.UsesBy j h := by
      intro j h
      by_cases heq : j = i
      case pos => simp [s', State.UsesBy, State.setSession, heq, hpos]
      case neg => simp [s', State.UsesBy, State.setSession, Function.update_of_ne heq]
    refine ⟨s', by simp [State.unref, gObjectUnref, hrefs, s'], ⟨fun j => ?_, fun j hj => ?_, fun j call hj => ?_,
      fun j call hj => ?_, fun j hj => ?_, fun j k h hh hj hk => ?_⟩, ?_⟩
    · have hj := hcount j
      by_cases heq : j = i
      case pos =>
        subst heq
        rw [hrefs, if_pos rfl] at hj
        simp [s', State.count, State.setSession] at hj ⊢
        omega
      case neg => simpa [s', State.count, State.setSession, heq, Ne.symm heq] using hj
    · have hne : j ≠ i := by
        rintro rfl
        exact absurd (hv.fresh j hj).1 (by omega)
      simpa [s', State.setSession, Function.update_of_ne hne] using hv.fresh j hj
    · refine htasked j call ?_ hj
      by_cases heq : j = i
      case pos => exact .inr fun hnone => by simp [s', State.setSession, heq, hnone] at hj
      case neg => exact .inl heq
    · have hcalled := hv.called j call hj
      by_cases heq : j = i
      case pos => simpa [s', State.setSession, heq] using heq ▸ hcalled
      case neg => simpa [s', State.setSession, Function.update_of_ne heq] using hcalled
    · by_cases heq : j = i
      case pos => simpa [s', State.setSession, heq] using hv.kept i hpos
      case neg =>
        simp only [s', State.setSession, Function.update_of_ne heq] at hj ⊢
        exact hv.kept j hj
    · exact hv.alone j k h hh ((hsame j h).mp hj) ((hsame k h).mp hk)
    · exact Ledger.congr rfl fun h _ => exists_congr fun j => hsame j h

end References

end SessionHandle
