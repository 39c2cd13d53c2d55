import GcrModel.Gcr.SshAgent.Service

namespace SshAgent

open GLib
open Transition (Run)

def KeyUpdate.Removes (key : Bytes) : KeyUpdate → Prop
  | addKey _    => False
  | removeKey k => k = key
  | clearKeys   => True

theorem KeyUpdate.mem_apply {u : KeyUpdate} {keys : Finset Bytes} {key : Bytes} :
    key ∈ u.apply keys ↔ u = .addKey key ∨ key ∈ keys ∧ ¬u.Removes key := by
  cases u
  case addKey k    => simp [apply, Removes, eq_comm]
  case removeKey k => simp [apply, Removes, and_comm, eq_comm]
  case clearKeys   => simp [apply, Removes]

-- What a thread still does to the table.
def Thread.todo : Thread → List KeyUpdate
  | updating todo _ => todo
  | _               => []

namespace Service

variable {s s' : Service} {e : ServiceEvent} {key : Bytes} {i : Nat} {t : Thread} {todo : List KeyUpdate}
  {u v : KeyUpdate} {req : Option Bytes} {ts : List (Service × ServiceEvent × Service)}

def Init (s : Service) : Prop :=
  s = {}

def Pending (s : Service) (v : KeyUpdate) : Prop :=
  ∃ j, v ∈ (s.threads j).todo

-- The key is to be taken out of the table: the ssh-agent exited, or a request was answered.
def Leaving (s : Service) (key : Bytes) : Prop :=
  s.process = .exited ∨ s.closed ≠ 0 ∨ ∃ v, s.Pending v ∧ v.Removes key

-- The current ssh-agent has the key, or the table is about to lose it.
def Kept (s : Service) (key : Bytes) : Prop :=
  key ∈ s.process.held ∨ s.Leaving key

def Tracks (s : Service) : Prop :=
  ∀ key ∈ s.keys, s.Kept key

-- A key that goes into the table is one that the ssh-agent has.
def AddsHeld (s : Service) (e : ServiceEvent) : Prop :=
  ∀ i key todo req, e = .update i → s.threads i = .updating (.addKey key :: todo) req → s.Kept key

theorem Init.tracks (h : Init s) : Tracks s := by
  cases h
  simp [Tracks]

theorem pending_split (i : Nat) : s.Pending v ↔ v ∈ (s.threads i).todo ∨ ∃ j, j ≠ i ∧ v ∈ (s.threads j).todo := by
  constructor
  · rintro ⟨j, hj⟩
    by_cases hne : j = i
    · exact .inl (hne ▸ hj)
    · exact .inr ⟨j, hne, hj⟩
  · rintro (h | ⟨j, _, hj⟩)
    · exact ⟨i, h⟩
    · exact ⟨j, hj⟩

theorem pending_setThread : (s.setThread i t).Pending v ↔ v ∈ t.todo ∨ ∃ j, j ≠ i ∧ v ∈ (s.threads j).todo := by
  rw [pending_split i]
  refine or_congr ?_ (exists_congr fun j => and_congr_right fun hne => ?_)
  · simp only [setThread, Function.update_self]
  · simp only [setThread, Function.update_of_ne hne]

-- A thread that had nothing to do does not take anything away.
theorem Pending.setThread (h : s.Pending v) (hi : (s.threads i).todo = []) : (s.setThread i t).Pending v := by
  rw [pending_split i, hi] at h
  exact (pending_setThread).mpr (.inr (h.resolve_left List.not_mem_nil))

-- An update is taken away when it is made.
theorem pending_update (h : s.threads i = .updating (u :: todo) req) :
    s.Pending v ↔ v = u ∨ (s.setThread i (.updating todo req)).Pending v := by
  rw [pending_setThread, pending_split i, h, Thread.todo, Thread.todo, List.mem_cons, or_assoc]

theorem Leaving.setThread (l : Leaving s key) (hi : (s.threads i).todo = []) : Leaving (s.setThread i t) key := by
  obtain h | h | ⟨v, hv, hr⟩ := l
  · exact .inl h
  · exact .inr (.inl h)
  · exact .inr (.inr ⟨v, hv.setThread hi, hr⟩)

theorem leaving_update {keys : Finset Bytes} (h : s.threads i = .updating (u :: todo) req) (hr : ¬u.Removes key) :
    Leaving { s.setThread i (.updating todo req) with keys } key ↔ Leaving s key := by
  refine or_congr_right (or_congr_right (exists_congr fun v => and_congr_left fun hv => ?_))
  rw [pending_update h, or_iff_right]
  · rfl
  · rintro rfl
    exact hr hv

theorem kept_update {keys : Finset Bytes} (h : s.threads i = .updating (u :: todo) req) (hr : ¬u.Removes key) :
    Kept { s.setThread i (.updating todo req) with keys } key ↔ Kept s key :=
  or_congr_right (leaving_update h hr)

theorem tracks_update (t : Tracks s) (h : s.threads i = .updating (u :: todo) req) :
    Tracks { s.setThread i (.updating todo req) with keys := u.apply s.keys } ↔
      ∀ key, u = .addKey key → Kept s key := by
  constructor
  · rintro t' key rfl
    exact (kept_update h id).mp (t' key ((KeyUpdate.mem_apply).mpr (.inl rfl)))
  · intro hadd key hkey
    obtain rfl | ⟨hmem, hr⟩ := (KeyUpdate.mem_apply).mp hkey
    · exact (kept_update h id).mpr (hadd key rfl)
    · exact (kept_update h hr).mpr (t key hmem)

-- A thread that goes on without an update keeps the property.
theorem Tracks.setThread (t' : Tracks s) (hi : (s.threads i).todo = []) : Tracks (s.setThread i t) :=
  fun key hkey => (t' key hkey).imp_right fun l => l.setThread hi

-- What an answer takes away from the ssh-agent, the table is about to lose.
theorem AgentAnswers.mem {req resp : Bytes} {held held' : Finset Bytes} (h : AgentAnswers req resp held held')
    (hkey : key ∈ held) : key ∈ held' ∨ ∃ v ∈ keyUpdates req resp, v.Removes key := by
  rw [AgentAnswers] at h
  split at h
  case isFalse => exact .inl (h ▸ hkey)
  case isTrue =>
    rw [keyUpdates]
    cases hop : operation req <;> rw [hop] at h
    case addIdentity         => exact .inl (h hkey)
    case removeIdentity      =>
      refine (h key hkey).imp_right fun hreq => ?_
      simp only [hreq]
      exact ⟨.removeKey key, by simp, rfl⟩
    case removeAllIdentities => exact .inr ⟨.clearKeys, List.mem_singleton_self _, trivial⟩
    all_goals exact .inl (h ▸ hkey)

theorem Step.tracks_iff (t : Tracks s) (h : Step s e s') : Tracks s' ↔ AddsHeld s e := by
  cases h
  case update i u todo req h =>
    rw [tracks_update t h]
    constructor
    · rintro hadd j key todo' req' ⟨⟩ hj
      rw [h] at hj
      cases hj
      exact hadd key rfl
    · rintro hadd key rfl
      exact hadd i key todo req rfl h
  all_goals refine iff_of_true ?_ fun _ _ _ _ he => by cases he
  case receive h | handle h | sshAdd h | done h => exact t.setThread (by rw [h]; rfl)
  case reconnect h _ | disconnect h _           => exact t.setThread (by rw [h]; rfl)
  case answer i req resp held held' h hp ha =>
    intro key hkey
    have hi : (s.threads i).todo = [] := by rw [h]; rfl
    obtain hk | hk | hk | ⟨v, hv, hr⟩ := t key hkey
    · rw [hp] at hk
      obtain hk | ⟨v, hv, hr⟩ := AgentAnswers.mem ha hk
      · exact .inl hk
      · exact .inr (.inr (.inr ⟨v, (pending_setThread).mpr (.inl hv), hr⟩))
    · rw [hp] at hk
      cases hk
    · exact .inr (.inr (.inl hk))
    · exact .inr (.inr (.inr ⟨v, hv.setThread hi, hr⟩))
  case start h =>
    intro key hkey
    obtain hk | hk | hk := t key hkey
    · rw [h] at hk
      exact absurd hk (Finset.notMem_empty key)
    · rw [h] at hk
      cases hk
    · exact .inr (.inr hk)
  case exit       => exact fun key _ => .inr (.inl rfl)
  case childWatch => exact fun key _ => .inr (.inr (.inl (Nat.succ_ne_zero _)))
  case onClosed   => exact fun key hkey => absurd hkey (Finset.notMem_empty key)

theorem forall_kept_iff (r : Run Init Step ts s) :
    (∀ t ∈ ts, Tracks t.2.2) ↔ ∀ t ∈ ts, AddsHeld t.1 t.2.1 :=
  r.forall_iff (p := fun _ => True) (fun _ _ => trivial) (fun _ _ _ _ _ => trivial) (fun _ => Init.tracks)
    fun _ _ _ _ => Step.tracks_iff

-- A request to add an identity, which the ssh-agent refuses.
def addRequest : Bytes :=
  [0, 0, 0, 6, 17, 0, 0, 0, 1, 107]

def refusal : Bytes :=
  [0, 0, 0, 1, 5]

theorem setThread_threads : (s.setThread i t).threads i = t := by
  simp only [setThread, Function.update_self]

def started : Service where
  process := .running ∅

theorem run_refused : ∃ ts s, Run Init Step ts s ∧ s.threads 0 = .updating [.addKey [107]] none ∧
    s.keys = ∅ ∧ s.process = .running ∅ ∧ s.closed = 0 ∧ ∀ v, s.Pending v → v = .addKey [107] := by
  have h₁ : Step {} .start started := .start rfl
  have h₂ : Step started (.receive 0 addRequest) (started.setThread 0 (.handling addRequest)) := .receive rfl
  have h₃ : Step (started.setThread 0 (.handling addRequest)) (.handle 0 false)
      ((started.setThread 0 (.handling addRequest)).setThread 0 (.relaying addRequest)) := .handle setThread_threads
  have h₄ : Step ((started.setThread 0 (.handling addRequest)).setThread 0 (.relaying addRequest)) (.answer 0 refusal)
      (((started.setThread 0 (.handling addRequest)).setThread 0 (.relaying addRequest)).setThread 0
        (.updating [.addKey [107]] none)) :=
    .answer setThread_threads rfl (by simp [AgentAnswers, refusal])
  refine ⟨_, _, .step (.step (.step (.step (.start rfl) h₁) h₂) h₃) h₄, setThread_threads, rfl, rfl, rfl, fun v hv => ?_⟩
  obtain hv | ⟨j, hne, hv⟩ := (pending_setThread).mp hv
  · exact List.mem_singleton.mp hv
  · simp only [setThread, Function.update_of_ne hne] at hv
    cases hv

theorem not_forall_kept : ¬∀ ts s, Run Init Step ts s → ∀ t ∈ ts, Tracks t.2.2 := by
  intro hall
  obtain ⟨ts, s, r, hi, hk, hp, hc, hv⟩ := run_refused
  have t : Tracks s := by simp [Tracks, hk]
  have h : Step s (.update 0) { s.setThread 0 (.updating [] none) with keys := insert [107] s.keys } := .update hi
  obtain hmem | hex | hcl | ⟨v, hpend, hr⟩ := (Step.tracks_iff t h).mp (hall _ _ (r.step h) _ List.mem_cons_self) _ _ _ _ rfl hi
  · rw [hp] at hmem
    exact Finset.notMem_empty _ hmem
  · rw [hp] at hex
    cases hex
  · exact hcl hc
  · rw [hv v hpend] at hr
    exact hr

theorem forall_kept_iff_refused :
    ∃ ts s, Run Init Step ts s ∧ ((∀ t ∈ ts, Tracks t.2.2) ↔ ∀ t ∈ ts, AddsHeld t.1 t.2.1) := by
  obtain ⟨ts, s, r, _⟩ := run_refused
  exact ⟨ts, s, r, forall_kept_iff r⟩

end Service

end SshAgent
