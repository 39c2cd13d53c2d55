import GcrModel.Gcr.Parser.Pem
import GcrModel.Gcr.Parser.Theorems.Parsed

-- The loops that try passwords.
namespace Parser

open GLib

variable {s s₁ s₂ : State} {items : List Parsed} {as : List Announcement} {n : Nat} {state : PasswordState}
  {code : Code} {p : List Event → Prop} {q : Code → List Event → Prop} {attempt : Password → ParserM (Option Code)}

def announcements (events : List Event) : List Announcement :=
  events.filterMap Event.announcement

theorem Runs.announcements (h : Runs s s₁ items as) : announcements (s₁.since s) = as := by
  have hannounced := h.announced
  rw [State.announced, events_of_prefix h.prompts.events, List.filterMap_append] at hannounced
  exact List.append_cancel_left hannounced

-- What a signal leaves.
def State.asked (s : State) (n : Nat) : State :=
  { s with
    passwords := s.passwords ++ (takeAnswer s.answers).1.added
    answers   := (takeAnswer s.answers).2
    events    := s.events ++ [.authenticate n] }

theorem State.since_asked (s : State) (n : Nat) : (s.asked n).since s = [.authenticate n] :=
  since_of_append rfl

-- The handlers are asked when all that is known was tried.
theorem Prompts.asked (h : Prompts s s₁) (htried : ∀ password ∈ s₁.passwords, .tried password ∈ s₁.since s) (n : Nat) :
    Prompts s (s₁.asked n) := by
  have hevents := events_of_prefix h.events
  have hsince : (s₁.asked n).since s = s₁.since s ++ [.authenticate n] := by
    apply since_of_append
    rw [State.asked, hevents, List.append_assoc]
  have hafter : s.prompting.after ((s₁.asked n).since s) = (s.prompting.after (s₁.since s)).step (.authenticate n) := by
    rw [hsince, Prompting.after, Monitor.after_append]
    rfl
  refine ⟨h.events.trans (List.prefix_append _ _), ?_, ?_, ?_⟩
  · rw [hsince]
    refine Monitor.accepts_append.mpr ⟨h.accepted, ?_, trivial⟩
    intro password hpassword
    exact Prompting.mem_tried_after.mpr (.inr (htried password (h.known ▸ hpassword)))
  · rw [hafter, Prompting.step, h.known, h.answers]
    rfl
  · rw [hafter, Prompting.step, h.answers]
    rfl

theorem Runs.asked (h : Runs s s₁ [] as) (htried : ∀ password ∈ s₁.passwords, .tried password ∈ s₁.since s) (n : Nat) :
    Runs s (s₁.asked n) [] as where
  parsed    := h.parsed
  announced := by
    rw [← h.announced, State.announced, State.asked, List.filterMap_append]
    exact List.append_nil _
  prompts   := h.prompts.asked htried n

-- A password that comes next, or the result of the loop.
inductive Enumerated (state : PasswordState) (s : State) : Except Code (Password × PasswordState) → State → Prop
  | seen {password : Password} (h : s.passwords[state.seen]? = some password) :
    Enumerated state s (.ok (password, { state with seen := state.seen + 1 })) s
  | added {password : Password} (hall : s.passwords.length ≤ state.seen)
      (h : (s.asked state.askState).passwords[state.seen]? = some password) :
    Enumerated state s (.ok (password, ⟨state.askState + 1, state.seen + 1⟩)) (s.asked state.askState)
  | refused {r : Code} (hall : s.passwords.length ≤ state.seen) (h : r = .cancelled ∨ r = .locked) :
    Enumerated state s (.error r) (s.asked state.askState)

theorem enumNextPassword_returns (state : PasswordState) (s : State) :
    Returns (enumNextPassword state) s (Enumerated state s) := by
  cases hpassword : s.passwords[state.seen]?
  case some password =>
    apply Returns.of_ok _ (.seen hpassword)
    simp only [enumNextPassword, hpassword]
  case none =>
    have hall : s.passwords.length ≤ state.seen := List.getElem?_eq_none_iff.mp hpassword
    by_cases hresult : (takeAnswer s.answers).1.result
    case neg =>
      apply Returns.of_ok _ (.refused hall (.inl rfl))
      simp only [enumNextPassword, hpassword, if_pos hresult]
      rfl
    case pos =>
      cases hadded : (s.asked state.askState).passwords[state.seen]?
      case none =>
        apply Returns.of_ok _ (.refused hall (.inr rfl))
        simp only [State.asked] at hadded
        simp only [enumNextPassword, hpassword, if_neg (not_not.mpr hresult), hadded]
        rfl
      case some password =>
        apply Returns.of_ok _ (.added hall hadded)
        simp only [State.asked] at hadded
        simp only [enumNextPassword, hpassword, if_neg (not_not.mpr hresult), hadded]
        rfl

-- What may happen in a loop that goes on, and what until it returns.
structure Gathers (p : List Event → Prop) (q : Code → List Event → Prop) : Prop where
  nil      : p []
  append   : ∀ {es fs}, p es → p fs → p (es ++ fs)
  returned : ∀ {code es fs}, p es → q code fs → q code (es ++ fs)
  asked    : ∀ n, p [.authenticate n]
  refused  : ∀ n code, code = .cancelled ∨ code = .locked → q code [.authenticate n]

-- What trying a password comes to.
structure Attempted (p : List Event → Prop) (q : Code → List Event → Prop) (password : Password) (s : State)
    (r : Option Code) (s' : State) : Prop where
  runs   : ∃ as, Runs s s' [] as
  tried  : .tried password ∈ s'.since s
  result : r.elim (p (s'.since s)) (q · (s'.since s))

theorem take_eq_of_le {α : Type} {l l' : List α} {i : Nat} (h : l <+: l') (hi : i ≤ l.length) : l'.take i = l.take i := by
  obtain ⟨more, rfl⟩ := h
  exact List.take_append_of_le_length hi

-- The state of a loop that began at `s` and goes on at `s₁`.
structure Looping (p : List Event → Prop) (s : State) (seen : Nat) (s₁ : State) : Prop where
  runs  : ∃ as, Runs s s₁ [] as
  since : p (s₁.since s)
  le    : seen ≤ s₁.passwords.length
  tried : ∀ password ∈ s₁.passwords.take seen, .tried password ∈ s₁.since s

theorem Looping.prompts {seen : Nat} (h : Looping p s seen s₁) : Prompts s s₁ :=
  have ⟨_, h⟩ := h.runs
  h.prompts

-- Everything was tried.
theorem Looping.all {seen : Nat} (h : Looping p s seen s₁) (hall : s₁.passwords.length ≤ seen) :
    ∀ password ∈ s₁.passwords, .tried password ∈ s₁.since s := by
  have htried := h.tried
  rwa [List.take_of_length_le hall] at htried

theorem Looping.asked {seen : Nat} (hp : Gathers p q) (h : Looping p s seen s₁) (hall : s₁.passwords.length ≤ seen)
    (n : Nat) : Looping p s seen (s₁.asked n) := by
  obtain ⟨as, hruns⟩ := h.runs
  have hruns' := hruns.asked (h.all hall) n
  have hsince : (s₁.asked n).since s = s₁.since s ++ [.authenticate n] := by
    rw [since_trans hruns.prompts.events (List.prefix_append _ _), State.since_asked]
  refine ⟨⟨as, hruns'⟩, ?_, ?_, ?_⟩
  · rw [hsince]
    exact hp.append h.since (hp.asked n)
  · exact Nat.le_trans h.le (by simp [State.asked])
  · intro password hpassword
    have hprefix : s₁.passwords <+: (s₁.asked n).passwords := List.prefix_append _ _
    rw [take_eq_of_le hprefix h.le] at hpassword
    rw [hsince]
    exact List.mem_append_left _ (h.tried password hpassword)

-- One more password was tried, and it was not the right one.
theorem Looping.next {password : Password} {seen : Nat} (hp : Gathers p q) (h : Looping p s seen s₁)
    (hpassword : s₁.passwords[seen]? = some password) (ha : Attempted p q password s₁ none s₂) :
    Looping p s (seen + 1) s₂ := by
  obtain ⟨as, hruns⟩ := h.runs
  obtain ⟨⟨bs, hruns'⟩, htried, hresult⟩ := ha
  have hsince := since_trans hruns.prompts.events hruns'.prompts.events
  have hlt : seen < s₁.passwords.length := (List.getElem?_eq_some_iff.mp hpassword).choose
  have hprefix := hruns'.prompts.passwords
  refine ⟨⟨_, hruns.trans hruns'⟩, ?_, Nat.le_trans hlt hprefix.length_le, ?_⟩
  · rw [hsince]
    exact hp.append h.since hresult
  · rw [take_eq_of_le hprefix hlt, List.take_add_one, hpassword, hsince]
    intro password' hmem
    rcases List.mem_append.mp hmem with hmem | hmem
    · exact List.mem_append_left _ (h.tried password' hmem)
    · obtain rfl := Option.some.inj (Option.mem_toList.mp hmem)
      exact List.mem_append_right _ htried

theorem Looping.returned {password : Password} {seen : Nat} (hp : Gathers p q) (h : Looping p s seen s₁)
    (ha : Attempted p q password s₁ (some code) s₂) : (∃ as, Runs s s₂ [] as) ∧ q code (s₂.since s) := by
  obtain ⟨as, hruns⟩ := h.runs
  obtain ⟨⟨bs, hruns'⟩, htried, hresult⟩ := ha
  refine ⟨⟨_, hruns.trans hruns'⟩, ?_⟩
  rw [since_trans hruns.prompts.events hruns'.prompts.events]
  exact hp.returned h.since hresult

-- The loop ends because every password has its own turn. The fuel is more than the passwords that are left.
theorem tryPasswords_returns (hp : Gathers p q)
    (hattempt : ∀ password s₁, password ∈ s₁.passwords → Returns (attempt password) s₁ (Attempted p q password s₁))
    {fuel : Nat} (hfuel : s.supply < fuel + state.seen) (h : Looping p s state.seen s₁) :
    Returns (tryPasswords attempt fuel state) s₁ fun code s' => (∃ as, Runs s s' [] as) ∧ q code (s'.since s) := by
  induction fuel generalizing state s₁
  case zero =>
    have hsupply := h.prompts.supply
    have hseen := h.le
    rw [State.supply] at hsupply
    omega
  case succ fuel ih =>
    -- The round with a password that is known.
    have hround : ∀ {password state' s₁} {k : Option Code → ParserM Code}, (∀ r, k (some r) = pure r) →
        k none = tryPasswords attempt fuel state' → Looping p s state.seen s₁ →
        s₁.passwords[state.seen]? = some password → state'.seen = state.seen + 1 →
        Returns (attempt password >>= k) s₁ fun code s' => (∃ as, Runs s s' [] as) ∧ q code (s'.since s) := by
      intro password state' s₁ k hsome hnone h hpassword hstate'
      apply Returns.bind (hattempt password s₁ (List.mem_of_getElem? hpassword))
      intro r s₂ ha
      cases r
      case some r =>
        rw [hsome]
        exact Returns.pure (h.returned hp ha)
      case none   =>
        rw [hnone]
        apply ih (by omega)
        rw [hstate']
        exact h.next hp hpassword ha
    apply Returns.bind (enumNextPassword_returns state s₁)
    intro r s₂ henumerated
    cases henumerated
    case seen password hpassword       => exact hround (fun _ => rfl) rfl h hpassword rfl
    case added password hall hpassword => exact hround (fun _ => rfl) rfl (h.asked hp hall _) hpassword rfl
    case refused r hall hr             =>
      obtain ⟨as, hruns⟩ := h.runs
      refine Returns.pure ⟨⟨as, hruns.asked (h.all hall) _⟩, ?_⟩
      rw [since_trans hruns.prompts.events (List.prefix_append _ _), State.since_asked]
      exact hp.returned h.since (hp.refused _ _ hr)

theorem eachPassword_returns (hp : Gathers p q)
    (hattempt : ∀ password s₁, password ∈ s₁.passwords → Returns (attempt password) s₁ (Attempted p q password s₁))
    (s : State) : Returns (eachPassword attempt) s fun code s' => (∃ as, Runs s s' [] as) ∧ q code (s'.since s) := by
  apply Returns.bind (Returns.get ⟨rfl, rfl⟩ : Returns get s fun a s' => a = s ∧ s' = s)
  rintro _ _ ⟨rfl, rfl⟩
  apply tryPasswords_returns hp hattempt (Nat.lt_succ_self _)
  refine ⟨⟨[], Runs.refl _⟩, ?_, Nat.zero_le _, ?_⟩
  · rw [since_of_append (List.append_nil _).symm]
    exact hp.nil
  · intro password hmem
    exact absurd hmem List.not_mem_nil

end Parser
