import GcrModel.Library.Scan
import GcrModel.Library.Transition
import GcrModel.Gcr.Parser.Der

namespace Parser

open GLib

section Prompting

-- The passwords that are known, the answers to come, and the passwords that were tried.
structure Prompting where
  known   : List Password
  answers : List Answer
  tried   : List Password

namespace Prompting

def step (p : Prompting) : Event → Prompting
  | .tried password => { p with tried := p.tried ++ [password] }
  | .authenticate _ =>
    { p with known := p.known ++ (takeAnswer p.answers).1.added, answers := (takeAnswer p.answers).2 }
  | .parsed _       => p

-- A password that is tried is known, and nobody is asked while there is a known one that was not tried.
def Allows (p : Prompting) : Event → Prop
  | .tried password => password ∈ p.known
  | .authenticate _ => ∀ password ∈ p.known, password ∈ p.tried
  | .parsed _       => True

-- The passwords that there are and that can be added.
def supply (p : Prompting) : Nat :=
  p.known.length + (p.answers.flatMap (·.added)).length

abbrev after (p : Prompting) (events : List Event) : Prompting :=
  Monitor.after step p events

abbrev Accepts (p : Prompting) (events : List Event) : Prop :=
  Monitor.Accepts step Allows p events

-- The same, where more was tried.
structure Le (p p' : Prompting) : Prop where
  known   : p.known = p'.known
  answers : p.answers = p'.answers
  tried   : p.tried ⊆ p'.tried

variable {p p' : Prompting} {events : List Event} {password : Password}

theorem Le.step (h : Le p p') (e : Event) : Le (p.step e) (p'.step e) := by
  obtain ⟨hknown, hanswers, htried⟩ := h
  cases e
  case tried password  => exact ⟨hknown, hanswers, List.append_subset.mpr
    ⟨List.subset_append_of_subset_left _ htried, List.subset_append_right _ _⟩⟩
  case authenticate n  =>
    refine ⟨?_, ?_, htried⟩
    · simp only [Prompting.step, hknown, hanswers]
    · simp only [Prompting.step, hanswers]
  case parsed a        => exact ⟨hknown, hanswers, htried⟩

theorem Le.allows (h : Le p p') (e : Event) (ha : p.Allows e) : p'.Allows e := by
  cases e
  case tried password =>
    have hknown : password ∈ p.known := ha
    rwa [h.known] at hknown
  case authenticate n =>
    intro password hpassword
    exact h.tried (ha password (h.known ▸ hpassword))
  case parsed a       => trivial

theorem Le.accepts (h : Le p p') (ha : p.Accepts events) : p'.Accepts events ∧ Le (p.after events) (p'.after events) :=
  Monitor.accepts_of_simulates (fun _ _ h e => h.step e) (fun _ _ h e => h.allows e) h ha

theorem supply_step (p : Prompting) (e : Event) : (p.step e).supply = p.supply := by
  cases e
  case authenticate n =>
    obtain ⟨known, answers, tried⟩ := p
    cases answers
    case nil         => simp [step, supply, takeAnswer]
    case cons a rest => simp [step, supply, takeAnswer, Nat.add_assoc]
  all_goals rfl

theorem supply_after (p : Prompting) (events : List Event) : (p.after events).supply = p.supply := by
  induction events generalizing p
  case nil            => rfl
  case cons e rest ih => exact (ih _).trans (supply_step p e)

theorem known_step (p : Prompting) (e : Event) : p.known <+: (p.step e).known := by
  cases e
  case authenticate n => exact List.prefix_append _ _
  all_goals exact List.prefix_rfl

theorem known_after (p : Prompting) (events : List Event) : p.known <+: (p.after events).known := by
  induction events generalizing p
  case nil            => exact List.prefix_rfl
  case cons e rest ih => exact (known_step p e).trans (ih _)

theorem mem_tried_after : password ∈ (p.after events).tried ↔ password ∈ p.tried ∨ .tried password ∈ events := by
  induction events generalizing p
  case nil            => simp
  case cons e rest ih =>
    rw [after, Monitor.after_cons, ih, List.mem_cons, ← or_assoc]
    refine or_congr_left ?_
    cases e
    all_goals simp [step]

end Prompting

def State.prompting (s : State) : Prompting :=
  ⟨s.passwords, s.answers, []⟩

end Prompting

section Parsed

def Event.announcement : Event → Option Announcement
  | .parsed a => some a
  | _         => none

def State.announced (s : State) : List Announcement :=
  s.events.filterMap Event.announcement

-- What happened since the state.
def State.since (s' s : State) : List Event :=
  s'.events.drop s.events.length

-- How the events since the state deal with the passwords.
structure Prompts (s s' : State) : Prop where
  events   : s.events <+: s'.events
  accepted : s.prompting.Accepts (s'.since s)
  known    : (s.prompting.after (s'.since s)).known = s'.passwords
  answers  : (s.prompting.after (s'.since s)).answers = s'.answers

-- The items that were put on the stack since `s`, and what was announced. The passwords are those that were to come.
structure Runs (s s' : State) (items : List Parsed) (as : List Announcement) : Prop where
  parsed    : s'.parsed = items ++ s.parsed
  announced : s'.announced = s.announced ++ as
  prompts   : Prompts s s'

variable {s s₁ s₂ : State} {item : Parsed} {items : List Parsed} {as bs : List Announcement} {parsed : Nat}
  {q : Unit → State → Prop} {events : List Event}

theorem since_of_append (h : s₁.events = s.events ++ events) : s₁.since s = events := by
  rw [State.since, h, List.drop_left]

theorem events_of_prefix (h : s.events <+: s₁.events) : s₁.events = s.events ++ s₁.since s := by
  obtain ⟨events, h⟩ := h
  rw [since_of_append h.symm, h]

theorem since_trans (h : s.events <+: s₁.events) (h' : s₁.events <+: s₂.events) : s₂.since s = s₁.since s ++ s₂.since s₁ := by
  apply since_of_append
  rw [← List.append_assoc, ← events_of_prefix h, ← events_of_prefix h']

-- Nothing happened.
theorem Prompts.of_eq (hevents : s₁.events = s.events) (hpasswords : s₁.passwords = s.passwords)
    (hanswers : s₁.answers = s.answers) : Prompts s s₁ := by
  have hsince : s₁.since s = [] := since_of_append (hevents.trans (List.append_nil _).symm)
  refine ⟨hevents ▸ List.prefix_rfl, ?_, ?_, ?_⟩
  · rw [hsince]
    trivial
  · rw [hsince]
    exact hpasswords.symm
  · rw [hsince]
    exact hanswers.symm

-- The second part starts with what was tried in the first one.
theorem Prompts.le (h : Prompts s s₁) : s₁.prompting.Le (s.prompting.after (s₁.since s)) where
  known   := h.known.symm
  answers := h.answers.symm
  tried   := List.nil_subset _

theorem Prompts.trans (h : Prompts s s₁) (h' : Prompts s₁ s₂) : Prompts s s₂ := by
  have hsince := since_trans h.events h'.events
  obtain ⟨haccepted, hafter⟩ := h.le.accepts h'.accepted
  refine ⟨h.events.trans h'.events, ?_, ?_, ?_⟩
  · rw [hsince]
    exact Monitor.accepts_append.mpr ⟨h.accepted, haccepted⟩
  · rw [hsince, Prompting.after, Monitor.after_append, ← h'.known, hafter.known]
  · rw [hsince, Prompting.after, Monitor.after_append, ← h'.answers, hafter.answers]

theorem Prompts.supply (h : Prompts s s₁) : s₁.supply = s.supply := by
  have hsupply := s.prompting.supply_after (s₁.since s)
  rwa [Prompting.supply, h.known, h.answers] at hsupply

theorem Prompts.passwords (h : Prompts s s₁) : s.passwords <+: s₁.passwords := by
  have hknown := s.prompting.known_after (s₁.since s)
  rwa [h.known] at hknown

-- One more event.
theorem Prompts.event {event : Event} (hevents : s₁.events = s.events ++ [event]) (hallows : s.prompting.Allows event)
    (hknown : (s.prompting.step event).known = s₁.passwords) (hanswers : (s.prompting.step event).answers = s₁.answers) :
    Prompts s s₁ := by
  have hsince : s₁.since s = [event] := since_of_append hevents
  refine ⟨hevents ▸ List.prefix_append _ _, ?_, ?_, ?_⟩
  · rw [hsince]
    exact ⟨hallows, trivial⟩
  · rwa [hsince]
  · rwa [hsince]

theorem Runs.refl (s : State) : Runs s s [] [] where
  parsed    := rfl
  announced := (List.append_nil _).symm
  prompts   := Prompts.of_eq rfl rfl rfl

-- Something that leaves the stack as it was.
theorem Runs.trans (h : Runs s s₁ items as) (h' : Runs s₁ s₂ [] bs) : Runs s s₂ items (as ++ bs) where
  parsed    := h'.parsed.trans h.parsed
  announced := by rw [h'.announced, h.announced, List.append_assoc]
  prompts   := h.prompts.trans h'.prompts

theorem Runs.length (h : Runs s s₁ [item] as) : s₁.parsed.length = s.parsed.length + 1 :=
  congrArg List.length h.parsed

-- The item on the top has another value.
theorem Runs.set (h : Runs s s₁ [item] as) (items : List Parsed) :
    Runs s { s₁ with parsed := items ++ s.parsed } items as where
  parsed    := rfl
  announced := h.announced
  prompts   := h.prompts.trans (Prompts.of_eq rfl rfl rfl)

theorem pushParsed_returns (s : State) : Returns pushParsed s fun parsed s₁ =>
    parsed = s.parsed.length ∧ Runs s s₁ [{}] [] := by
  apply Returns.of_ok (t := { s with parsed := {} :: s.parsed }) rfl
  refine ⟨rfl, rfl, ?_, Prompts.of_eq rfl rfl rfl⟩
  exact (List.append_nil _).symm

theorem popParsed_returns (h : Runs s s₁ [item] as) :
    Returns (popParsed s.parsed.length) s₁ fun _ s₂ => Runs s s₂ [] as ∧ s₂.events = s₁.events := by
  apply Returns.of_ok (a := ()) (t := { s₁ with parsed := s.parsed })
  · simp only [popParsed, h.parsed, List.singleton_append, if_pos]
  · exact ⟨h.set [], rfl⟩

theorem modifyParsed_returns {f : Parsed → Except Fault Parsed} {item' : Parsed} (h : Runs s s₁ [item] as)
    (hf : f item = .ok item') :
    Returns (modifyParsed s.parsed.length f) s₁ fun _ s₂ => Runs s s₂ [item'] as := by
  apply Returns.of_ok (a := ()) (t := { s₁ with parsed := item' :: s.parsed }) _ (h.set [item'])
  have hlt : s.parsed.length < (item :: s.parsed).length := by
    rw [List.length_cons]
    exact Nat.lt_succ_self _
  have hindex : (item :: s.parsed).length - 1 - s.parsed.length = 0 := by
    rw [List.length_cons]
    omega
  have hparsed : s₁.parsed = item :: s.parsed := h.parsed
  simp only [modifyParsed, hparsed, if_pos hlt, hindex, List.getElem?_cons_zero, hf]
  rfl

theorem setAttribute_returns (h : Runs s s₁ [item] as) (attr : Attribute) :
    Returns (setAttribute s.parsed.length attr) s₁ fun _ s₂ =>
      Runs s s₂ [{ item with builder := item.builder ++ [attr] }] as :=
  modifyParsed_returns h rfl

theorem setAttributes_returns (h : Runs s s₁ [item] as) (attrs : List Attribute) :
    Returns (setAttributes s.parsed.length attrs) s₁ fun _ s₂ =>
      Runs s s₂ [{ item with builder := item.builder ++ attrs }] as :=
  modifyParsed_returns h rfl

theorem parsingObject_returns (h : Runs s s₁ [item] as) (klass : ObjectClass) :
    Returns (parsingObject s.parsed.length klass) s₁ fun _ s₂ =>
      Runs s s₂ [{ item with builder := [.ofClass klass] }] as :=
  modifyParsed_returns h rfl

theorem parsingBlock_returns (h : Runs s s₁ [item] as) (hnone : item.data = none) (format : DataFormat) (data : Bytes) :
    Returns (parsingBlock s.parsed.length format data) s₁ fun _ s₂ =>
      Runs s s₂ [{ item with format := some format, data := some data }] as :=
  modifyParsed_returns h (if_pos hnone)

theorem setLabel_returns (h : Runs s s₁ [item] as) (hnone : item.label = none) (label : Option Bytes) :
    Returns (setLabel s.parsed.length label) s₁ fun _ s₂ => Runs s s₂ [{ item with label := label }] as :=
  modifyParsed_returns h (if_pos hnone)

-- What the item is when it has been announced.
def Parsed.fired (item : Parsed) : Parsed :=
  { item with attrs := some item.builder, builder := [] }

theorem fireParsed_returns (h : Runs s s₁ [item] as) (hnone : item.attrs = none) :
    Returns (fireParsed s.parsed.length) s₁ fun _ s₂ =>
      Runs s s₂ [item.fired] (as ++ [announcement (item.fired :: s.parsed)]) := by
  let s₂ : State := { s₁ with
    parsed := item.fired :: s.parsed
    events := s₁.events ++ [.parsed (announcement (item.fired :: s.parsed))] }
  have hfine : ¬(s.parsed.length ≠ s.parsed.length ∨ item.attrs ≠ none) := by
    rintro (h | h)
    · exact h rfl
    · exact h hnone
  apply Returns.of_ok (a := ()) (t := s₂)
  · simp only [fireParsed, h.parsed, List.singleton_append, if_neg hfine]
    rfl
  · refine ⟨rfl, ?_, h.prompts.trans (Prompts.event rfl trivial rfl rfl)⟩
    have hannounced : s₂.announced = s₁.announced ++ [announcement (item.fired :: s.parsed)] :=
      List.filterMap_append
    rw [hannounced, h.announced, List.append_assoc]

theorem getLabel_returns (s : State) : Returns getLabel s fun label s₁ => label = getParsedLabel s.parsed ∧ s₁ = s :=
  ⟨_, s, rfl, rfl, rfl⟩

-- A password that is known is tried.
theorem call_returns {α : Type} {password : Password} (hknown : password ∈ s.passwords) (result : α) :
    Returns (call password result) s fun a s₁ => a = result ∧ Runs s s₁ [] [] ∧ s₁.passwords = s.passwords ∧
      .tried password ∈ s₁.since s := by
  let s₁ : State := { s with events := s.events ++ [.tried password] }
  apply Returns.of_ok (a := result) (t := s₁) rfl
  have hevents : s₁.events = s.events ++ [.tried password] := rfl
  refine ⟨rfl, ⟨rfl, ?_, Prompts.event hevents hknown rfl rfl⟩, rfl, ?_⟩
  · rw [State.announced, hevents, List.filterMap_append]
    rfl
  · rw [since_of_append hevents]
    exact List.mem_singleton_self _

end Parsed

section Gives

-- It returns with the stack as it was, and what it returns and announces is of `q`.
def Gives (x : ParserM Code) (s : State) (q : Code → List Announcement → Prop) : Prop :=
  Returns x s fun code s' => ∃ as, Runs s s' [] as ∧ q code as

-- The same of a part of a function behind its push. `s` is what was before that.
def Inside (s : State) (x : ParserM Code) (s₁ : State) (q : Code → List Announcement → Prop) : Prop :=
  Returns x s₁ fun code s₂ => ∃ item as, Runs s s₂ [item] as ∧ q code as

variable {s s₁ : State} {x y : ParserM Code} {item : Parsed} {as : List Announcement} {code : Code}
  {p q : Code → List Announcement → Prop}

namespace Gives

theorem pure (h : q code []) : Gives (Pure.pure code) s q :=
  Returns.pure ⟨[], Runs.refl s, h⟩

theorem mono (hx : Gives x s p) (h : ∀ code as, p code as → q code as) : Gives x s q := by
  apply Returns.mono hx
  rintro code s' ⟨as, hruns, hp⟩
  exact ⟨as, hruns, h code as hp⟩

theorem inside (hx : Gives x s₁ q) (h : Runs s s₁ [item] []) : Inside s x s₁ q := by
  apply Returns.mono hx
  rintro code s₂ ⟨as, hruns, hq⟩
  exact ⟨item, as, h.trans hruns, hq⟩

-- What comes next starts in a state with the same stack.
theorem bind {f : Code → ParserM Code} (hx : Gives x s p)
    (hf : ∀ code as s₁, Runs s s₁ [] as → p code as → Gives (f code) s₁ fun code' bs => q code' (as ++ bs)) :
    Gives (x >>= f) s q := by
  apply Returns.bind hx
  rintro code s₁ ⟨as, hruns, hp⟩
  apply Returns.mono (hf code as s₁ hruns hp)
  rintro code' s₂ ⟨bs, hruns', hq⟩
  exact ⟨as ++ bs, hruns.trans hruns', hq⟩

-- What is announced by none of the two.
theorem orElse (hx : Gives x s q) (hy : ∀ s₁, Runs s s₁ [] [] → Gives y s₁ q) (h : ∀ as, q .unrecognized as → as = []) :
    Gives (Parser.orElse x y) s q := by
  apply Gives.bind hx
  intro code as s₁ hruns hq
  apply Returns.ite
  · intro hcode
    subst hcode
    have has : as = [] := h as hq
    subst has
    exact hy s₁ hruns
  · intro _
    apply Gives.pure
    rwa [List.append_nil]

theorem withParsed {body : Nat → ParserM Code}
    (h : ∀ s₁, Runs s s₁ [{}] [] → Inside s (body s.parsed.length) s₁ q) : Gives (Parser.withParsed body) s q := by
  apply Returns.bind (pushParsed_returns s)
  rintro parsed s₁ ⟨rfl, hruns⟩
  apply Returns.bind (h s₁ hruns)
  rintro code s₂ ⟨item, as, hruns', hq⟩
  apply Returns.bind (popParsed_returns hruns')
  rintro _ s₃ ⟨hruns'', -⟩
  exact Returns.pure ⟨as, hruns'', hq⟩

end Gives

theorem Inside.pure (h : Runs s s₁ [item] as) (hq : q code as) : Inside s (Pure.pure code) s₁ q :=
  Returns.pure ⟨item, as, h, hq⟩

-- What is announced by a function for an item that returns `code`.
inductive Outcome (own : Announcement → Prop) : Code → List Announcement → Prop
  | announced {a : Announcement} (h : own a) : Outcome own .success [a]
  | silent {code : Code} (h : code ≠ .success) : Outcome own code []

variable {own own' : Announcement → Prop}

theorem Outcome.nil (h : Outcome own .unrecognized as) : as = [] := by
  cases h
  rfl

theorem Outcome.mono (h : Outcome own code as) (himp : ∀ a, own a → own' a) : Outcome own' code as := by
  cases h
  case announced a h => exact .announced (himp a h)
  case silent h      => exact .silent h

theorem Outcome.unrecognized : Outcome own .unrecognized [] :=
  .silent (by decide)

theorem Outcome.failure : Outcome own .failure [] :=
  .silent (by decide)

theorem Gives.unrecognized : Gives (Pure.pure .unrecognized) s (Outcome own) :=
  Gives.pure .unrecognized

theorem Gives.failure : Gives (Pure.pure .failure) s (Outcome own) :=
  Gives.pure .failure

theorem Gives.own_mono (hx : Gives x s (Outcome own)) (himp : ∀ a, own a → own' a) : Gives x s (Outcome own') :=
  hx.mono fun _ _ h => h.mono himp

-- Functions of the same kind that have their turn one after the other.
theorem Gives.orElse_item (hx : Gives x s (Outcome own)) (hy : ∀ s₁, Gives y s₁ (Outcome own)) :
    Gives (Parser.orElse x y) s (Outcome own) :=
  hx.orElse (fun s₁ _ => hy s₁) fun _ => Outcome.nil

-- The item is announced, and success returned.
theorem fireParsed_inside (h : Runs s s₁ [item] []) (hnone : item.attrs = none)
    (hown : own (announcement (item.fired :: s.parsed))) :
    Inside s (do fireParsed s.parsed.length; pure .success) s₁ (Outcome own) := by
  apply Returns.bind (fireParsed_returns h hnone)
  intro _ s₂ h₂
  exact Inside.pure h₂ (.announced hown)

end Gives

end Parser
