import Mathlib.Tactic.Common

-- Programs that read on in a state. They may give up, which keeps the state reached, and they must not
-- make an error.
def Scan (ε σ α : Type*) := σ → Except ε (Option α × σ)

namespace Scan

universe u

variable {ε σ : Type*} {α β : Type u}

def pure (a : α) : Scan ε σ α :=
  fun s => .ok (some a, s)

def bind (x : Scan ε σ α) (f : α → Scan ε σ β) : Scan ε σ β := fun s =>
  match x s with
  | .error e         => .error e
  | .ok (none, s')   => .ok (none, s')
  | .ok (some a, s') => f a s'

instance : Monad (Scan ε σ) where
  pure := Scan.pure
  bind := Scan.bind

def fail : Scan ε σ α :=
  fun s => .ok (none, s)

def get : Scan ε σ σ :=
  fun s => .ok (some s, s)

def modify (f : σ → σ) : Scan ε σ Unit :=
  fun s => .ok (some (), f s)

-- A computation that leaves the state alone and cannot give up.
def lift (x : Except ε α) : Scan ε σ α := fun s =>
  match x with
  | .error e => .error e
  | .ok a    => .ok (some a, s)

theorem ok_bind (a : α) (f : α → Except ε β) : (.ok a >>= f : Except ε β) = f a :=
  rfl

theorem map_bind (x : Except ε α) (f : α → Except ε β) (g : β → γ) : (x >>= f).map g = x >>= fun a => (f a).map g := by
  cases x
  all_goals rfl

theorem bind_eq_ok {x : Except ε α} {f : α → Except ε β} {b : β} :
    x >>= f = .ok b ↔ ∃ a, x = .ok a ∧ f a = .ok b := by
  cases x with
  | error e => exact ⟨fun h => (by cases h), by rintro ⟨_, ⟨⟩, _⟩⟩
  | ok a    => exact ⟨fun h => ⟨a, rfl, h⟩, by rintro ⟨_, ⟨⟩, h⟩; exact h⟩

-- The same result, unless it is this error.
def Extends (e : ε) (x y : Except ε α) : Prop :=
  x = .error e ∨ y = x

namespace Extends

variable {e : ε} {x y : Except ε α}

theorem refl (x : Except ε α) : Extends e x x :=
  .inr rfl

theorem bind {f g : α → Except ε β} (h : Extends e x y) (hfg : ∀ a, x = .ok a → Extends e (f a) (g a)) :
    Extends e (x >>= f) (y >>= g) := by
  obtain rfl | rfl := h
  · exact .inl rfl
  · cases hy : y
    case error e' => exact .inr rfl
    case ok a     => exact hfg a hy

end Extends

-- There is no error and the result is one of `p`.
def Gives (x : Except ε α) (p : α → Prop) : Prop :=
  ∃ a, x = .ok a ∧ p a

namespace Gives

variable {x : Except ε α} {f : α → Except ε β} {p p' : α → Prop} {q : β → Prop}

theorem pure {a : α} (h : p a) : Gives (Pure.pure a : Except ε α) p :=
  ⟨a, rfl, h⟩

theorem bind (hx : Gives x p) (hf : ∀ a, p a → Gives (f a) q) : Gives (x >>= f) q := by
  obtain ⟨a, rfl, ha⟩ := hx
  exact hf a ha

theorem mono (hx : Gives x p) (h : ∀ a, p a → p' a) : Gives x p' := by
  obtain ⟨a, hx, ha⟩ := hx
  exact ⟨a, hx, h a ha⟩

theorem ite {c : Prop} [Decidable c] {y : Except ε α} (h : c → Gives x p) (h' : ¬c → Gives y p) :
    Gives (if c then x else y) p := by
  split
  case isTrue hc  => exact h hc
  case isFalse hc => exact h' hc

theorem foldlM {l : List α} {f : β → α → Except ε β} (h : ∀ a ∈ l, ∀ b, q b → Gives (f b a) q) {b : β} (hb : q b) :
    Gives (l.foldlM f b) q := by
  induction l generalizing b with
  | nil => exact pure hb
  | cons a l ih =>
    rw [List.foldlM_cons]
    apply bind (h a List.mem_cons_self b hb)
    intro b' hb'
    exact ih (fun a ha => h a (List.mem_cons_of_mem _ ha)) hb'

theorem mapM {l : List α} (h : ∀ a ∈ l, Gives (f a) q) : Gives (l.mapM f) fun l' => ∀ b ∈ l', q b := by
  induction l with
  | nil => exact pure (by simp)
  | cons a l ih =>
    rw [List.mapM_cons]
    apply bind (h a List.mem_cons_self)
    intro b hb
    apply bind (ih fun a ha => h a (List.mem_cons_of_mem _ ha))
    intro l' hl'
    exact pure (List.forall_mem_cons.mpr ⟨hb, hl'⟩)

end Gives

-- There is an error unless `c` holds.
structure Exactly (c : Prop) (x : Except ε α) (p : α → Prop) : Prop where
  gives : c → Gives x p
  error : ¬c → ∃ e, x = .error e

namespace Exactly

variable {x : Except ε α} {f : α → Except ε β} {c d : Prop} {p p' : α → Prop} {q : β → Prop}

theorem of_gives (h : Gives x p) : Exactly True x p :=
  ⟨fun _ => h, fun h' => absurd trivial h'⟩

theorem ok_iff (h : Exactly c x p) : (∃ a, x = .ok a) ↔ c := by
  constructor
  case mp =>
    rintro ⟨a, ha⟩
    apply Classical.byContradiction
    intro hc
    obtain ⟨e, he⟩ := h.error hc
    cases ha.symm.trans he
  case mpr =>
    intro hc
    obtain ⟨a, ha, _⟩ := h.gives hc
    exact ⟨a, ha⟩

theorem congr (h : Exactly c x p) (hcd : d ↔ c) : Exactly d x p :=
  ⟨fun hd => h.gives (hcd.mp hd), fun hd => h.error fun hc => hd (hcd.mpr hc)⟩

theorem mono (h : Exactly c x p) (hp : ∀ a, p a → p' a) : Exactly c x p' :=
  ⟨fun hc => (h.gives hc).mono hp, h.error⟩

theorem bind (hx : Exactly c x p) (hf : ∀ a, p a → Exactly d (f a) q) : Exactly (c ∧ d) (x >>= f) q where
  gives := fun hcd => (hx.gives hcd.1).bind fun a ha => (hf a ha).gives hcd.2
  error := by
    intro hcd
    by_cases hc : c
    case pos =>
      obtain ⟨a, rfl, ha⟩ := hx.gives hc
      exact (hf a ha).error fun hd => hcd ⟨hc, hd⟩
    case neg =>
      obtain ⟨e, rfl⟩ := hx.error hc
      exact ⟨e, rfl⟩

end Exactly

-- From the states of `P` there is no error, a result is one of `Q`, and giving up leaves a state of `R`.
def Meets (P : σ → Prop) (x : Scan ε σ α) (Q : α → σ → Prop) (R : σ → Prop) : Prop :=
  ∀ s, P s →
    match x s with
    | .error _         => False
    | .ok (none, s')   => R s'
    | .ok (some a, s') => Q a s'

variable {P P' : σ → Prop} {Q Q' : α → σ → Prop} {T : β → σ → Prop} {R R' : σ → Prop} {x : Scan ε σ α}
  {f : α → Scan ε σ β} {s : σ}

theorem Meets.pure {a : α} (h : ∀ s, P s → Q a s) : Meets P (Pure.pure a : Scan ε σ α) Q R :=
  fun s hs => h s hs

theorem Meets.bind (hx : Meets P x Q R) (hf : ∀ a, Meets (Q a) (f a) T R) : Meets P (x >>= f) T R := by
  intro s hs
  have hx := hx s hs
  change match Scan.bind x f s with
    | .error _         => False
    | .ok (none, s')   => R s'
    | .ok (some a, s') => T a s'
  unfold Scan.bind
  cases h : x s with
  | error e => simp only [h] at hx
  | ok r =>
    obtain ⟨_ | a, s'⟩ := r
    · simpa only [h] using hx
    · simp only [h] at hx
      exact hf a s' hx

theorem Meets.fail (h : ∀ s, P s → R s) : Meets P (Scan.fail : Scan ε σ α) Q R :=
  fun s hs => h s hs

theorem Meets.modify {g : σ → σ} {Q : Unit → σ → Prop} (h : ∀ s, P s → Q () (g s)) :
    Meets P (Scan.modify g : Scan ε σ Unit) Q R :=
  fun s hs => h s hs

theorem Meets.lift {y : Except ε α} {p : α → Prop} (hy : Gives y p) (h : ∀ a, p a → ∀ s, P s → Q a s) :
    Meets P (Scan.lift y : Scan ε σ α) Q R := by
  obtain ⟨a, rfl, ha⟩ := hy
  exact h a ha

theorem Meets.lift_bind {y : Except ε α} {p : α → Prop} (hy : Gives y p) (hf : ∀ a, p a → Meets P (f a) T R) :
    Meets P (Scan.lift y >>= f) T R := by
  obtain ⟨a, rfl, ha⟩ := hy
  exact hf a ha

theorem Meets.mono (h : Meets P x Q R) (hP : ∀ s, P' s → P s) (hQ : ∀ a s, Q a s → Q' a s) (hR : ∀ s, R s → R' s) :
    Meets P' x Q' R' := by
  intro s hs
  have h := h s (hP s hs)
  cases hx : x s with
  | error e => simp only [hx] at h
  | ok r =>
    obtain ⟨_ | a, s'⟩ := r
    · simp only [hx] at h
      exact hR s' h
    · simp only [hx] at h
      exact hQ a s' h

theorem Meets.pre (h : Meets P x Q R) (hP : ∀ s, P' s → P s) : Meets P' x Q R :=
  h.mono hP (fun _ _ => id) fun _ => id

theorem Meets.post (h : Meets P x Q R) (hQ : ∀ a s, Q a s → Q' a s) : Meets P x Q' R :=
  h.mono (fun _ => id) hQ fun _ => id

-- The states can be looked at one by one.
theorem Meets.pointwise (h : ∀ s, P s → Meets (fun s' => s' = s) x Q R) : Meets P x Q R :=
  fun s hs => h s hs s rfl

-- What the states of `P` have in common can be used.
theorem Meets.assume {c : Prop} (hc : ∀ s, P s → c) (h : c → Meets P x Q R) : Meets P x Q R :=
  fun s hs => h (hc s hs) s hs

theorem Meets.ite {c : Prop} [Decidable c] {y : Scan ε σ α} (h : c → Meets P x Q R) (h' : ¬c → Meets P y Q R) :
    Meets P (if c then x else y) Q R := by
  split
  case isTrue hc  => exact h hc
  case isFalse hc => exact h' hc

theorem bind_some {a : α} {s' : σ} (h : x s = .ok (some a, s')) : (x >>= f) s = f a s' := by
  change Scan.bind x f s = f a s'
  simp only [Scan.bind, h]

theorem bind_none {s' : σ} (h : x s = .ok (none, s')) : (x >>= f) s = .ok (none, s') := by
  change Scan.bind x f s = .ok (none, s')
  simp only [Scan.bind, h]

theorem bind_error {e : ε} (h : x s = .error e) : (x >>= f) s = .error e := by
  change Scan.bind x f s = .error e
  simp only [Scan.bind, h]

theorem bind_eq_some {b : β} {s' : σ} (h : (x >>= f) s = .ok (some b, s')) :
    ∃ a t, x s = .ok (some a, t) ∧ f a t = .ok (some b, s') := by
  cases hx : x s with
  | error e =>
    rw [bind_error hx] at h
    cases h
  | ok r =>
    obtain ⟨_ | a, t⟩ := r
    · rw [bind_none hx] at h
      cases h
    · rw [bind_some hx] at h
      exact ⟨a, t, rfl, h⟩

theorem lift_ok {y : Except ε α} {a : α} (h : y = .ok a) : Scan.lift y s = .ok (some a, s) := by
  simp only [Scan.lift, h]

theorem lift_error {y : Except ε α} {e : ε} (h : y = .error e) : Scan.lift y s = .error e := by
  simp only [Scan.lift, h]

-- The computation does what `f` does with a text of its own, where `B` says how that belongs to the state.
def Refines {τ : Type u} (B : τ → σ → Prop) (R : σ → Prop) (x : Scan ε σ α) (f : StateT τ Option α) : Prop :=
  ∀ t, Meets (B t) x (fun a s => ∃ t', f.run t = some (a, t') ∧ B t' s) (fun s => f.run t = none ∧ R s)

namespace Refines

variable {τ : Type u} {B : τ → σ → Prop} {g : StateT τ Option α} {h : α → StateT τ Option β}

theorem pure (a : α) : Refines B R (Pure.pure a : Scan ε σ α) (Pure.pure a) :=
  fun t => Meets.pure fun _ hs => ⟨t, rfl, hs⟩

theorem fail (hR : ∀ t s, B t s → R s) : Refines B R (Scan.fail : Scan ε σ α) failure :=
  fun t => Meets.fail fun s hs => ⟨rfl, hR t s hs⟩

theorem bind (hx : Refines B R x g) (hf : ∀ a, Refines B R (f a) (h a)) : Refines B R (x >>= f) (g >>= h) := by
  intro t
  have hx' : Meets (B t) x (fun a s => ∃ t', g.run t = some (a, t') ∧ B t' s)
      fun s => (g >>= h).run t = none ∧ R s := by
    apply (hx t).mono (fun _ => id) (fun _ _ => id)
    rintro s ⟨hnone, hs⟩
    exact ⟨by simp [hnone], hs⟩
  apply Meets.bind hx'
  intro a
  apply Meets.pointwise
  rintro s ⟨t', hsome, hs⟩
  have hrun : (g >>= h).run t = (h a).run t' := by simp [hsome]
  rw [hrun]
  exact (hf a t').pre fun s' hs' => hs' ▸ hs

theorem ite {c : Prop} [Decidable c] {y : Scan ε σ α} {g' : StateT τ Option α} (hx : c → Refines B R x g)
    (hy : ¬c → Refines B R y g') : Refines B R (if c then x else y) (if c then g else g') := by
  split
  case isTrue hc  => exact hx hc
  case isFalse hc => exact hy hc

end Refines

theorem Meets.gives (h : Meets P x Q R) (hs : P s) :
    Gives (x s) fun r => (∀ a, r.1 = some a → Q a r.2) ∧ (r.1 = none → R r.2) := by
  have h := h s hs
  cases hx : x s with
  | error e => simp only [hx] at h
  | ok r =>
    obtain ⟨_ | a, s'⟩ := r
    · simp only [hx] at h
      exact ⟨_, rfl, by simp, fun _ => h⟩
    · simp only [hx] at h
      exact ⟨_, rfl, by simpa using h, by simp⟩

theorem Refines.run_none {τ : Type u} {B : τ → σ → Prop} {g : StateT τ Option α} {t : τ} (hx : Refines B R x g)
    (hs : B t s) (hrun : g.run t = none) : Gives (x s) fun r => r.1 = none ∧ R r.2 := by
  apply ((hx t).gives hs).mono
  rintro ⟨_ | a, s'⟩ ⟨hsome, hnone⟩
  · exact ⟨rfl, (hnone rfl).2⟩
  · obtain ⟨t', hrun', _⟩ := hsome a rfl
    cases hrun.symm.trans hrun'

theorem Refines.run_some {τ : Type u} {B : τ → σ → Prop} {g : StateT τ Option α} {t t' : τ} {a : α}
    (hx : Refines B R x g) (hs : B t s) (hrun : g.run t = some (a, t')) :
    ∃ s', x s = .ok (some a, s') ∧ B t' s' := by
  obtain ⟨⟨o, s'⟩, hok, hsome, hnone⟩ := (hx t).gives hs
  cases o with
  | none => cases hrun.symm.trans (hnone rfl).1
  | some a' =>
    obtain ⟨t'', hrun', hs'⟩ := hsome a' rfl
    cases hrun.symm.trans hrun'
    exact ⟨s', hok, hs'⟩

namespace Exactly

variable {c d : Prop} {p : α → Prop} {q : Option β × σ → Prop}

theorem scan_bind {p : α → σ → Prop} (hx : Exactly c (x s) fun r => ∃ a, r.1 = some a ∧ p a r.2)
    (hf : c → ∀ a s', p a s' → Exactly d (f a s') q) : Exactly (c ∧ d) ((x >>= f) s) q where
  gives := by
    rintro ⟨hc, hd⟩
    obtain ⟨⟨o, s'⟩, hok, a, ho, ha⟩ := hx.gives hc
    cases ho
    rw [bind_some hok]
    exact (hf hc a s' ha).gives hd
  error := by
    intro hcd
    by_cases hc : c
    case pos =>
      obtain ⟨⟨o, s'⟩, hok, a, ho, ha⟩ := hx.gives hc
      cases ho
      rw [bind_some hok]
      exact (hf hc a s' ha).error fun hd => hcd ⟨hc, hd⟩
    case neg =>
      obtain ⟨e, he⟩ := hx.error hc
      exact ⟨e, bind_error he⟩

-- Giving up is fine, and what follows cannot fail.
theorem scan_bind_gives {p : σ → Prop} (hx : Exactly c (x s) fun r => p r.2) (hf : ∀ a s', p s' → Gives (f a s') q)
    (hnone : ∀ s', p s' → q (none, s')) : Exactly c ((x >>= f) s) q where
  gives := by
    intro hc
    obtain ⟨⟨_ | a, s'⟩, hok, hs'⟩ := hx.gives hc
    · exact ⟨_, bind_none hok, hnone s' hs'⟩
    · rw [bind_some hok]
      exact hf a s' hs'
  error := by
    intro hc
    obtain ⟨e, he⟩ := hx.error hc
    exact ⟨e, bind_error he⟩

theorem lift {y : Except ε α} {p : α → Prop} (hy : Exactly c y p) :
    Exactly c ((Scan.lift y : Scan ε σ α) s) fun r => ∃ a, r.1 = some a ∧ p a ∧ r.2 = s where
  gives := by
    intro hc
    obtain ⟨a, ha, hp⟩ := hy.gives hc
    exact ⟨_, lift_ok ha, a, rfl, hp, rfl⟩
  error := by
    intro hc
    obtain ⟨e, he⟩ := hy.error hc
    exact ⟨e, lift_error he⟩

theorem lift_bind {y : Except ε α} {p : α → Prop} (hy : Exactly c y p) (hf : ∀ a, p a → Exactly d (f a s) q) :
    Exactly (c ∧ d) ((Scan.lift y >>= f) s) q := by
  apply scan_bind (p := fun a s' => p a ∧ s' = s) hy.lift
  rintro _ a _ ⟨ha, rfl⟩
  exact hf a ha

theorem of_meets (h : Meets P x Q R) (hs : P s) :
    Exactly True (x s) fun r => (∀ a, r.1 = some a → Q a r.2) ∧ (r.1 = none → R r.2) :=
  of_gives (h.gives hs)

end Exactly

-- A run without an error does what `g` does with a text of its own. It gives up in a state of `R`, and `E` says how a
-- result and what is left of the text belong to the state that is reached.
def Follows {τ γ : Type u} (B : τ → σ → Prop) (E : α → γ → τ → σ → Prop) (R : σ → Prop) (x : Scan ε σ α)
    (g : StateT τ Option γ) : Prop :=
  ∀ t s r, B t s → x s = .ok r →
    match r with
    | (none, s')   => g.run t = none ∧ R s'
    | (some a, s') => ∃ c t', g.run t = some (c, t') ∧ E a c t' s'

namespace Follows

variable {τ γ δ : Type u} {B B' : τ → σ → Prop} {E E' : α → γ → τ → σ → Prop} {F : β → δ → τ → σ → Prop}
  {g g' : StateT τ Option γ} {k : γ → StateT τ Option δ}

theorem pure {a : α} {c : γ} (h : ∀ t s, B t s → E a c t s) :
    Follows B E R (Pure.pure a : Scan ε σ α) (Pure.pure c) := by
  rintro t s _ hs ⟨⟩
  exact ⟨c, t, rfl, h t s hs⟩

theorem fail (h : ∀ t s, B t s → R s) : Follows B E R (Scan.fail : Scan ε σ α) failure := by
  rintro t s _ hs ⟨⟩
  exact ⟨rfl, h t s hs⟩

theorem bind (hx : Follows B E R x g) (hf : ∀ a c, Follows (E a c) F R (f a) (k c)) :
    Follows B F R (x >>= f) (g >>= k) := by
  intro t s r hs hr
  cases h : x s with
  | error e =>
    rw [bind_error h] at hr
    cases hr
  | ok r' =>
    obtain ⟨_ | a, s'⟩ := r'
    · obtain ⟨hnone, hs'⟩ := hx t s _ hs h
      rw [bind_none h] at hr
      cases hr
      exact ⟨by simp [hnone], hs'⟩
    · obtain ⟨c, t', hsome, hs'⟩ := hx t s _ hs h
      rw [bind_some h] at hr
      have hrun : (g >>= k).run t = (k c).run t' := by simp [hsome]
      rw [hrun]
      exact hf a c t' s' r hs' hr

theorem mono (h : Follows B E R x g) (hB : ∀ t s, B' t s → B t s) (hE : ∀ a c t s, E a c t s → E' a c t s) :
    Follows B' E' R x g := by
  rintro t s ⟨_ | a, s'⟩ hs hr
  · exact h t s _ (hB t s hs) hr
  · obtain ⟨c, t', hsome, hs'⟩ := h t s _ (hB t s hs) hr
    exact ⟨c, t', hsome, hE a c t' s' hs'⟩

theorem of_refines {g : StateT τ Option α} (h : Refines B R x g) :
    Follows B (fun a c t s => a = c ∧ B t s) R x g := by
  rintro t s ⟨_ | a, s'⟩ hs hr
  · have h := h t s hs
    rw [hr] at h
    exact h
  · have h := h t s hs
    rw [hr] at h
    obtain ⟨t', hsome, hs'⟩ := h
    exact ⟨a, t', hsome, rfl, hs'⟩

theorem map {F : α → δ → τ → σ → Prop} {φ : γ → δ} (h : Follows B E R x g) (hF : ∀ a c t s, E a c t s → F a (φ c) t s) :
    Follows B F R x (φ <$> g) := by
  rintro t s ⟨_ | a, s'⟩ hs hr
  · obtain ⟨hnone, hs'⟩ := h t s _ hs hr
    exact ⟨by simp [hnone], hs'⟩
  · obtain ⟨c, t', hsome, hs'⟩ := h t s _ hs hr
    exact ⟨φ c, t', by simp [hsome], hF a c t' s' hs'⟩

-- What the states and the texts of `B` have in common can be used.
theorem assume {c : Prop} (hc : ∀ t s, B t s → c) (h : c → Follows B E R x g) : Follows B E R x g :=
  fun t s r hs hr => h (hc t s hs) t s r hs hr

-- What is read first is the same for both.
theorem read {g : StateT τ Option α} {k : α → StateT τ Option δ} (hx : Refines B R x g)
    (hf : ∀ a, Follows B F R (f a) (k a)) : Follows B F R (x >>= f) (g >>= k) := by
  apply bind (of_refines hx)
  rintro a c t s r ⟨rfl, hs⟩ hr
  exact hf a t s r hs hr

theorem ite {c : Prop} [Decidable c] {y : Scan ε σ α} (hx : c → Follows B E R x g) (hy : ¬c → Follows B E R y g') :
    Follows B E R (if c then x else y) (if c then g else g') := by
  split
  case isTrue hc  => exact hx hc
  case isFalse hc => exact hy hc

-- What comes behind reads nothing more.
theorem andThen {F : β → γ → τ → σ → Prop} (hx : Follows B E R x g)
    (hf : ∀ a c, Follows (E a c) F R (f a) (Pure.pure c)) : Follows B F R (x >>= f) g := by
  have h : Follows B F R (x >>= f) (g >>= Pure.pure) := bind hx hf
  rwa [bind_pure] at h

theorem lift_bind {y : Except ε α} {g : StateT τ Option δ} (hf : ∀ a, y = .ok a → Follows B F R (f a) g) :
    Follows B F R (Scan.lift y >>= f) g := by
  intro t s r hs hr
  cases hy : y with
  | error e =>
    rw [bind_error (lift_error hy)] at hr
    cases hr
  | ok a =>
    rw [bind_some (lift_ok hy)] at hr
    exact hf a hy t s r hs hr

end Follows

-- From states that `P` couples, two runs without an error give the same and end in states that are coupled again:
-- by `Q` with a result, by `K` after giving up.
def Coupled (P : σ → σ → Prop) (x : Scan ε σ α) (Q : α → σ → σ → Prop) (K : σ → σ → Prop) : Prop :=
  ∀ s s' o o' t t', P s s' → x s = .ok (o, t) → x s' = .ok (o', t') →
    o = o' ∧ (∀ a, o = some a → Q a t t') ∧ (o = none → K t t')

namespace Coupled

variable {P P' : σ → σ → Prop} {Q Q' : α → σ → σ → Prop} {T : β → σ → σ → Prop} {K K' : σ → σ → Prop}

theorem mono (h : Coupled P x Q K) (hP : ∀ s s', P' s s' → P s s') (hQ : ∀ a s s', Q a s s' → Q' a s s')
    (hK : ∀ s s', K s s' → K' s s') : Coupled P' x Q' K' := by
  intro s s' o o' t t' hs hx hx'
  obtain ⟨ho, hsome, hnone⟩ := h s s' o o' t t' (hP s s' hs) hx hx'
  exact ⟨ho, fun a ha => hQ a t t' (hsome a ha), fun ha => hK t t' (hnone ha)⟩

theorem pure {a : α} (h : ∀ s s', P s s' → Q a s s') : Coupled P (Pure.pure a : Scan ε σ α) Q K := by
  rintro s s' o o' t t' hs ⟨⟩ ⟨⟩
  refine ⟨rfl, ?_, fun h => absurd h (Option.some_ne_none a)⟩
  rintro _ ⟨⟩
  exact h s s' hs

theorem fail (h : ∀ s s', P s s' → K s s') : Coupled P (Scan.fail : Scan ε σ α) Q K := by
  rintro s s' o o' t t' hs ⟨⟩ ⟨⟩
  exact ⟨rfl, fun a ha => absurd ha (Option.some_ne_none a).symm, fun _ => h s s' hs⟩

theorem modify {g : σ → σ} {Q : Unit → σ → σ → Prop} (h : ∀ s s', P s s' → Q () (g s) (g s')) :
    Coupled P (Scan.modify g : Scan ε σ Unit) Q K := by
  rintro s s' o o' t t' hs ⟨⟩ ⟨⟩
  exact ⟨rfl, fun _ _ => h s s' hs, fun h => absurd h (Option.some_ne_none ())⟩

theorem lift {y : Except ε α} (h : ∀ a s s', y = .ok a → P s s' → Q a s s') :
    Coupled P (Scan.lift y : Scan ε σ α) Q K := by
  intro s s' o o' t t' hs hx hx'
  cases y with
  | error e => cases hx
  | ok a =>
    cases hx
    cases hx'
    refine ⟨rfl, ?_, fun h => absurd h (Option.some_ne_none a)⟩
    rintro _ ⟨⟩
    exact h a s s' rfl hs

theorem bind (hx : Coupled P x Q K) (hf : ∀ a, Coupled (Q a) (f a) T K) : Coupled P (x >>= f) T K := by
  intro s s' o o' t t' hs hxf hxf'
  cases h : x s with
  | error e => cases (bind_error h).symm.trans hxf
  | ok r =>
    cases h' : x s' with
    | error e => cases (bind_error h').symm.trans hxf'
    | ok r' =>
      obtain ⟨p, u⟩ := r
      obtain ⟨p', u'⟩ := r'
      obtain ⟨rfl, hsome, hnone⟩ := hx s s' p p' u u' hs h h'
      cases p with
      | none =>
        cases (bind_none h).symm.trans hxf
        cases (bind_none h').symm.trans hxf'
        exact ⟨rfl, fun b hb => absurd hb (Option.some_ne_none b).symm, fun _ => hnone rfl⟩
      | some a =>
        rw [bind_some h] at hxf
        rw [bind_some h'] at hxf'
        exact hf a u u' o o' t t' (hsome a rfl) hxf hxf'

theorem ite {c : Prop} [Decidable c] {y : Scan ε σ α} (h : c → Coupled P x Q K) (h' : ¬c → Coupled P y Q K) :
    Coupled P (if c then x else y) Q K := by
  split
  case isTrue hc  => exact h hc
  case isFalse hc => exact h' hc

-- What the states of `P` have in common can be used.
theorem assume {c : Prop} (hc : ∀ s s', P s s' → c) (h : c → Coupled P x Q K) : Coupled P x Q K :=
  fun s s' o o' t t' hs => h (hc s s' hs) s s' o o' t t' hs

theorem lift_bind {y : Except ε α} (h : ∀ a, y = .ok a → Coupled P (f a) T K) : Coupled P (Scan.lift y >>= f) T K := by
  apply bind (Q := fun a s s' => y = .ok a ∧ P s s') (lift fun _ _ _ ha hs => ⟨ha, hs⟩)
  intro a
  apply assume fun _ _ => And.left
  exact fun ha => (h a ha).mono (fun _ _ => And.right) (fun _ _ _ => id) fun _ _ => id

end Coupled

end Scan

-- Computations with a state that can fail, and what they return when they do not.
-- From the state there is no error, and the result and the state behind it are of `q`.
def Returns.{u, v} {ε : Type v} {σ α : Type u} (x : StateT σ (Except ε) α) (s : σ) (q : α → σ → Prop) : Prop :=
  ∃ a s', x s = .ok (a, s') ∧ q a s'

namespace Returns

universe u v

variable {ε : Type v} {σ α β : Type u} {x y : StateT σ (Except ε) α} {f : α → StateT σ (Except ε) β} {s s' : σ} {a : α}
  {p q : α → σ → Prop} {r : β → σ → Prop}

theorem of_ok {t : σ} (h : x s = .ok (a, t)) (hq : q a t) : Returns x s q :=
  ⟨a, t, h, hq⟩

theorem pure (h : q a s) : Returns (Pure.pure a : StateT σ (Except ε) α) s q :=
  ⟨a, s, rfl, h⟩

theorem get {q : σ → σ → Prop} (h : q s s) : Returns (MonadState.get : StateT σ (Except ε) σ) s q :=
  ⟨s, s, rfl, h⟩

theorem bind_ok (h : x s = .ok (a, s')) : (x >>= f) s = f a s' := by
  change StateT.bind x f s = f a s'
  simp only [StateT.bind, h]
  rfl

theorem bind_error {e : ε} (h : x s = .error e) : (x >>= f) s = .error e := by
  change StateT.bind x f s = .error e
  simp only [StateT.bind, h]
  rfl

theorem bind (hx : Returns x s p) (hf : ∀ a s', p a s' → Returns (f a) s' r) : Returns (x >>= f) s r := by
  obtain ⟨a, s', hx, hp⟩ := hx
  obtain ⟨b, s'', hfa, hr⟩ := hf a s' hp
  exact ⟨b, s'', (bind_ok hx).trans hfa, hr⟩

theorem mono (hx : Returns x s p) (h : ∀ a s', p a s' → q a s') : Returns x s q := by
  obtain ⟨a, s', hx, hp⟩ := hx
  exact ⟨a, s', hx, h a s' hp⟩

theorem ite {c : Prop} [Decidable c] (h : c → Returns x s q) (h' : ¬c → Returns y s q) :
    Returns (if c then x else y) s q := by
  split
  case isTrue hc  => exact h hc
  case isFalse hc => exact h' hc

-- There is just one result.
theorem elim (hx : Returns x s q) (h : x s = .ok (a, s')) : q a s' := by
  obtain ⟨b, t, hx, hq⟩ := hx
  cases hx.symm.trans h
  exact hq

theorem and (hp : Returns x s p) (hq : Returns x s q) : Returns x s fun a s' => p a s' ∧ q a s' := by
  obtain ⟨a, s', hx, hp⟩ := hp
  exact ⟨a, s', hx, hp, hq.elim hx⟩

end Returns
