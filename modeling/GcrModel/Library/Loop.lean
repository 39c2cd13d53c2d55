import Mathlib.Data.Set.Finite.Basic

-- Loops given by their round, which stops with a result or goes on in a new state.
namespace Loop

open Relation

variable {σ ρ κ : Type*} (round : σ → ρ ⊕ σ)

-- At most `fuel` rounds.
@[grind =]
def run : Nat → σ → Option ρ
  | 0,        _ => none
  | fuel + 1, s => (round s).elim some (run fuel)

def Next (s s' : σ) : Prop :=
  round s = .inr s'

def Halts (s : σ) : Prop :=
  ∃ fuel r, run round fuel s = some r

variable {round} {s t u : σ} {r : ρ} {fuel : Nat}

theorem run_of_stop (h : round s = .inl r) : run round (fuel + 1) s = some r := by
  simp [run, h]

theorem run_of_next (h : Next round s t) : run round (fuel + 1) s = run round fuel t := by
  have h' : round s = .inr t := h
  simp [run, h']

-- More rounds do no harm.
theorem run_mono {fuel' : Nat} (hle : fuel ≤ fuel') (h : run round fuel s = some r) : run round fuel' s = some r := by
  induction fuel generalizing s fuel' with
  | zero => simp [run] at h
  | succ fuel ih =>
    obtain ⟨fuel', rfl⟩ : ∃ n, fuel' = n + 1 := ⟨fuel' - 1, by omega⟩
    cases hs : round s with
    | inl r' => rwa [run_of_stop hs] at h ⊢
    | inr t =>
      rw [run_of_next hs] at h ⊢
      exact ih (by omega) h

-- What a loop returns it returns in a round that stops, in a state that the rounds before got to.
theorem run_eq_some_iff :
    (∃ fuel, run round fuel s = some r) ↔ ∃ t, ReflTransGen (Next round) s t ∧ round t = .inl r := by
  constructor
  · rintro ⟨fuel, h⟩
    induction fuel generalizing s
    case zero => simp [run] at h
    case succ fuel ih =>
      cases hs : round s
      case inl r' =>
        rw [run_of_stop hs] at h
        exact ⟨s, .refl, by rw [hs, Option.some.inj h]⟩
      case inr t =>
        rw [run_of_next hs] at h
        obtain ⟨u, htu, hu⟩ := ih h
        exact ⟨u, htu.head hs, hu⟩
  · rintro ⟨t, hst, ht⟩
    induction hst using ReflTransGen.head_induction_on
    case refl => exact ⟨1, run_of_stop ht⟩
    case head s u hsu _ ih =>
      obtain ⟨fuel, h⟩ := ih
      exact ⟨fuel + 1, by rw [run_of_next hsu, h]⟩

-- What holds in the first state and is preserved by every round holds when the loop stops.
theorem invariant {p : σ → Prop} (hp : p s) (hs : ∀ s t, p s → Next round s t → p t)
    (h : run round fuel s = some r) : ∃ t, p t ∧ round t = .inl r := by
  obtain ⟨t, hst, ht⟩ := (run_eq_some_iff).mp ⟨fuel, h⟩
  refine ⟨t, ?_, ht⟩
  clear ht
  induction hst
  case refl => exact hp
  case tail hbc ih => exact hs _ _ ih hbc

theorem halts_iff : Halts round s ↔ ∃ t r, ReflTransGen (Next round) s t ∧ round t = .inl r := by
  constructor
  · rintro ⟨fuel, r, h⟩
    obtain ⟨t, ht⟩ := (run_eq_some_iff).mp ⟨fuel, h⟩
    exact ⟨t, r, ht⟩
  · rintro ⟨t, r, h⟩
    obtain ⟨fuel, h⟩ := (run_eq_some_iff).mpr ⟨t, h⟩
    exact ⟨fuel, r, h⟩

theorem Halts.of_next (h : Next round s t) (ht : Halts round t) : Halts round s := by
  obtain ⟨u, r, htu, hu⟩ := (halts_iff).mp ht
  exact (halts_iff).mpr ⟨u, r, htu.head h, hu⟩

theorem Next.unique (h : Next round s t) (h' : Next round s u) : t = u :=
  Sum.inr.inj (h.symm.trans h')

theorem Halts.next (h : Halts round s) (hst : Next round s t) : Halts round t := by
  obtain ⟨u, r, hsu, hu⟩ := (halts_iff).mp h
  rcases ReflTransGen.cases_head hsu with heq | ⟨v, hsv, hvu⟩
  · have hu' : round u = .inr t := heq ▸ hst
    simp [hu'] at hu
  · exact (halts_iff).mpr ⟨u, r, hst.unique hsv ▸ hvu, hu⟩

theorem Halts.of_reaches (h : Halts round s) (hst : ReflTransGen (Next round) s t) : Halts round t := by
  induction hst
  case refl => exact h
  case tail hbc ih => exact ih.next hbc

theorem reaches_last {u : σ} (hu : ReflTransGen (Next round) s u) (ht : ReflTransGen (Next round) s t)
    (hr : round t = .inl r) : ReflTransGen (Next round) u t := by
  induction hu
  case refl => exact ht
  case tail u v _ huv ih =>
    rcases ReflTransGen.cases_head ih with rfl | ⟨w, huw, hwt⟩
    · have huv' : round u = .inr v := huv
      simp [hr] at huv'
    · exact huv.unique huw ▸ hwt

theorem run_unique {r' : ρ} {fuel' : Nat} (h : run round fuel s = some r) (h' : run round fuel' s = some r') :
    r = r' := by
  obtain ⟨t, hst, ht⟩ := (run_eq_some_iff).mp ⟨fuel, h⟩
  obtain ⟨t', hst', ht'⟩ := (run_eq_some_iff).mp ⟨fuel', h'⟩
  rcases ReflTransGen.cases_head (reaches_last hst hst' ht') with rfl | ⟨w, hw, _⟩
  · exact Sum.inl.inj (ht.symm.trans ht')
  · have hw' : round t = .inr w := hw
    simp [ht] at hw'

-- A loop whose rounds make a measure smaller stops within as many rounds.
theorem run_of_measure (m : σ → Nat) (h : ∀ s t, Next round s t → m t < m s) (s : σ) :
    ∃ r, run round (m s + 1) s = some r := by
  suffices ∀ n s, m s ≤ n → ∃ r, run round (n + 1) s = some r from this _ s (Nat.le_refl _)
  intro n
  induction n
  case zero =>
    intro s hs
    cases hr : round s
    case inl r => exact ⟨r, run_of_stop hr⟩
    case inr t => exact absurd (h s t hr) (by omega)
  case succ n ih =>
    intro s hs
    cases hr : round s
    case inl r => exact ⟨r, run_of_stop hr⟩
    case inr t =>
      rw [run_of_next hr]
      exact ih t (by have := h s t hr; omega)

-- It is enough that they do so in the states of an invariant.
theorem halts_of_measure {p : σ → Prop} (m : σ → Nat) (h : ∀ s t, p s → Next round s t → p t ∧ m t < m s) (hp : p s) :
    Halts round s := by
  induction hm : m s using Nat.strong_induction_on generalizing s
  case _ n ih =>
    cases hs : round s
    case inl r => exact ⟨1, r, run_of_stop hs⟩
    case inr t =>
      obtain ⟨hpt, hlt⟩ := h s t hp hs
      exact Halts.of_next hs (ih (m t) (hm ▸ hlt) hpt rfl)

-- The state after some rounds.
def after (round : σ → ρ ⊕ σ) : Nat → σ → σ
  | 0,     s => s
  | n + 1, s => (round s).elim (fun _ => s) (after round n)

theorem after_succ (h : Next round s t) (n : Nat) : after round (n + 1) s = after round n t := by
  have h' : round s = .inr t := h
  simp [after, h']

theorem next_after (h : ¬Halts round s) (n : Nat) : Next round (after round n s) (after round (n + 1) s) := by
  obtain ⟨t, ht⟩ : ∃ t, Next round s t := by
    cases hs : round s
    case inl r => exact absurd ((halts_iff).mpr ⟨s, r, .refl, hs⟩) h
    case inr t => exact ⟨t, hs⟩
  have ht' : ¬Halts round t := fun ht' => h (ht'.of_next ht)
  induction n generalizing s t
  case zero => rw [after_succ ht]; exact ht
  case succ n ih =>
    obtain ⟨u, hu⟩ : ∃ u, Next round t u := by
      cases hs : round t
      case inl r => exact absurd ((halts_iff).mpr ⟨t, r, .refl, hs⟩) ht'
      case inr u => exact ⟨u, hs⟩
    rw [after_succ ht, after_succ ht]
    exact ih ht' u hu fun hu' => ht' (hu'.of_next hu)

theorem after_reaches (h : ¬Halts round s) (n : Nat) : ReflTransGen (Next round) s (after round n s) := by
  induction n
  case zero      => exact .refl
  case succ n ih => exact ih.tail (next_after h n)

theorem after_trans (h : ¬Halts round s) {m n : Nat} (hmn : m < n) :
    TransGen (Next round) (after round m s) (after round n s) := by
  induction hmn
  case refl      => exact .single (next_after h m)
  case step n ih => exact ih.tail (next_after h _)

-- Where a round does not look at more of the state than the key.
variable (key : σ → κ)

-- The rounds come back to a key.
def Cycle (round : σ → ρ ⊕ σ) (key : σ → κ) (t : σ) : Prop :=
  ∃ u, TransGen (Next round) t u ∧ key u = key t

variable {key}

theorem Cycle.next (hkey : ∀ s s' t, key s = key s' → Next round s t → ∃ t', Next round s' t' ∧ key t' = key t)
    (h : Cycle round key s) : ∃ t, Next round s t ∧ Cycle round key t := by
  obtain ⟨u, hsu, hk⟩ := h
  obtain ⟨t, hst, htu⟩ := (TransGen.head'_iff).mp hsu
  obtain ⟨t', hut, hk'⟩ := hkey s u t hk.symm hst
  exact ⟨t, hst, t', .tail' htu hut, hk'⟩

theorem Cycle.not_halts
    (hkey : ∀ s s' t, key s = key s' → Next round s t → ∃ t', Next round s' t' ∧ key t' = key t)
    (h : Cycle round key s) : ¬Halts round s := by
  rw [halts_iff]
  rintro ⟨t, r, hst, ht⟩
  induction hst using ReflTransGen.head_induction_on
  case refl =>
    obtain ⟨u, hu, _⟩ := h.next hkey
    have hu' : round t = .inr u := hu
    simp [hu'] at ht
  case head s u hsu _ ih =>
    obtain ⟨u', hsu', hc⟩ := h.next hkey
    exact ih (hsu.unique hsu' ▸ hc)

-- A loop with finitely many keys stops if and only if it does not get to a cycle.
theorem halts_iff_of_finite
    (hkey : ∀ s s' t, key s = key s' → Next round s t → ∃ t', Next round s' t' ∧ key t' = key t)
    (hfin : (key '' {t | ReflTransGen (Next round) s t}).Finite) :
    Halts round s ↔ ¬∃ t, ReflTransGen (Next round) s t ∧ Cycle round key t := by
  constructor
  · rintro h ⟨t, hst, hc⟩
    exact hc.not_halts hkey (h.of_reaches hst)
  · intro h
    by_contra hn
    have hmaps : Set.MapsTo (fun n => key (after round n s)) Set.univ
        (key '' {t | ReflTransGen (Next round) s t}) :=
      fun n _ => ⟨_, after_reaches hn n, rfl⟩
    obtain ⟨m, _, n, _, hne, heq⟩ := Set.infinite_univ.exists_ne_map_eq_of_mapsTo hmaps hfin
    rcases Nat.lt_or_gt_of_ne hne with hlt | hlt
    · exact h ⟨_, after_reaches hn m, _, after_trans hn hlt, heq.symm⟩
    · exact h ⟨_, after_reaches hn n, _, after_trans hn hlt, heq⟩

end Loop
