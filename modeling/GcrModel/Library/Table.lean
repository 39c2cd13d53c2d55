import Mathlib.Data.List.Nodup

-- Tables as partial functions: what is in one after an entry was put in or taken out.
abbrev Table (α β : Type*) := α → Option β

namespace Table

section Entries

variable {α β : Type*} [DecidableEq α] {t : Table α β} {a x : α} {b y : β}

theorem erase_eq_some : Function.update t a none x = some y ↔ x ≠ a ∧ t x = some y := by
  rw [Function.update_apply]
  split
  case isTrue h  => simp [h]
  case isFalse h => simp [h]

theorem insert_eq_some : Function.update t a (some b) x = some y ↔ x = a ∧ b = y ∨ x ≠ a ∧ t x = some y := by
  rw [Function.update_apply]
  split
  case isTrue h  => simp [h]
  case isFalse h => simp [h]

theorem erase_eq_none : Function.update t a none x = none ↔ x = a ∨ t x = none := by
  rw [Function.update_apply]
  split
  case isTrue h  => simp [h]
  case isFalse h => simp [h]

theorem insert_eq_none : Function.update t a (some b) x = none ↔ x ≠ a ∧ t x = none := by
  rw [Function.update_apply]
  split
  case isTrue h  => simp [h]
  case isFalse h => simp [h]

end Entries

section Loops

-- Loops over distinct keys whose steps each change what is at their own key only.
variable {σ α κ β : Type*} (view : σ → κ → β) (key : α → κ) {φ : α → β → β} {l : List α}

theorem foldlM_view {f : σ → α → Option σ} {p : α → β → Prop}
    (h : ∀ s a, p a (view s (key a)) →
      ∃ s', f s a = some s' ∧ view s' (key a) = φ a (view s (key a)) ∧ ∀ b, b ≠ key a → view s' b = view s b)
    (hn : (l.map key).Nodup) {s : σ} (hp : ∀ a ∈ l, p a (view s (key a))) :
    ∃ s', l.foldlM f s = some s' ∧ (∀ a ∈ l, view s' (key a) = φ a (view s (key a))) ∧
      ∀ b, b ∉ l.map key → view s' b = view s b := by
  induction l generalizing s
  case nil => exact ⟨s, rfl, by simp, by simp⟩
  case cons a l ih =>
    obtain ⟨hp, hps⟩ := List.forall_mem_cons.mp hp
    obtain ⟨ha, hn⟩ := List.nodup_cons.mp hn
    obtain ⟨s₁, hs₁, hself, hother⟩ := h s a hp
    have hne : ∀ a' ∈ l, key a' ≠ key a := fun a' ha' heq => ha (heq ▸ List.mem_map_of_mem ha')
    obtain ⟨s₂, hs₂, hl, hout⟩ := ih hn (s := s₁) fun a' ha' => (hother _ (hne a' ha')).symm ▸ hps a' ha'
    refine ⟨s₂, ?_, List.forall_mem_cons.mpr ⟨?_, fun a' ha' => ?_⟩, fun b hb => ?_⟩
    · rw [List.foldlM_cons, hs₁]
      exact hs₂
    · rw [hout _ ha, hself]
    · rw [hl a' ha', hother _ (hne a' ha')]
    · rw [List.map_cons, List.mem_cons, not_or] at hb
      rw [hout b hb.2, hother b hb.1]

theorem foldl_view {f : σ → α → σ}
    (h : ∀ s a, view (f s a) (key a) = φ a (view s (key a)) ∧ ∀ b, b ≠ key a → view (f s a) b = view s b)
    (hn : (l.map key).Nodup) (s : σ) :
    (∀ a ∈ l, view (l.foldl f s) (key a) = φ a (view s (key a))) ∧
      ∀ b, b ∉ l.map key → view (l.foldl f s) b = view s b := by
  obtain ⟨s', hs', hview⟩ := foldlM_view view key (f := fun s a => some (f s a)) (p := fun _ _ => True)
    (fun s a _ => ⟨_, rfl, h s a⟩) hn (s := s) fun _ _ => trivial
  have hfold : l.foldlM (fun s a => some (f s a)) s = some (l.foldl f s) := List.foldlM_pure
  cases hs'.symm.trans hfold
  exact hview

end Loops

end Table
