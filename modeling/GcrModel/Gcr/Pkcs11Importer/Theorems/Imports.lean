import GcrModel.Gcr.Pkcs11Importer.Theorems.Importer

namespace Pkcs11Importer

open Gck

variable {env : Env} {s s' : State} {e : Event} {ts : List (State × Event × State)}

-- A task that goes on waiting.
theorem Stepped.setTask (v : Inv s) {i : Nat} (hi : i < s.started) {task : Task}
    (hreturned : task.returned = (s.tasks i).returned) (hwaiting : task.waiting.isSome = (s.tasks i).waiting.isSome)
    (hcreates : ∀ id, task.creates id → (s.tasks i).creates id) (hanswers : ∀ j, ¬e.Answers j) :
    Stepped env s e (s.setTask i task) := by
  refine .of_same (v.setTask hi task hreturned hwaiting hcreates) rfl rfl (fun j => ?_) hanswers
  by_cases hj : j = i
  · rw [hj, setTask_self, hreturned]
  · rw [setTask_of_ne hj]

theorem kept_setTask {i : Nat} {task : Task} (hkept : Kept s)
    (hcreates : ∀ id, (s.tasks i).creates id → task.creates id) : Kept (s.setTask i task) := by
  intro id hid
  rcases hkept id hid with hobject | hqueue | ⟨j, hj⟩
  · exact .inl hobject
  · exact .inr (.inl hqueue)
  · refine .inr (.inr ⟨j, ?_⟩)
    by_cases hji : j = i
    · subst hji
      rw [setTask_self]
      exact hcreates id hj
    · rwa [setTask_of_ne hji]

theorem Step.stepped (v : Inv s) (h : Step env s e s') : Stepped env s e s' := by
  cases h
  case queue attrs =>
    exact ⟨v.queueItem attrs, ⟨_, [], .queued, rfl, (List.append_nil _).symm⟩, fun _ hne => absurd rfl hne,
      fun _ hne => absurd rfl hne, fun _ => False.elim⟩
  case setInteraction =>
    exact .of_same ⟨v.nodup, v.below, v.objects, v.created, v.creating, v.distinct, v.unstarted, v.completed⟩ rfl rfl
      (fun _ => rfl) fun _ => id
  case importAsync cancelled prepared =>
    let task : Task := { cancelled := cancelled, supplement := if s.interaction then prepared else supplementPrep s.queue }
    have g := v.started task rfl
    have hwait : Handled (Fails s s.started (.importAsync cancelled prepared)) (fun _ => True) _ (stateOpenSession _ s.started)
        s.started := g.wait nofun trivial
    have hcancelled : ((s.setTask s.started task).tasks s.started).cancelled = cancelled := congrArg _ (setTask_self task)
    exact (g.nextState hwait hcancelled.symm.trans).stepped .same rfl rfl (fun j hj => setTask_of_ne hj _) fun _ => False.elim
  case cancel i hi => exact .setTask v hi rfl rfl (fun _ h => h) fun _ => id
  case onOpenSession i session hwaiting =>
    have hsupplements : Supplements env (Fails s i (.onOpenSession i session)) _ s _ i :=
      completeOpenSession_supplements (v.handling (by rw [hwaiting]; rfl)) session id
    exact hsupplements.stepped fun j hj => ⟨hj.symm, fun _ h => ⟨h, hwaiting⟩⟩
  case supplementError i hwaiting =>
    have hsupplements := completeSupplement_supplements env (f := Fails s i (.onSupplementDone i none)) (w := fun _ => False)
      (v.handling (by rw [hwaiting]; rfl)) true fun _ => .inl rfl
    exact hsupplements.stepped fun j hj => ⟨hj.symm, fun _ => False.elim⟩
  case onSupplementDone i supplement hwaiting =>
    have hi := v.started_of_waiting (i := i) (by rw [hwaiting]; rfl)
    have v' := v.setTask hi { s.tasks i with supplement := supplement } rfl rfl fun _ h => h
    obtain ⟨arranged, harranged, -, hhandled⟩ :=
      completeSupplement_supplements env (f := Fails s i (.onSupplementDone i (some supplement))) (w := fun _ => False)
        (v'.handling (i := i) (by rw [setTask_self, hwaiting]; rfl)) false
        fun h => .inr (by simpa [setTask_self] using h)
    have harranged' : Arranged env s arranged := by
      cases harranged
      case same              => exact .same
      case queued            => exact .queued
      case supplemented hids => exact .supplemented hids
    exact hhandled.stepped harranged' rfl rfl (fun j hj => setTask_of_ne hj _) fun j hj => ⟨hj.symm, fun _ => False.elim⟩
  case createObject i item created hwaiting =>
    have hi := v.started_of_waiting (i := i) (by rw [hwaiting]; rfl)
    refine .setTask v hi rfl (by rw [hwaiting]; rfl) ?_ fun _ => id
    rintro id ⟨item', result, h, hid⟩
    cases h
    exact ⟨item, none, hwaiting, hid⟩
  case onCreateObject i item result hwaiting =>
    have g := v.handling (i := i) (by rw [hwaiting]; rfl)
    have hcreates : (s.tasks i).creates item.id := ⟨item, some result, hwaiting, rfl⟩
    have hcreating := v.creating i item.id hcreates
    split
    case isTrue =>
      have hothers : ∀ j, j ≠ i → ¬(s.tasks j).creates item.id := fun j hj hc => hj (v.distinct j i _ hc hcreates)
      have hhandled : Handled (Fails s i (.onCreateObject i)) (fun _ => False) _ _ i :=
        g.completeCreateObject hcreating.left hcreating.right hothers .inr
      exact hhandled.stepped .same rfl rfl (fun _ _ => rfl) fun j hj => ⟨hj.symm, fun _ => False.elim⟩
    case isFalse hfine =>
      have hfails : Fails s i (.onCreateObject i) := by
        cases result
        case false => exact .inl ⟨item, hwaiting⟩
        case true  => exact .inr (by simpa using hfine)
      have hreturns : Handled _ (fun _ => False) s (s.returns i false) i := g.fails hfails
      exact hreturns.stepped .same rfl rfl (fun _ _ => rfl) fun j hj => ⟨hj.symm, fun _ => False.elim⟩

-- Only a creation that gives no object loses an item.
theorem Step.kept_iff (v : Inv s) (hkept : Kept s) (h : Step env s e s') : Kept s' ↔ Creates s e := by
  cases h
  case queue attrs =>
    refine iff_of_true ?_ trivial
    intro id hid
    have hids : ids (s.queue ++ [⟨s.queued, attrs⟩]) = ids s.queue ++ [s.queued] := List.map_append
    change _ ∨ id ∈ ids (s.queue ++ [⟨s.queued, attrs⟩]) ∨ _
    rw [hids]
    rcases Nat.lt_succ_iff_lt_or_eq.mp hid with hid | rfl
    · rcases hkept id hid with hobject | hqueue | hcreates
      · exact .inl hobject
      · exact .inr (.inl (List.mem_append_left _ hqueue))
      · exact .inr (.inr hcreates)
    · exact .inr (.inl (List.mem_append_right _ List.mem_cons_self))
  case setInteraction => exact iff_of_true hkept trivial
  case importAsync cancelled prepared =>
    refine iff_of_true ?_ trivial
    let task : Task := { cancelled := cancelled, supplement := if s.interaction then prepared else supplementPrep s.queue }
    have g := v.started task rfl
    have hwait : Handled True (fun _ => True) _ (stateOpenSession _ s.started) s.started := g.wait nofun trivial
    apply (g.nextState hwait fun _ => trivial).kept
    intro id hid
    rcases hkept id hid with hobject | hqueue | ⟨j, hj⟩
    · exact .inl hobject
    · exact .inr (.inl hqueue)
    · have hne : j ≠ s.started := by
        rintro rfl
        rw [v.unstarted s.started le_rfl] at hj
        obtain ⟨item, result, hwaiting, -⟩ := hj
        cases hwaiting
      refine .inr (.inr ⟨j, hne, ?_⟩)
      change ((s.setTask s.started task).tasks j).creates id
      rwa [setTask_of_ne hne]
  case cancel i hi => exact iff_of_true (kept_setTask hkept fun _ h => h) trivial
  case onOpenSession i session hwaiting =>
    have g := v.handling (i := i) (by rw [hwaiting]; rfl)
    refine iff_of_true ((completeOpenSession_supplements (f := True) g session fun _ => trivial).keeps hkept ?_) trivial
    exact not_creates_of_waiting hwaiting fun _ _ => Waiting.noConfusion
  case supplementError i hwaiting =>
    have g := v.handling (i := i) (by rw [hwaiting]; rfl)
    refine iff_of_true ((completeSupplement_supplements env (w := fun _ => True) g true fun _ => trivial).keeps hkept ?_) trivial
    exact not_creates_of_waiting hwaiting fun _ _ => Waiting.noConfusion
  case onSupplementDone i supplement hwaiting =>
    have hi := v.started_of_waiting (i := i) (by rw [hwaiting]; rfl)
    let task : Task := { s.tasks i with supplement := supplement }
    have hwaiting' : ((s.setTask i task).tasks i).waiting = some .supplement := by rw [setTask_self]; exact hwaiting
    have g := (v.setTask hi task rfl rfl fun _ h => h).handling (i := i) (by rw [hwaiting']; rfl)
    have hkept' : Kept (s.setTask i task) := kept_setTask hkept fun _ h => h
    refine iff_of_true ((completeSupplement_supplements env (w := fun _ => True) g false fun _ => trivial).keeps hkept' ?_) trivial
    exact not_creates_of_waiting hwaiting' fun _ _ => Waiting.noConfusion
  case createObject i item created hwaiting =>
    refine iff_of_true (kept_setTask hkept ?_) trivial
    rintro id ⟨item', result, h, hid⟩
    rw [hwaiting] at h
    cases h
    exact ⟨item, _, rfl, hid⟩
  case onCreateObject i item result hwaiting =>
    rw [onCreateObject_kept_iff v hkept hwaiting]
    refine and_congr_right fun _ => ⟨fun h item' result' hwaiting' => ?_, fun h => h item result hwaiting⟩
    rw [hwaiting] at hwaiting'
    cases hwaiting'
    exact h

theorem Kept.start : Kept {} :=
  fun _ hid => absurd hid (Nat.not_lt_zero _)

theorem Run.stepped (r : Run env ts s) : ∀ t ∈ ts, Stepped env t.1 t.2.1 t.2.2 :=
  r.forall_step (fun _ h => h ▸ Inv.start) (fun _ _ _ v h => (h.stepped v).inv) fun _ _ _ v h => h.stepped v

theorem Run.kept_iff (r : Run env ts s) : (∀ t ∈ ts, Kept t.2.2) ↔ ∀ t ∈ ts, Creates t.1 t.2.1 :=
  r.forall_iff (p := Inv) (fun _ h => h ▸ Inv.start) (fun _ _ _ v h => (h.stepped v).inv) (fun _ h => h ▸ Kept.start)
    fun _ _ _ v hkept h => h.kept_iff v hkept

-- A run does all that is required of an importer if and only if every creation that is tried gives an object.
theorem Run.imports_iff (r : Run env ts s) :
    (∀ t ∈ ts, Imports env t.1 t.2.1 t.2.2) ↔ ∀ t ∈ ts, Creates t.1 t.2.1 := by
  rw [← r.kept_iff]
  constructor
  · intro h t ht
    exact (h t ht).kept
  · intro h t ht
    exact (r.stepped t ht).imports (h t ht)

-- An import of a queue with one item, whose creation fails.
def failingEnv : Env where
  fingerprint  := fun _ => none
  hash         := fun _ => []
  pointer      := fun _ => []
  iterate      := id
  iterate_perm := fun pairs => List.Perm.refl pairs

def failingQueue : State :=
  queueItem {} [⟨ckaClass, some [1, 0, 0, 0, 0, 0, 0, 0]⟩]

def failingImport : State :=
  importAsync failingQueue false []

def failingSession : State :=
  completeOpenSession failingEnv failingImport 0 true

def failingCall (item : Item) : State :=
  failingSession.wait 0 (.createObject item (some false))

theorem run_failing : ∃ ts s, Run failingEnv ts s ∧ ∃ t ∈ ts, ¬Creates t.1 t.2.1 := by
  have hwaiting : ∃ item, (failingSession.tasks 0).waiting = some (.createObject item none) := ⟨_, rfl⟩
  obtain ⟨item, hwaiting⟩ := hwaiting
  have hcall : (failingSession.wait 0 (.createObject item (some false))).tasks 0 =
      { failingSession.tasks 0 with waiting := some (.createObject item (some false)) } := setTask_self _
  have h₁ : Step failingEnv {} (.queue [⟨ckaClass, some [1, 0, 0, 0, 0, 0, 0, 0]⟩]) failingQueue := .queue
  have h₂ : Step failingEnv failingQueue (.importAsync false []) failingImport := .importAsync
  have h₃ : Step failingEnv failingImport (.onOpenSession 0 true) failingSession := .onOpenSession rfl
  have h₄ : Step failingEnv failingSession (.createObject 0 false) (failingCall item) := .createObject hwaiting
  have h₅ : Step failingEnv (failingCall item) (.onCreateObject 0) _ := .onCreateObject (by rw [failingCall, hcall])
  refine ⟨_, _, .step (.step (.step (.step (.step (.start rfl) h₁) h₂) h₃) h₄) h₅, _, List.mem_cons_self, ?_⟩
  rintro ⟨-, hresult⟩
  have hfalse := hresult item false (by rw [failingCall, hcall])
  cases hfalse

theorem not_imports : ¬∀ env ts s, Run env ts s → ∀ t ∈ ts, Imports env t.1 t.2.1 t.2.2 := by
  intro h
  obtain ⟨ts, s, r, t, ht, hcreates⟩ := run_failing
  apply hcreates
  exact r.kept_iff.mp (fun t ht => (h _ ts s r t ht).kept) t ht

-- A first import is cancelled, and a second one creates the item.
theorem imports_iff_again : ∃ ts s, Run failingEnv ts s ∧ ids s.objects = [0] ∧ s.queue = [] ∧
    (s.tasks 0).returned = [false] ∧ (s.tasks 1).returned = [true] ∧ ∀ t ∈ ts, Imports failingEnv t.1 t.2.1 t.2.2 := by
  have r₁ : Run failingEnv _ failingQueue := .step (.start rfl) .queue
  have r₂ : Run failingEnv _ (importAsync failingQueue true []) := .step r₁ .importAsync
  have r₃ : Run failingEnv _ (importAsync (importAsync failingQueue true []) false []) := .step r₂ .importAsync
  have r₄ : Run failingEnv _ _ := .step (e := .onOpenSession 1 true) r₃ (.onOpenSession rfl)
  have r₅ : Run failingEnv _ _ := .step (e := .createObject 1 true) r₄ (.createObject rfl)
  have r₆ : Run failingEnv _ _ := .step (e := .onCreateObject 1) r₅ (.onCreateObject rfl)
  refine ⟨_, _, r₆, rfl, rfl, rfl, rfl, r₆.imports_iff.mpr ?_⟩
  simp only [List.forall_mem_cons]
  exact ⟨⟨rfl, fun item result h => by cases h; rfl⟩, trivial, trivial, trivial, trivial, trivial, List.forall_mem_nil _⟩

end Pkcs11Importer
