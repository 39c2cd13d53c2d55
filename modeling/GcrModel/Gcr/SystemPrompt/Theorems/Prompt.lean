import GcrModel.Gcr.SystemPrompt.Prompt

namespace SystemPrompt

open GLib
open Transition (Outcome)

variable {s s' : State} {e : Event} {i j : Nat} {op : Op}

-- An operation was completed once, or it will be once.
structure Op.Valid (pending : Bool) (op : Op) : Prop where
  refs    : op.refs = pending.toNat + op.idles + op.flight.isSome.toNat + op.held
  token   : op.calls + op.idles + (op.flight.any Flight.completes).toNat + pending.toNat = 1
  sources : op.flight.isSome → op.waiting = false ∧ op.timeout = false
  stops   : op.flight = some .stopPrompting → op.kind = .close
  opens   : op.flight = some .busGet ∨ op.flight = some .beginPrompting → op.kind = .init

structure Ops (s : State) : Prop where
  valid : ∀ i, i < s.next → (s.ops i).Valid (decide (s.pending = some i))
  fresh : ∀ i, s.next ≤ i → s.ops i = {}

-- The connection and what there is with it go away when the prompt is closed, and the path too.
structure Globals (s : State) : Prop where
  path       : s.promptPath = !s.closed
  connection : s.connection = true → s.closed = false
  registered : s.registered = true → s.connection = true
  begun      : s.begunPrompting = true → s.registered = true
  stopped    : s.stopped + s.begunPrompting.toNat ≤ s.begun

structure Inv (s : State) : Prop where
  ops     : Ops s
  globals : Globals s
  pending : ∀ i, s.pending = some i → i < s.next ∧ s.registered = true
  goes    : s.aborted = false

theorem inv_init : ∀ s : State, (∃ timeoutSeconds, s = { timeoutSeconds := timeoutSeconds }) → Inv s := by
  rintro _ ⟨t, rfl⟩
  exact ⟨⟨by simp, by simp⟩, ⟨rfl, by simp, by simp, by simp, by simp⟩, by simp, rfl⟩

theorem State.modify_ops (f : Op → Op) : (s.modify i f).ops j = if j = i then f (s.ops i) else s.ops j :=
  Function.update_apply _ _ _ _

-- What changes one operation, which may be a new one.
theorem Ops.change (ho : Ops s) (i : Nat) (hothers : ∀ j, j ≠ i → s'.ops j = s.ops j)
    (hpending : ∀ j, j ≠ i → (s'.pending = some j ↔ s.pending = some j)) (hnext : s.next ≤ s'.next)
    (hlast : ∀ j, j < s'.next → j < s.next ∨ j = i) (hi : i < s'.next)
    (hv : (s'.ops i).Valid (decide (s'.pending = some i))) : Ops s' where
  valid := fun j hj => by
    by_cases hne : j = i
    case pos => exact hne ▸ hv
    case neg =>
      have hold := (hlast j hj).resolve_right hne
      rw [hothers j hne, decide_eq_decide.mpr (hpending j hne)]
      exact ho.valid j hold
  fresh := fun j hj => by
    rw [hothers j (by omega)]
    exact ho.fresh j (by omega)

theorem Ops.modify (ho : Ops s) (hi : i < s.next) {f : Op → Op}
    (hv : (f (s.ops i)).Valid (decide (s.pending = some i))) : Ops (s.modify i f) := by
  refine ho.change i (fun j hj => ?_) (fun _ _ => Iff.rfl) le_rfl (fun _ => .inl) hi ?_
  · rw [State.modify_ops, if_neg hj]
  · rw [State.modify_ops, if_pos rfl]
    exact hv

theorem Ops.lt_next (ho : Ops s) (hne : s.ops i ≠ {}) : i < s.next := by
  by_contra hn
  exact hne (ho.fresh i (by omega))

theorem Op.Valid.completeInIdle (hv : op.Valid true) :
    Op.Valid false { op.completeInIdle.unref with cancelled := true } where
  refs    := by
    have hrefs := hv.refs
    simp only [Op.completeInIdle, Op.unref, Bool.toNat_true, Bool.toNat_false] at hrefs ⊢
    omega
  token   := by
    have htoken := hv.token
    simp only [Op.completeInIdle, Op.unref, Bool.toNat_true, Bool.toNat_false] at htoken ⊢
    omega
  sources := hv.sources
  stops   := hv.stops
  opens   := hv.opens

-- A result that is pending will be completed in a while.
theorem Ops.closePending (ho : Ops s) (hp : ∀ i, s.pending = some i → i < s.next) : Ops (closePending s) := by
  unfold SystemPrompt.closePending
  split
  case h_1 => exact ho
  case h_2 res hres =>
    have hlt := hp res hres
    have hv := ho.valid res hlt
    rw [decide_eq_true hres] at hv
    refine ho.change res (fun j hj => ?_) (fun j hj => ?_) le_rfl (fun _ => .inl) hlt ?_
    · simp [State.modify_ops, hj]
    · simpa [hres] using Ne.symm hj
    · rw [decide_eq_false (by simp)]
      simp only [State.modify_ops, if_pos]
      exact hv.completeInIdle

theorem closePending_eq (s : State) : ∃ ops, closePending s = { s with ops := ops, pending := none } := by
  unfold closePending
  split
  case h_1 hnone => exact ⟨s.ops, by rw [← hnone]⟩
  case h_2       => exact ⟨_, rfl⟩

-- No operation is pending, nor any call to begin, when the prompt is closed.
theorem Inv.of_closed (ho : Ops s) (hclosed : s.closed = true) (hpending : s.pending = none) (hpath : s.promptPath = false)
    (hconnection : s.connection = false) (hregistered : s.registered = false) (hbegun : s.begunPrompting = false)
    (hstopped : s.stopped ≤ s.begun) (hgoes : s.aborted = false) : Inv s where
  ops     := ho
  globals := ⟨by simp [hpath, hclosed], by simp [hconnection], by simp [hregistered], by simp [hbegun],
    by simpa [hbegun] using hstopped⟩
  pending := fun i h => by simp [hpending] at h
  goes    := hgoes

-- What a prompt is asked to stop, it was begun for.
theorem Globals.stopped_le (hg : Globals s) : s.stopped +
    (s.begunPrompting && s.connection && s.promptPath && s.promptOwner).toNat ≤ s.begun := by
  have hstopped := hg.stopped
  cases hbegun : s.begunPrompting
  case false => simpa [hbegun] using hstopped
  case true  =>
    rw [hbegun] at hstopped
    have hle := Bool.toNat_le (true && s.connection && s.promptPath && s.promptOwner)
    rw [Bool.toNat_true] at hstopped
    omega

theorem Inv.performClose (hi : Inv s) : Inv (performClose s none) := by
  have ho : Ops { s with closed := true } := ⟨hi.ops.valid, hi.ops.fresh⟩
  have hclosed := ho.closePending fun i h => (hi.pending i h).1
  obtain ⟨ops, heq⟩ := closePending_eq { s with closed := true }
  have hle := hi.globals.stopped_le
  rw [heq] at hclosed
  unfold SystemPrompt.performClose
  simp only [heq]
  exact Inv.of_closed ⟨hclosed.valid, hclosed.fresh⟩ rfl rfl rfl rfl rfl rfl hle hi.goes

theorem closePending_ops (s : State) (j : Nat) : (closePending s).ops j =
    if s.pending = some j then { (s.ops j).completeInIdle.unref with cancelled := true } else s.ops j := by
  unfold closePending
  split
  case h_1 hnone => simp [hnone]
  case h_2 res hres =>
    simp only [State.modify_ops]
    by_cases hj : j = res
    case pos => simp [hj, hres]
    case neg => simp [hj, hres, Ne.symm hj]

theorem State.new_ops (op : Op) : (s.new op).ops j = if j = s.next then { op with refs := 1 } else s.ops j := by
  simp only [State.new, State.modify_ops]

-- The operations that are closed do not depend on one that is new.
theorem closePending_new (op : Op) (hp : ∀ i, s.pending = some i → i < s.next) :
    (closePending { s.new op with closed := true }).ops j =
      if j = s.next then { op with refs := 1 } else (closePending s).ops j := by
  have hpending : ({ s.new op with closed := true } : State).pending = s.pending := rfl
  have hops : ({ s.new op with closed := true } : State).ops j = (s.new op).ops j := rfl
  rw [closePending_ops, closePending_ops, hpending, hops, State.new_ops]
  by_cases hj : j = s.next
  case pos =>
    have hne : s.pending ≠ some s.next := fun h => absurd (hp _ h) (lt_irrefl _)
    simp [hj, hne]
  case neg => simp [hj]

theorem Inv.closeAsync (hi : Inv s) (keeps : Bool) : Inv (gcrSystemPromptCloseAsync s keeps) := by
  have hp := fun i h => (hi.pending i h).1
  have ho := hi.ops.closePending hp
  have hle := hi.globals.stopped_le
  obtain ⟨ops, heq⟩ := closePending_eq { s.new { kind := .close, keeps := keeps } with closed := true }
  obtain ⟨ops', heq'⟩ := closePending_eq s
  have hops : ∀ j, ops j = if j = s.next then { kind := .close, keeps := keeps, refs := 1 } else ops' j := fun j => by
    have hj := closePending_new (j := j) { kind := .close, keeps := keeps } hp
    rwa [heq, heq'] at hj
  rw [heq'] at ho
  unfold gcrSystemPromptCloseAsync SystemPrompt.performClose
  simp only [heq]
  split
  all_goals
    refine Inv.of_closed ?_ rfl rfl rfl rfl rfl rfl hle hi.goes
    refine ho.change s.next (fun j hj => ?_) (fun _ _ => Iff.rfl) (Nat.le_succ _)
      (fun j hj => Nat.lt_succ_iff_lt_or_eq.mp hj) (Nat.lt_succ_self _) ?_
    · simp [State.modify_ops, hj, hops]
    · simp only [State.modify_ops, hops, if_pos]
      exact ⟨rfl, rfl, fun _ => ⟨rfl, rfl⟩, fun _ => rfl, by rintro (h | h) <;> cases h⟩

theorem performClose_pending (s : State) : (performClose s none).pending = none := by
  obtain ⟨ops, heq⟩ := closePending_eq { s with closed := true }
  simp only [performClose, heq]

theorem performClose_calls (s : State) (j : Nat) : ((performClose s none).ops j).calls = (s.ops j).calls := by
  change ((closePending { s with closed := true }).ops j).calls = _
  rw [closePending_ops]
  split
  case isTrue  => rfl
  case isFalse => rfl

theorem closeAsync_pending (s : State) (keeps : Bool) : (gcrSystemPromptCloseAsync s keeps).pending = none := by
  obtain ⟨ops, heq⟩ := closePending_eq { s.new { kind := .close, keeps := keeps } with closed := true }
  simp only [gcrSystemPromptCloseAsync, performClose, heq]
  split
  case isTrue  => rfl
  case isFalse => rfl

theorem closeAsync_calls (s : State) (keeps : Bool) (j : Nat) :
    ((gcrSystemPromptCloseAsync s keeps).ops j).calls ≤ (s.ops j).calls := by
  have hops := closePending_ops { s.new { kind := .close, keeps := keeps } with closed := true } j
  have hcalls : ((closePending { s.new { kind := .close, keeps := keeps } with closed := true }).ops j).calls ≤
      (s.ops j).calls := by
    rw [hops]
    have hnew : ((s.new { kind := .close, keeps := keeps }).ops j).calls ≤ (s.ops j).calls := by
      rw [State.new_ops]
      split
      case isTrue  => exact Nat.zero_le _
      case isFalse => exact le_rfl
    split
    case isTrue  => exact hnew
    case isFalse => exact hnew
  simp only [gcrSystemPromptCloseAsync, performClose]
  split
  all_goals
    simp only [State.modify_ops]
    split
    case isTrue hj => exact hj ▸ hcalls
    case isFalse   => exact hcalls

-- What a regular step preserves, and what it does about the pending operation and those that it completes.
structure Next (s s' : State) : Prop where
  inv       : Inv s'
  kept      : ∀ i, s.pending = some i → s'.pending = some i ∨ s'.pending = none
  dismissed : ∀ i, (s.ops i).calls < (s'.ops i).calls → s'.closed = true → s'.Dismissed i

theorem State.dismissed (hpassword : (s.ops i).kind ≠ .password) (hconfirm : (s.ops i).kind ≠ .confirm) :
    s.Dismissed i :=
  ⟨(absurd · hpassword), (absurd · hconfirm)⟩

-- A prompt that is closed completes nothing right away.
theorem Next.of_closed (hi : Inv s') (hpending : s'.pending = none) (hcalls : ∀ j, (s'.ops j).calls ≤ (s.ops j).calls) :
    Next s s' where
  inv       := hi
  kept      := fun _ _ => .inr hpending
  dismissed := fun j hlt => absurd hlt (by have := hcalls j; omega)

theorem Inv.next_performClose (hi : Inv s) : Next s (SystemPrompt.performClose s none) :=
  .of_closed hi.performClose (performClose_pending s) fun j => (performClose_calls s j).le

-- The operations are not part of it.
theorem Globals.operations (hg : Globals s) (ops : Nat → Op) (pending : Option Nat) (next : Nat) :
    Globals { s with ops := ops, pending := pending, next := next } :=
  ⟨hg.path, hg.connection, hg.registered, hg.begun, hg.stopped⟩

-- What changes one operation, with the prompt as it was.
theorem Inv.modify (hi : Inv s) (hlt : i < s.next) {f : Op → Op}
    (hv : (f (s.ops i)).Valid (decide (s.pending = some i))) : Inv (s.modify i f) where
  ops     := hi.ops.modify hlt hv
  globals := hi.globals.operations _ _ _
  pending := hi.pending
  goes    := hi.goes

theorem Inv.next_modify (hi : Inv s) (hlt : i < s.next) {f : Op → Op}
    (hv : (f (s.ops i)).Valid (decide (s.pending = some i)))
    (hd : (s.ops i).calls < (f (s.ops i)).calls → s.closed = true → (s.modify i f).Dismissed i) :
    Next s (s.modify i f) where
  inv       := hi.modify hlt hv
  kept      := fun _ => .inl
  dismissed := fun j hcalls hclosed => by
    rw [State.modify_ops] at hcalls
    split at hcalls
    case isTrue hj => exact hj ▸ hd (hj ▸ hcalls) hclosed
    case isFalse   => exact absurd hcalls (lt_irrefl _)

-- The operation that opens the prompt has a reference of its own while it goes on.
structure Opening (s : State) (i : Nat) : Prop where
  lt      : i < s.next
  others  : ∀ j, j < s.next → j ≠ i → (s.ops j).Valid (decide (s.pending = some j))
  fresh   : ∀ j, s.next ≤ j → s.ops j = {}
  globals : Globals s
  pending : ∀ j, s.pending = some j → j < s.next ∧ s.registered = true
  goes    : s.aborted = false
  free    : s.pending ≠ some i
  refs    : (s.ops i).refs = (s.ops i).held + 1
  token   : (s.ops i).calls + (s.ops i).idles = 0
  flight  : (s.ops i).flight = none
  sources : (s.ops i).waiting = false ∧ (s.ops i).timeout = false
  kind    : (s.ops i).kind = .init

theorem State.modify_modify (f g : Op → Op) : (s.modify i f).modify i g = s.modify i fun op => g (f op) := by
  simp only [State.modify, Function.update_self, Function.update_idem]

theorem Inv.opening (hi : Inv s) (hf : (s.ops i).flight = some .busGet ∨ (s.ops i).flight = some .beginPrompting) :
    Opening (s.modify i fun op => { op with flight := none }) i := by
  have hlt : i < s.next := hi.ops.lt_next fun heq => by simp [heq] at hf
  have hv := hi.ops.valid i hlt
  have hsome : (s.ops i).flight.isSome = true := by rcases hf with h | h <;> simp [h]
  have hany : (s.ops i).flight.any Flight.completes = true := by rcases hf with h | h <;> simp [h, Flight.completes]
  have htoken := hv.token
  have hrefs := hv.refs
  rw [hany, Bool.toNat_true] at htoken
  rw [hsome, Bool.toNat_true] at hrefs
  have hself : ((s.modify i fun op => { op with flight := none }).ops i) = { s.ops i with flight := none } := by
    rw [State.modify_ops, if_pos rfl]
  exact {
    lt      := hlt
    others  := fun j hj hne => by
      rw [State.modify_ops, if_neg hne]
      exact hi.ops.valid j hj
    fresh   := fun j hj => by
      rw [State.modify_ops, if_neg (Nat.ne_of_gt (Nat.lt_of_lt_of_le hlt hj))]
      exact hi.ops.fresh j hj
    globals := hi.globals.operations _ _ _
    pending := hi.pending
    goes    := hi.goes
    free    := fun hpending => by
      have hpending' : s.pending = some i := hpending
      rw [decide_eq_true hpending', Bool.toNat_true] at htoken
      omega
    refs    := by
      rw [hself]
      change (s.ops i).refs = (s.ops i).held + 1
      omega
    token   := by
      rw [hself]
      change (s.ops i).calls + (s.ops i).idles = 0
      omega
    flight  := by rw [hself]
    sources := by
      rw [hself]
      exact hv.sources hsome
    kind    := by
      rw [hself]
      exact hv.opens hf }

theorem Inv.opening_new (hi : Inv s) (keeps : Bool) : Opening (s.new { kind := .init, keeps := keeps }) s.next := by
  have hself : (s.new { kind := .init, keeps := keeps }).ops s.next = { kind := .init, keeps := keeps, refs := 1 } := by
    rw [State.new_ops, if_pos rfl]
  exact {
    lt      := Nat.lt_succ_self _
    others  := fun j hj hne => by
      rw [State.new_ops, if_neg hne]
      exact hi.ops.valid j ((Nat.lt_succ_iff_lt_or_eq.mp hj).resolve_right hne)
    fresh   := fun j hj => by
      rw [State.new_ops, if_neg (Nat.ne_of_gt hj)]
      exact hi.ops.fresh j (Nat.le_of_succ_le hj)
    globals := hi.globals.operations _ _ _
    pending := fun j hj => ⟨Nat.lt_succ_of_lt (hi.pending j hj).1, (hi.pending j hj).2⟩
    goes    := hi.goes
    free    := fun h => absurd (hi.pending _ h).1 (lt_irrefl _)
    refs    := by rw [hself]
    token   := by
      rw [hself]
      rfl
    flight  := by rw [hself]
    sources := by
      rw [hself]
      exact ⟨rfl, rfl⟩
    kind    := by rw [hself] }

-- The operation goes on with a call or is pending or completed, from where it was.
theorem Opening.next {s₀ : State} {f : Op → Op} {p : Option Nat} (ho : Opening s i)
    (hops : ∀ j, j ≠ i → s₀.ops j = s.ops j) (hpending : s₀.pending = s.pending)
    (hv : (f (s.ops i)).Valid (decide (p = some i))) (hk : (f (s.ops i)).kind = .init)
    (hp : p = s.pending ∨ p = some i ∧ s.pending = none ∧ s.registered = true) :
    Next s₀ { s.modify i f with pending := p } where
  inv       := {
    ops     := {
      valid := fun j hj => by
        by_cases hne : j = i
        case pos =>
          rw [hne, State.modify_ops, if_pos rfl]
          exact hv
        case neg =>
          have hiff : p = some j ↔ s.pending = some j := by
            rcases hp with rfl | ⟨rfl, hnone, -⟩
            · exact Iff.rfl
            · simp [hnone, Ne.symm hne]
          rw [State.modify_ops, if_neg hne, decide_eq_decide.mpr hiff]
          exact ho.others j hj hne
      fresh := fun j hj => by
        have hlt := ho.lt
        have hle : s.next ≤ j := hj
        rw [State.modify_ops, if_neg (by omega)]
        exact ho.fresh j hj }
    globals := ho.globals.operations _ _ _
    pending := fun j hj => by
      rcases hp with rfl | ⟨rfl, -, hregistered⟩
      · exact ho.pending j hj
      · exact ⟨Option.some.inj hj ▸ ho.lt, hregistered⟩
    goes    := ho.goes }
  kept      := fun j hj => by
    rw [hpending] at hj
    rcases hp with rfl | ⟨-, hnone, -⟩
    · exact .inl hj
    · simp [hnone] at hj
  dismissed := fun j hcalls _ => by
    by_cases hne : j = i
    case pos =>
      have hkind : ((s.modify i f).ops j).kind = .init := by
        rw [hne, State.modify_ops, if_pos rfl]
        exact hk
      exact State.dismissed (by simp [hkind]) (by simp [hkind])
    case neg =>
      rw [State.modify_ops, if_neg hne, hops j hne] at hcalls
      exact absurd hcalls (lt_irrefl _)

-- The operation waits for a call.
theorem Opening.valid_call (ho : Opening s i) {flight : Flight} (hc : flight.completes = true)
    (hne : flight ≠ .stopPrompting) :
    ((s.ops i).call flight).unref.Valid false where
  refs    := by
    have hrefs := ho.refs
    have htoken := ho.token
    simp only [Op.call, Op.unref, Option.isSome_some, Bool.toNat_true, Bool.toNat_false]
    omega
  token   := by
    have htoken := ho.token
    simp only [Op.call, Op.unref, Option.any_some, hc, Bool.toNat_true, Bool.toNat_false]
    omega
  sources := fun _ => ho.sources
  stops   := fun heq => absurd (Option.some.inj heq) hne
  opens   := fun _ => ho.kind

-- The operation is pending.
theorem Opening.valid_pending (ho : Opening s i) (timeout : Bool) :
    ({ s.ops i with timeout := timeout, waiting := true, refs := (s.ops i).refs + 1 } : Op).unref.Valid true where
  refs    := by
    have hrefs := ho.refs
    have htoken := ho.token
    simp only [Op.unref, ho.flight, Option.isSome_none, Bool.toNat_true, Bool.toNat_false]
    omega
  token   := by
    have htoken := ho.token
    simp only [Op.unref, ho.flight, Option.any_none, Bool.toNat_true, Bool.toNat_false]
    omega
  sources := fun hsome => by simp [Op.unref, ho.flight] at hsome
  stops   := fun heq => by simp [Op.unref, ho.flight] at heq
  opens   := fun heq => by simp [Op.unref, ho.flight] at heq

-- The operation is completed with an error.
theorem Opening.valid_failed (ho : Opening s i) :
    ({ s.ops i with failed := true } : Op).complete.unref.Valid false where
  refs    := by
    have hrefs := ho.refs
    have htoken := ho.token
    simp only [Op.complete, Op.unref, ho.flight, Option.isSome_none, Bool.toNat_false]
    omega
  token   := by
    have htoken := ho.token
    simp only [Op.complete, Op.unref, ho.flight, Option.any_none, Bool.toNat_false]
    omega
  sources := fun hsome => by simp [Op.complete, Op.unref, ho.flight] at hsome
  stops   := fun heq => by simp [Op.complete, Op.unref, ho.flight] at heq
  opens   := fun heq => by simp [Op.complete, Op.unref, ho.flight] at heq

theorem Opening.next_failed {s₀ : State} (ho : Opening s i) (hops : ∀ j, j ≠ i → s₀.ops j = s.ops j)
    (hpending : s₀.pending = s.pending) :
    Next s₀ (s.modify i fun op => { op with failed := true }.complete.unref) := by
  have hv := ho.valid_failed
  rw [← decide_eq_false ho.free] at hv
  exact ho.next (f := fun op => { op with failed := true }.complete.unref) hops hpending hv ho.kind (.inl rfl)

theorem Opening.next_call {s₀ : State} (ho : Opening s i) (hops : ∀ j, j ≠ i → s₀.ops j = s.ops j)
    (hpending : s₀.pending = s.pending) {flight : Flight} (hc : flight.completes = true)
    (hne : flight ≠ .stopPrompting) : Next s₀ ((s.modify i (·.call flight)).modify i Op.unref) := by
  have hv := ho.valid_call hc hne
  rw [← decide_eq_false ho.free] at hv
  rw [State.modify_modify]
  exact ho.next (f := fun op => (op.call flight).unref) hops hpending hv ho.kind (.inl rfl)

-- The next thing is done to open the prompt, unless it is open and an operation is pending.
theorem Opening.performInitAsync {s₀ : State} (ho : Opening s i) (hops : ∀ j, j ≠ i → s₀.ops j = s.ops j)
    (hpending : s₀.pending = s.pending) (h : s.connection = true → s.begunPrompting = true → s.pending = none) :
    (Outcome.unref i (performInitAsync s i)).All (Next s₀) := by
  unfold SystemPrompt.performInitAsync
  split
  case isTrue =>
    exact .ok (ho.next_call hops hpending rfl (by decide))
  case isFalse hconnection =>
    rw [Bool.not_eq_false] at hconnection
    have hpath : s.promptPath = true := by rw [ho.globals.path, ho.globals.connection hconnection, Bool.not_false]
    split
    case isTrue =>
      rw [if_neg (by simp [hpath])]
      exact .ok (ho.next_call hops hpending rfl (by decide))
    case isFalse hbegun =>
      rw [Bool.not_eq_false] at hbegun
      have hnone := h hconnection hbegun
      rw [if_pos hnone, if_neg (by simp [ho.sources.1, ho.sources.2])]
      refine .ok ?_
      have hnext := ho.next (p := some i) (f := fun op => Op.unref { op with
        timeout := op.timeout || 0 < s.timeoutSeconds
        waiting := true
        refs    := op.refs + 1 }) hops hpending (by simpa using ho.valid_pending _) ho.kind
        (.inr ⟨rfl, hnone, ho.globals.begun hbegun⟩)
      rwa [← State.modify_modify] at hnext

theorem Inv.next_realInitAsync (hi : Inv s) {keeps : Bool}
    (h : s.connection = true → s.begunPrompting = true → s.pending = none) :
    (realInitAsync s keeps).All (Next s) := by
  refine (hi.opening_new keeps).performInitAsync (fun j hj => ?_) rfl h
  rw [State.new_ops, if_neg hj]

-- A connection that there was none before is one for a prompt that is not closed and not open.
theorem Opening.connected (ho : Opening s i) (hconnection : s.connection = false) (hclosed : s.closed = false)
    (hnone : s.pending = none) (registered : Bool) :
    Opening { s.modify i fun op => { op with watch := true } with connection := true, registered := registered } i := by
  have hself : (s.modify i fun op => { op with watch := true }).ops i = { s.ops i with watch := true } := by
    rw [State.modify_ops, if_pos rfl]
  exact {
    lt      := ho.lt
    others  := fun j hj hne => by
      rw [State.modify_ops, if_neg hne]
      exact ho.others j hj hne
    fresh   := fun j hj => by
      rw [State.modify_ops, if_neg (Nat.ne_of_gt (Nat.lt_of_lt_of_le ho.lt hj))]
      exact ho.fresh j hj
    globals := {
      path       := ho.globals.path
      connection := fun _ => hclosed
      registered := fun _ => rfl
      begun      := fun hbegun => by
        have htrue := ho.globals.registered (ho.globals.begun hbegun)
        simp [hconnection] at htrue
      stopped    := ho.globals.stopped }
    pending := fun j hj => by
      have hj' : s.pending = some j := hj
      simp [hnone] at hj'
    goes    := ho.goes
    free    := ho.free
    refs    := by
      rw [hself]
      exact ho.refs
    token   := by
      rw [hself]
      exact ho.token
    flight  := by
      rw [hself]
      exact ho.flight
    sources := by
      rw [hself]
      exact ho.sources
    kind    := by
      rw [hself]
      exact ho.kind }

theorem Inv.next_onBusConnected (hi : Inv s) {connected registers : Bool} (hf : (s.ops i).flight = some .busGet)
    (hconnection : s.connection = false) (hclosed : connected = true → s.closed = false) :
    (onBusConnected s i connected registers).All (Next s) := by
  have ho := hi.opening (.inl hf)
  have hnone : s.pending = none := by
    by_contra hne
    obtain ⟨j, hj⟩ := Option.ne_none_iff_exists'.mp hne
    have htrue := hi.globals.registered (hi.pending j hj).2
    simp [hconnection] at htrue
  have hothers : ∀ f j, j ≠ i → s.ops j = (s.modify i f).ops j := fun f j hj => by
    rw [State.modify_ops, if_neg hj]
  unfold onBusConnected
  simp only
  rw [if_neg (by simp [State.modify, hconnection])]
  split
  case isTrue => exact .ok (ho.next_failed (hothers _) rfl)
  case isFalse hconnected =>
    have ho' := ho.connected hconnection (hclosed (by simpa using hconnected)) hnone (s.promptPath && registers)
    have hothers' : ∀ j, j ≠ i → s.ops j = ((s.modify i fun op => { op with flight := none }).modify i
        fun op => { op with watch := true }).ops j := fun j hj => by
      rw [State.modify_modify]
      exact hothers _ j hj
    split
    case isTrue  => exact .ok (ho'.next_failed hothers' rfl)
    case isFalse => exact ho'.performInitAsync hothers' rfl fun _ _ => hnone

theorem Inv.next_onPrompterBeginPrompting (hi : Inv s) {ok : Bool} (hf : (s.ops i).flight = some .beginPrompting)
    (hconnection : s.connection = true) (hok : ok = true → s.pending = none ∧ s.registered = true) :
    (onPrompterBeginPrompting s i ok).All (Next s) := by
  have ho := hi.opening (.inr hf)
  have hothers : ∀ j, j ≠ i → s.ops j = (s.modify i fun op => { op with flight := none }).ops j := fun j hj => by
    rw [State.modify_ops, if_neg hj]
  have hpath : s.promptPath = true := by rw [hi.globals.path, hi.globals.connection hconnection, Bool.not_false]
  have hstopped := hi.globals.stopped
  cases ok
  case false =>
    unfold onPrompterBeginPrompting
    simp only
    rw [if_neg (by simp [State.modify, hconnection])]
    exact .ok (ho.next_failed hothers rfl)
  case true =>
    obtain ⟨hnone, hregistered⟩ := hok rfl
    have ho' : Opening { s.modify i fun op => { op with flight := none } with
        begun := s.begun + 1, begunPrompting := true } i :=
      { ho with globals := ⟨hi.globals.path, hi.globals.connection, hi.globals.registered, fun _ => hregistered, by
        have hle : s.stopped ≤ s.begun := by omega
        exact Nat.succ_le_succ hle⟩ }
    unfold onPrompterBeginPrompting
    simp only
    rw [if_pos (by simp), if_neg (by simp [State.modify, hpath])]
    exact ho'.performInitAsync hothers rfl fun _ _ => hnone

-- A new operation that may be the pending one, where there is none.
theorem Inv.next_new (hi : Inv s) (hnone : s.pending = none) (f : Op → Op)
    (hops : s'.ops = ((s.new op).modify s.next f).ops) (hnext : s'.next = s.next + 1) (hg : Globals s')
    (hgoes : s'.aborted = false) (hp : s'.pending = none ∨ s'.pending = some s.next ∧ s'.registered = true)
    (hv : (f { op with refs := 1 }).Valid (decide (s'.pending = some s.next)))
    (hcalls : (f { op with refs := 1 }).calls = 0) : Next s s' := by
  have hothers : ∀ j, j ≠ s.next → s'.ops j = s.ops j := fun j hj => by
    rw [hops, State.modify_ops, if_neg hj, State.new_ops, if_neg hj]
  have hself : s'.ops s.next = f { op with refs := 1 } := by
    rw [hops, State.modify_ops, if_pos rfl, State.new_ops, if_pos rfl]
  refine ⟨⟨?_, hg, fun j hj => ?_, hgoes⟩, fun j hj => ?_, fun j hlt => ?_⟩
  · refine hi.ops.change s.next hothers (fun j hj => ?_) (by omega) (fun j hj => by omega) (by omega) (hself ▸ hv)
    rcases hp with heq | ⟨heq, -⟩
    · rw [heq, hnone]
    · simp [heq, hnone, Ne.symm hj]
  · rcases hp with heq | ⟨heq, hregistered⟩
    · simp [heq] at hj
    · rw [heq] at hj
      exact ⟨by rw [← Option.some.inj hj, hnext]; exact Nat.lt_succ_self _, hregistered⟩
  · simp [hnone] at hj
  · by_cases hj : j = s.next
    case pos => simp [hj, hself, hcalls] at hlt
    case neg => simp [hothers j hj] at hlt

-- A password or a confirmation is asked for while no operation is pending.
theorem Inv.next_performPromptAsync (hi : Inv s) {kind : Kind} {keeps registers : Bool}
    (h : s.pending = none ∧ (s.closed = false → s.connection = true ∧ registers = true)) :
    Next s (performPromptAsync s kind keeps registers) := by
  have hg := hi.globals
  obtain ⟨hnone, h⟩ := h
  unfold performPromptAsync
  split
  case isTrue hpending => simp [hnone] at hpending
  case isFalse =>
    simp only
    split
    case isTrue =>
      refine hi.next_new hnone (·.completeInIdle.unref) rfl rfl
        ⟨hg.path, hg.connection, hg.registered, hg.begun, hg.stopped⟩ hi.goes (.inl hnone) ?_ rfl
      rw [decide_eq_false (by simp [State.modify, State.new, hnone])]
      exact ⟨rfl, rfl, nofun, nofun, by rintro (h | h) <;> cases h⟩
    case isFalse hclosed =>
      obtain ⟨hconnection, hregisters⟩ := h (by simpa [State.new, State.modify] using hclosed)
      refine hi.next_new hnone (fun op => { op with
        watch  := s.connection
        flight := if s.connection then some .performPrompt else none
        refs   := op.refs + 1 }) rfl rfl ⟨hg.path, hg.connection, fun _ => hconnection, ?_, hg.stopped⟩ hi.goes
        (.inr ⟨rfl, by simp [hconnection, hregisters]⟩) ?_ rfl
      · exact fun _ => by simp [hconnection, hregisters]
      · simp only [hconnection, if_true, decide_true]
        exact ⟨rfl, rfl, fun _ => ⟨rfl, rfl⟩, nofun, by rintro (h | h) <;> cases h⟩

-- A call that does not complete the operation is over.
theorem Op.Valid.performed {pending : Bool} (hv : op.Valid pending) (hf : op.flight = some .performPrompt) :
    ({ ({ op with flight := none } : Op).unref with waiting := true } : Op).Valid pending where
  refs    := by
    have hrefs := hv.refs
    simp only [hf, Option.isSome_some, Bool.toNat_true] at hrefs
    simp only [Op.unref, Option.isSome_none, Bool.toNat_false]
    omega
  token   := by
    have htoken := hv.token
    rwa [hf, Option.any_some] at htoken
  sources := nofun
  stops   := nofun
  opens   := by rintro (h | h) <;> cases h

-- The prompter was told to stop.
theorem Op.Valid.stopped {pending : Bool} (hv : op.Valid pending) (hf : op.flight = some .stopPrompting) :
    ({ op with flight := none } : Op).complete.unref.Valid pending where
  refs    := by
    have hrefs := hv.refs
    simp only [hf, Option.isSome_some, Bool.toNat_true] at hrefs
    simp only [Op.complete, Op.unref, Option.isSome_none, Bool.toNat_false]
    omega
  token   := by
    have htoken := hv.token
    simp only [hf, Option.any_some, Flight.completes, Bool.toNat_true] at htoken
    simp only [Op.complete, Op.unref, Option.any_none, Bool.toNat_false]
    omega
  sources := nofun
  stops   := nofun
  opens   := by rintro (h | h) <;> cases h

-- The callback that was scheduled is called.
theorem Op.Valid.idle {pending : Bool} (hv : op.Valid pending) (hidles : 0 < op.idles) :
    ({ op with idles := op.idles - 1 } : Op).complete.unref.Valid pending where
  refs    := by
    have hrefs := hv.refs
    simp only [Op.complete, Op.unref]
    omega
  token   := by
    have htoken := hv.token
    simp only [Op.complete, Op.unref]
    omega
  sources := hv.sources
  stops   := hv.stops
  opens   := hv.opens

-- The operation that is pending is completed.
theorem Op.Valid.complete (hv : op.Valid true) : op.complete.unref.Valid false where
  refs    := by
    have hrefs := hv.refs
    simp only [Op.complete, Op.unref, Bool.toNat_true, Bool.toNat_false] at hrefs ⊢
    omega
  token   := by
    have htoken := hv.token
    simp only [Op.complete, Op.unref, Bool.toNat_true, Bool.toNat_false] at htoken ⊢
    omega
  sources := hv.sources
  stops   := hv.stops
  opens   := hv.opens

-- A callback gives up a reference that it has.
theorem Op.Valid.unref {pending : Bool} (hv : op.Valid pending) (hheld : 0 < op.held) :
    ({ op.unref with held := op.held - 1 } : Op).Valid pending where
  refs    := by
    have hrefs := hv.refs
    simp only [Op.unref]
    omega
  token   := hv.token
  sources := hv.sources
  stops   := hv.stops
  opens   := hv.opens

-- The prompter has a response for the operation that is pending.
theorem Inv.next_promptMethodReady (hi : Inv s) {response : Bytes} {exchange : Option (Option Bytes)}
    (hregistered : s.registered = true) : Next s (promptMethodReady s response exchange) := by
  have hclosed := hi.globals.connection (hi.globals.registered hregistered)
  have hg := hi.globals
  unfold promptMethodReady
  split
  case h_1 => exact ⟨hi, fun _ => .inl, fun _ hlt => absurd hlt (lt_irrefl _)⟩
  case h_2 res hres =>
    have hv := hi.ops.valid res (hi.pending res hres).1
    rw [decide_eq_true hres] at hv
    refine ⟨⟨?_, ⟨hg.path, hg.connection, hg.registered, hg.begun, hg.stopped⟩, by rintro _ ⟨⟩, hi.goes⟩, fun _ _ => .inr rfl,
      fun _ _ htrue => ?_⟩
    · refine hi.ops.change res (fun j hj => ?_) (fun j hj => ?_) le_rfl (fun _ => .inl) (hi.pending res hres).1 ?_
      · rw [State.modify_ops, if_neg hj]
      · simpa [hres] using Ne.symm hj
      · rw [State.modify_ops, if_pos rfl]
        exact hv.complete
    · have htrue' : s.closed = true := htrue
      simp [hclosed] at htrue'

-- There is nothing to stop any more.
theorem Inv.next_promptMethodDone (hi : Inv s) : Next s (promptMethodDone s) := by
  have hg := hi.globals
  have hi' : Inv { s with begunPrompting := false } := ⟨⟨hi.ops.valid, hi.ops.fresh⟩,
    ⟨hg.path, hg.connection, hg.registered, by simp, le_trans (Nat.le_add_right _ _) hg.stopped⟩, hi.pending, hi.goes⟩
  exact ⟨hi'.performClose, hi'.next_performClose.kept, hi'.next_performClose.dismissed⟩

theorem Inv.next_onPrompterPresent (hi : Inv s) : Next s (onPrompterPresent s) where
  inv       := ⟨⟨hi.ops.valid, hi.ops.fresh⟩,
    ⟨hi.globals.path, hi.globals.connection, hi.globals.registered, hi.globals.begun, hi.globals.stopped⟩, hi.pending,
    hi.goes⟩
  kept      := fun _ => .inl
  dismissed := fun _ hlt => absurd hlt (lt_irrefl _)

theorem Op.Valid.cancelled {pending : Bool} (hv : op.Valid pending) : ({ op with cancelled := true } : Op).Valid pending :=
  ⟨hv.refs, hv.token, hv.sources, hv.stops, hv.opens⟩

theorem Inv.next_cancel (hi : Inv s) (hlt : i < s.next) : Next s (s.modify i fun op => { op with cancelled := true }) :=
  hi.next_modify hlt (hi.ops.valid i hlt).cancelled fun h => absurd h (lt_irrefl _)

theorem Inv.next_onPrompterVanished (hi : Inv s) (hlt : i < s.next) : Next s (onPrompterVanished s i) := by
  have hnext := hi.next_cancel hlt
  have hg := hnext.inv.globals
  unfold onPrompterVanished
  split
  case isFalse => exact ⟨hi, fun _ => .inl, fun _ hlt => absurd hlt (lt_irrefl _)⟩
  case isTrue  =>
    exact ⟨⟨⟨hnext.inv.ops.valid, hnext.inv.ops.fresh⟩, ⟨hg.path, hg.connection, hg.registered, hg.begun, hg.stopped⟩,
      hnext.inv.pending, hi.goes⟩, hnext.kept, hnext.dismissed⟩

theorem Inv.next_onCallCancelled (hi : Inv s) (hlt : i < s.next) : Next s (onCallCancelled s i) := by
  have hv := hi.ops.valid i hlt
  have hi' := hi.modify (f := fun op => { op with waiting := false, failed := true }) hlt
    ⟨hv.refs, hv.token, fun hsome => ⟨rfl, (hv.sources hsome).2⟩, hv.stops, hv.opens⟩
  refine .of_closed (hi'.closeAsync false) (closeAsync_pending _ _) fun j => (closeAsync_calls _ _ j).trans ?_
  rw [State.modify_ops]
  split
  case isTrue hj => exact hj ▸ le_rfl
  case isFalse   => exact le_rfl

theorem Op.lt_next_of_refs (hi : Inv s) (hrefs : 0 < (s.ops i).refs) : i < s.next :=
  hi.ops.lt_next (i := i) fun heq => by simp [heq] at hrefs

theorem when_all {c : Prop} [Decidable c] {o : Outcome State} {p : State → Prop} (h : c → o.All p) :
    (when c o).All p := by
  unfold when
  split
  case isTrue hc => exact h hc
  case isFalse   => exact .refused

theorem handleLastResponse_eq_proceed : handleLastResponse s = .proceed ↔ s.lastResponse = some replyYes := by
  unfold handleLastResponse
  split
  case h_1 hnone => simp [hnone]
  case h_2 response hresponse =>
    rw [hresponse, Option.some.injEq]
    split
    case isTrue hyes => simp [hyes]
    case isFalse hno => simp [hno]

-- What a callback finds when the prompt is closed is that there is no answer.
theorem Regular.dismissed (hr : Regular s (.idle i)) (hclosed : s.closed = true) {f : Op → Op}
    (hkind : (f (s.ops i)).kind = (s.ops i).kind) (hfailed : (f (s.ops i)).failed = (s.ops i).failed) :
    (s.modify i f).Dismissed i := by
  have hself : (s.modify i f).ops i = f (s.ops i) := by rw [State.modify_ops, if_pos rfl]
  have hproceed : handleLastResponse (s.modify i f) = .proceed ↔ s.lastResponse = some replyYes :=
    handleLastResponse_eq_proceed
  refine ⟨fun hpassword => ?_, fun hconfirm => ?_⟩
  · rw [hself, hkind] at hpassword
    unfold passwordFinish
    rw [hself, hfailed]
    rcases hr.password i rfl hclosed hpassword with heq | hne | hsecret
    · rw [if_pos heq]
    · rw [if_neg (fun h => hne (hproceed.mp h)), ite_self]
    · have hsecret' : (s.modify i f).secret = none := hsecret
      rw [hsecret', ite_self, ite_self]
  · rw [hself, hkind] at hconfirm
    unfold confirmFinish
    rw [hself, hfailed]
    rcases hr.confirm i rfl hclosed hconfirm with heq | hne
    · rw [if_pos heq]
    · cases hlast : handleLastResponse (s.modify i f)
      case cancel  => rw [ite_self]
      case proceed => exact absurd (hproceed.mp hlast) hne

theorem Inv.next (hi : Inv s) (hr : Regular s e) : (after s e).All (Next s) := by
  cases e
  case init keeps                         => exact hi.next_realInitAsync (hr.init keeps rfl)
  case busConnected i connected registers =>
    have ⟨hconnection, hclosed⟩ := hr.bus i connected registers rfl
    exact when_all fun hf => hi.next_onBusConnected hf hconnection hclosed
  case beginPrompting i ok                =>
    have ⟨hconnection, hok⟩ := hr.begins i ok rfl
    exact when_all fun hf => hi.next_onPrompterBeginPrompting hf hconnection hok
  case password keeps registers           => exact .ok (hi.next_performPromptAsync (hr.prompt _ _ (.inl rfl)))
  case confirm keeps registers            => exact .ok (hi.next_performPromptAsync (hr.prompt _ _ (.inr rfl)))
  case performPrompt i ok                 =>
    refine when_all fun hf => ?_
    have hlt := hi.ops.lt_next (i := i) fun heq => by simp [heq] at hf
    have hv := hi.ops.valid i hlt
    unfold onPerformPromptComplete
    simp only
    rw [hr.perform i ok rfl, if_neg (by decide), if_neg]
    · rw [State.modify_modify]
      exact .ok (hi.next_modify hlt (hv.performed hf) fun h => absurd h (lt_irrefl _))
    · rw [State.modify_ops, if_pos rfl]
      simp [(hv.sources (by simp [hf])).1]
  case ready response exchange            => exact when_all fun h => .ok (hi.next_promptMethodReady h)
  case done                               => exact when_all fun _ => .ok hi.next_promptMethodDone
  case present i                          => exact when_all fun _ => .ok hi.next_onPrompterPresent
  case vanished i                         =>
    exact when_all fun h => .ok (hi.next_onPrompterVanished (Op.lt_next_of_refs hi h.2))
  case timeout i                          => exact absurd rfl (hr.timeout i)
  case cancel i                           => exact when_all fun hlt => .ok (hi.next_cancel hlt)
  case cancelled i                        =>
    exact when_all fun h => .ok (hi.next_onCallCancelled (Op.lt_next_of_refs hi h.2.2))
  case close keeps                        =>
    exact .ok (.of_closed (hi.closeAsync keeps) (closeAsync_pending _ _) (closeAsync_calls _ _))
  case promptClose                        =>
    refine .ok ?_
    unfold realClose
    split
    case isTrue  => exact ⟨hi, fun _ => .inl, fun _ hlt => absurd hlt (lt_irrefl _)⟩
    case isFalse => exact hi.next_performClose
  case stopPrompting i                    =>
    refine when_all fun hf => .ok ?_
    have hlt := hi.ops.lt_next (i := i) fun heq => by simp [heq] at hf
    have hv := hi.ops.valid i hlt
    refine hi.next_modify hlt (hv.stopped hf) fun _ _ => State.dismissed ?_ ?_
    all_goals
      rw [State.modify_ops, if_pos rfl]
      simp [Op.complete, Op.unref, hv.stops hf]
  case idle i                             =>
    refine when_all fun hidles => .ok ?_
    have hlt := hi.ops.lt_next (i := i) fun heq => by simp [heq] at hidles
    exact hi.next_modify hlt ((hi.ops.valid i hlt).idle hidles) fun _ hclosed => hr.dismissed hclosed rfl rfl
  case unref i                            =>
    refine when_all fun hheld => .ok ?_
    have hlt := hi.ops.lt_next (i := i) fun heq => by simp [heq] at hheld
    exact hi.next_modify hlt ((hi.ops.valid i hlt).unref hheld) fun h => absurd h (lt_irrefl _)

theorem Next.correct (hn : Next s s') : Correct s s' where
  goes      := hn.inv.goes
  once      := fun i => by
    by_cases hlt : i < s'.next
    case pos =>
      have htoken := (hn.inv.ops.valid i hlt).token
      omega
    case neg => simp [hn.inv.ops.fresh i (Nat.le_of_not_lt hlt)]
  awaited   := fun i hlt hcalls => by
    have htoken := (hn.inv.ops.valid i hlt).token
    by_cases hpending : s'.pending = some i
    case pos =>
      have hregistered := (hn.inv.pending i hpending).2
      exact .inr (.inr ⟨hpending, hn.inv.globals.registered hregistered, hregistered⟩)
    case neg =>
      rw [decide_eq_false hpending, Bool.toNat_false, hcalls] at htoken
      cases hcompletes : (s'.ops i).flight.any Flight.completes
      case false =>
        rw [hcompletes, Bool.toNat_false] at htoken
        exact .inl (by omega)
      case true  => exact .inr (.inl ((Option.any_eq_true _ _).mp hcompletes))
  released  := fun i => by
    unfold State.holders
    by_cases hlt : i < s'.next
    case pos => exact (hn.inv.ops.valid i hlt).refs
    case neg =>
      have hpending : s'.pending ≠ some i := fun h => hlt (hn.inv.pending i h).1
      simp [hn.inv.ops.fresh i (Nat.le_of_not_lt hlt), hpending]
  pending   := fun i hpending => by
    have htoken := (hn.inv.ops.valid i (hn.inv.pending i hpending).1).token
    rw [decide_eq_true hpending, Bool.toNat_true] at htoken
    omega
  kept      := hn.kept
  stopped   := le_trans (Nat.le_add_right _ _) hn.inv.globals.stopped
  dismissed := hn.dismissed

theorem Inv.step (hi : Inv s) (hs : Step s e s') (hr : Regular s e) : Next s s' := by
  obtain ⟨hne, hall⟩ := Outcome.all_iff.mp (hi.next hr)
  rcases hs.2 with hok | ⟨haborted, -⟩
  · exact hall s' hok
  · exact absurd haborted hne

variable {ts : List (State × Event × State)}

theorem Run.correct_of_regular (r : Run ts s) (h : ∀ t ∈ ts, Regular t.1 t.2.1) : ∀ t ∈ ts, Correct t.1 t.2.2 :=
  (r.restrict h).forall_step (Q := fun s _ s' => Correct s s') inv_init (fun _ _ _ hi hs => (hi.step hs.1 hs.2).inv)
    fun _ _ _ hi hs => (hi.step hs.1 hs.2).correct

theorem Regular.of_init {keeps : Bool} (h : s.connection = true → s.begunPrompting = true → s.pending = none) :
    Regular s (.init keeps) :=
  ⟨fun _ _ => h, nofun, nofun, fun _ _ h => h.elim nofun nofun, nofun, nofun, nofun, nofun⟩

theorem Regular.of_busConnected {connected registers : Bool} (hconnection : s.connection = false)
    (hclosed : connected = true → s.closed = false) : Regular s (.busConnected i connected registers) :=
  ⟨nofun, fun _ _ _ h => by cases h; exact ⟨hconnection, hclosed⟩, nofun, fun _ _ h => h.elim nofun nofun, nofun, nofun, nofun,
    nofun⟩

theorem Regular.of_beginPrompting {ok : Bool} (hconnection : s.connection = true)
    (hok : ok = true → s.pending = none ∧ s.registered = true) : Regular s (.beginPrompting i ok) :=
  ⟨nofun, nofun, fun _ _ h => by cases h; exact ⟨hconnection, hok⟩, fun _ _ h => h.elim nofun nofun, nofun, nofun, nofun,
    nofun⟩

theorem Regular.of_ready {response : Bytes} {exchange : Option (Option Bytes)} : Regular s (.ready response exchange) :=
  ⟨nofun, nofun, nofun, fun _ _ h => h.elim nofun nofun, nofun, nofun, nofun, nofun⟩

-- A prompt that is opened and has an answer.
theorem Run.correct_ready :
    ∃ ts s, Run ts s ∧ ts.map (·.2.1) = [.ready replyYes none, .beginPrompting 0 true, .busConnected 0 true true,
      .init false] ∧ ∀ t ∈ ts, Correct t.1 t.2.2 := by
  have r₀ : Run [] {} := .start ⟨_, rfl⟩
  have r₁ : Run _ _ := .step (e := .init false) r₀ ⟨rfl, .inl rfl⟩
  have r₂ : Run _ _ := .step (e := .busConnected 0 true true) r₁ ⟨rfl, .inl rfl⟩
  have r₃ : Run _ _ := .step (e := .beginPrompting 0 true) r₂ ⟨rfl, .inl rfl⟩
  have r₄ : Run _ _ := .step (e := .ready replyYes none) r₃ ⟨rfl, .inl rfl⟩
  refine ⟨_, _, r₄, rfl, r₄.correct_of_regular ?_⟩
  simp only [List.forall_mem_cons]
  exact ⟨Regular.of_ready, .of_beginPrompting (by decide) fun _ => ⟨rfl, by decide⟩, .of_busConnected rfl fun _ => rfl,
    .of_init fun h => absurd h (by decide), by simp⟩

-- When the timeout is over, the operation is completed by what closes the prompt, and once more.
theorem Run.not_correct : ¬∀ ts s, Run ts s → ∀ t ∈ ts, Correct t.1 t.2.2 := by
  intro h
  have r₀ : Run [] { timeoutSeconds := 1 } := .start ⟨_, rfl⟩
  have r₁ : Run _ _ := .step (e := .init false) r₀ ⟨rfl, .inl rfl⟩
  have r₂ : Run _ _ := .step (e := .busConnected 0 true true) r₁ ⟨rfl, .inl rfl⟩
  have r₃ : Run _ _ := .step (e := .beginPrompting 0 true) r₂ ⟨rfl, .inl rfl⟩
  have r₄ : Run _ _ := .step (e := .timeout 0) r₃ ⟨rfl, .inl rfl⟩
  exact absurd ((h _ _ r₄ _ List.mem_cons_self).once 0) (by decide)

end SystemPrompt
