import GcrModel.Gcr.Parser.Stream

namespace Parser.Stream

open GLib

variable {ε : Type*} {op : Operation ε} {p q r : Parsing ε} {bytes : Bytes} {start : Nat} {state : State} {id : Nat} {e : ε}

-- The machine completes.
def Completes (op : Operation ε) (p r : Parsing ε) : Prop :=
  ∃ fuel, Loop.run (Parsing.round op) fuel p = some (.completed r)

def Operation.Quiet (op : Operation ε) (n : Nat) : Prop :=
  ∀ m, op.cancelledAt = some m → n < m

theorem Operation.Quiet.mono {m n : Nat} (h : op.Quiet n) (hmn : m ≤ n) : op.Quiet m :=
  fun k hk => hmn.trans_lt (h k hk)

theorem cancelledNow_iff : p.cancelledNow op = false ↔ op.Quiet p.moment := by
  cases h : op.cancelledAt <;> simp [Parsing.cancelledNow, Operation.Quiet, h]

theorem completes_next (h : Parsing.round op p = .inr q) : Completes op p r ↔ Completes op q r := by
  constructor
  · rintro ⟨fuel, hr⟩
    cases fuel
    case zero      => cases hr
    case succ fuel => exact ⟨fuel, by rwa [Loop.run_of_next h] at hr⟩
  · rintro ⟨fuel, hr⟩
    exact ⟨fuel + 1, by rwa [Loop.run_of_next h]⟩

theorem completes_stop {s : Stop ε} (h : Parsing.round op p = .inl s) : Completes op p r ↔ s = .completed r := by
  constructor
  · rintro ⟨fuel, hr⟩
    cases fuel
    case zero      => cases hr
    case succ fuel =>
      rw [Loop.run_of_stop h] at hr
      exact Option.some.inj hr
  · rintro rfl
    exact ⟨1, Loop.run_of_stop h⟩

-- Once it is cancelled, every call of `nextState` is one of `stateCancelled`.
theorem next_of_cancelled (hp : p.phase = .nextState state) (hc : p.cancelledNow op = true) :
    ∃ q, Parsing.round op p = .inr q ∧ q.phase = .nextState .failure ∧ q.cancelledNow op = true := by
  refine ⟨_, by rw [Parsing.round, hp]; simp only [hc, if_true]; rfl, rfl, ?_⟩
  cases hm : op.cancelledAt <;> simp only [Parsing.cancelledNow, hm, Option.any_some, Option.any_none, decide_eq_true_eq] at hc ⊢
  case none   => exact hc
  case some m => exact Nat.le_succ_of_le hc

theorem not_completes_of_cancelled (hp : p.phase = .nextState state) (hc : p.cancelledNow op = true) :
    ¬Completes op p r := by
  rintro ⟨fuel, h⟩
  have hstep : ∀ s t : Parsing ε, ((∃ state, s.phase = .nextState state) ∧ s.cancelledNow op = true) →
      Loop.Next (Parsing.round op) s t → (∃ state, t.phase = .nextState state) ∧ t.cancelledNow op = true := by
    rintro s t ⟨⟨state, hs⟩, hcs⟩ hst
    obtain ⟨q, hq, hphase, hcq⟩ := next_of_cancelled hs hcs
    cases Loop.Next.unique hst hq
    exact ⟨⟨_, hphase⟩, hcq⟩
  obtain ⟨t, ⟨⟨state, ht⟩, hct⟩, hs⟩ := Loop.invariant ⟨⟨state, hp⟩, hc⟩ hstep h
  obtain ⟨q, hq, _⟩ := next_of_cancelled ht hct
  cases hs.symm.trans hq

theorem round_nextState (hp : p.phase = .nextState state) (hq : op.Quiet p.moment) :
    Parsing.round op p = { p with moment := p.moment + 1 }.runState op state := by
  rw [Parsing.round, hp]
  simp only [(cancelledNow_iff).mpr hq, Bool.false_eq_true, if_false]

-- What a call of `nextState` comes to.
theorem completes_nextState (hp : p.phase = .nextState state) :
    Completes op p r ↔ op.Quiet p.moment ∧
      ((∃ q, { p with moment := p.moment + 1 }.runState op state = .inr q ∧ Completes op q r) ∨
        { p with moment := p.moment + 1 }.runState op state = .inl (.completed r)) := by
  cases hc : p.cancelledNow op
  case true =>
    have hq : ¬op.Quiet p.moment := fun hq => by cases ((cancelledNow_iff).mpr hq).symm.trans hc
    exact iff_of_false (not_completes_of_cancelled hp hc) fun h => hq h.1
  case false =>
    have hq := (cancelledNow_iff).mp hc
    rw [and_iff_right hq]
    have hround := round_nextState hp hq
    cases hs : { p with moment := p.moment + 1 }.runState op state
    case inl s =>
      rw [completes_stop (hround.trans hs)]
      simp
    case inr q =>
      rw [completes_next (hround.trans hs)]
      simp

variable {blocks : List { l : Bytes // 1 ≤ l.length ∧ l.length ≤ block }} {failure : Option ε} {buffer : Option Bytes}
  {moment : Nat}

-- The buffer with room for a block.
def widen (buffer : Bytes) : Bytes :=
  buffer ++ List.replicate block 0

-- The machine before a read and in it. There was no error yet.
def before (input : Input ε) (buffer : Option Bytes) (moment : Nat) : Parsing ε where
  phase  := .nextState .readBuffer
  input  := input
  buffer := buffer
  moment := moment

def during (input : Input ε) (buffer : Bytes) (moment : Nat) : Parsing ε where
  phase  := .reading buffer.length
  input  := input
  buffer := some (widen buffer)
  moment := moment

theorem completes_before {input : Input ε} :
    Completes op (before input buffer moment) r ↔
      op.Quiet moment ∧ (buffer.getD []).length + block < 4294967296 ∧
        Completes op (during input (buffer.getD []) (moment + 1)) r := by
  rw [completes_nextState rfl]
  refine and_congr_right fun _ => ?_
  simp only [before, Parsing.runState, Parsing.stateReadBuffer]
  by_cases h : 4294967296 ≤ (buffer.getD []).length + block
  · simp [h, not_lt.mpr h]
  · simp [during, widen, h, not_le.mp h]

theorem take_fill (bytes data : Bytes) :
    let filled := (widen bytes).take bytes.length ++ data ++ (widen bytes).drop (bytes.length + data.length)
    filled.take (filled.length - (block - data.length)) = bytes ++ data := by
  have hdrop : (widen bytes).drop (bytes.length + data.length) = List.replicate (block - data.length) 0 := by
    simp [widen]
  have htake : (widen bytes).take bytes.length = bytes := List.take_left
  have hlen (n : Nat) : (bytes ++ data ++ List.replicate n 0).length = (bytes ++ data).length + n := by
    rw [List.length_append, List.length_replicate]
  intro filled
  simp only [filled, hdrop, htake, hlen, Nat.add_sub_cancel]
  exact List.take_left

theorem completes_during_cons {data : { l : Bytes // 1 ≤ l.length ∧ l.length ≤ block }} :
    Completes op (during ⟨data :: blocks, failure⟩ bytes moment) r ↔
      Completes op (before ⟨blocks, failure⟩ (some (bytes ++ data)) moment) r := by
  refine completes_next ?_
  simp only [during, before, Parsing.round, Parsing.completeReadBuffer, Option.elim_some, Parsing.next, Parsing.goto,
    take_fill bytes data.1]

-- The blocks are read one after the other.
theorem completes_blocks :
    Completes op (before ⟨blocks, failure⟩ buffer moment) r ↔
      op.Quiet (moment + blocks.length) ∧
        (buffer.getD [] ++ blocks.flatMap Subtype.val).length + block < 4294967296 ∧
        Completes op
          (during ⟨[], failure⟩ (buffer.getD [] ++ blocks.flatMap Subtype.val) (moment + blocks.length + 1)) r := by
  induction blocks generalizing buffer moment
  case nil => simpa using completes_before
  case cons data blocks ih =>
    rw [completes_before, completes_during_cons, ih]
    have hm : moment + 1 + blocks.length = moment + (data :: blocks).length := by
      rw [List.length_cons]
      omega
    rw [hm, List.flatMap_cons, ← List.append_assoc, Option.getD_some]
    refine ⟨fun h => h.2.2, fun h => ⟨h.1.mono (Nat.le_add_right _ _), ?_, h⟩⟩
    have hlen := h.2.1
    simp only [List.length_append] at hlen
    omega

-- The next moment.
def tick (p : Parsing ε) : Parsing ε :=
  { p with moment := p.moment + 1 }

theorem completes_goto :
    Completes op (p.goto state) r ↔ op.Quiet p.moment ∧
      ((∃ q, ((tick p).goto state).runState op state = .inr q ∧ Completes op q r) ∨
        ((tick p).goto state).runState op state = .inl (.completed r)) :=
  completes_nextState rfl

-- The operation at its end.
def completed (op : Operation ε) (p : Parsing ε) : Parsing ε :=
  { (tick p).goto .complete with
    complete  := true
    callbacks := if op.async ∧ op.callback then p.callbacks + 1 else p.callbacks }

theorem completes_complete (hc : p.complete = false) :
    Completes op (p.goto .complete) r ↔ op.Quiet p.moment ∧ r = completed op p := by
  rw [completes_goto]
  have hc' : ((tick p).goto .complete).complete = false := hc
  simp only [Parsing.runState, Parsing.stateComplete, hc', Bool.false_eq_true, if_false, reduceCtorEq, false_and, exists_false,
    false_or, Sum.inl.injEq, Stop.completed.injEq]
  refine and_congr_right fun _ => eq_comm.trans ?_
  rfl

-- Where there is an error, it stays there.
theorem error_of_completes_failure (he : p.error = some id) (hc : p.complete = false)
    (h : Completes op (p.goto .failure) r) : r.error = some id := by
  have he' : ((tick p).goto .failure).error ≠ none := fun hn => by cases he.symm.trans hn
  obtain ⟨_, ⟨q, hq, h⟩ | h⟩ := (completes_goto).mp h
  · simp only [Parsing.runState, Parsing.stateFailure, he', if_false, Parsing.next, Sum.inr.injEq] at hq
    subst hq
    obtain ⟨_, rfl⟩ := (completes_complete (p := (tick p).goto .failure) hc).mp h
    exact he
  · simp [Parsing.runState, Parsing.stateFailure, he', Parsing.next] at h

theorem completes_parseBuffer (hb : p.buffer = some bytes) (he : p.error = none) (hc : p.complete = false) :
    Completes op (p.goto .parseBuffer) r ∧ r.error = none ↔
      op.Quiet (p.moment + 1) ∧ op.parseBytes bytes = .ok () ∧ r = completed op { tick p with buffer := none } := by
  rw [completes_goto]
  have hb' : ((tick p).goto .parseBuffer).buffer = some bytes := hb
  simp only [Parsing.runState, Parsing.stateParseBuffer, hb', Option.elim_some]
  cases hparse : op.parseBytes bytes
  case error e =>
    simp only [Parsing.next, reduceCtorEq, false_and, and_false, or_false, iff_false]
    rintro ⟨⟨_, q, hq, h⟩, hr⟩
    cases hq
    cases (error_of_completes_failure (by rfl) (by exact hc) h).symm.trans hr
  case ok =>
    simp only [Parsing.next, Sum.inr.injEq, exists_eq_left', reduceCtorEq, or_false, true_and]
    have hcomplete := @completes_complete ε op { (tick p).goto .parseBuffer with buffer := none } r hc
    rw [hcomplete]
    constructor
    · rintro ⟨⟨_, hq, rfl⟩, _⟩
      exact ⟨hq, rfl⟩
    · rintro ⟨hq, rfl⟩
      exact ⟨⟨hq.mono (Nat.le_succ _), hq, rfl⟩, he⟩

theorem completes_during_nil :
    Completes op (during ⟨[], failure⟩ bytes moment) r ∧ r.error = none ↔
      op.Quiet (moment + 1) ∧ failure.elim (op.parseBytes bytes) .error = .ok () ∧
        r = completed op (before ⟨[], failure⟩ none (moment + 1)) := by
  cases failure
  case none =>
    have hround : Parsing.round op (during ⟨[], none⟩ bytes moment) =
        .inr ({ during ⟨[], none⟩ bytes moment with buffer := some bytes }.goto .parseBuffer) := by
      have htake : (widen bytes).take ((widen bytes).length - block) = bytes := by simp [widen]
      simp only [during, Parsing.round, Parsing.completeReadBuffer, Option.elim_some, htake, Parsing.next]
    rw [completes_next hround]
    exact completes_parseBuffer rfl rfl rfl
  case some e =>
    have hround : Parsing.round op (during ⟨[], some e⟩ bytes moment) =
        .inr (((during ⟨[], some e⟩ bytes moment).setError e).goto .failure) := rfl
    rw [completes_next hround, Option.elim_some]
    refine iff_of_false ?_ fun h => by cases h.2.1
    rintro ⟨h, hr⟩
    cases (error_of_completes_failure (by rfl) (by rfl) h).symm.trans hr

def Input.contents (input : Input ε) : Bytes :=
  input.blocks.flatMap Subtype.val

-- What the operation comes to when nothing cancels it.
def outcome (op : Operation ε) (input : Input ε) : Except ε Unit :=
  input.failure.elim (op.parseBytes input.contents) .error

-- The machine completes without an error when nothing cancels it and nothing fails.
theorem completes_start {input : Input ε} :
    Completes op { input } r ∧ r.error = none ↔ op.Quiet (input.blocks.length + 2) ∧
      input.contents.length + block < 4294967296 ∧ outcome op input = .ok () ∧
      r = completed op (before ⟨[], input.failure⟩ none (input.blocks.length + 2)) := by
  have hstart := @completes_blocks ε op r input.blocks input.failure none 0
  rw [show ({ input } : Parsing ε) = before ⟨input.blocks, input.failure⟩ none 0 from rfl, hstart, and_assoc, and_assoc,
    completes_during_nil]
  simp only [Option.getD_none, List.nil_append, Nat.zero_add]
  constructor
  · rintro ⟨_, hlen, hq, hout, hr⟩
    exact ⟨hq, hlen, hout, hr⟩
  · rintro ⟨hq, hlen, hout, hr⟩
    exact ⟨hq.mono (Nat.le_add_right _ 2), hlen, hq, hout, hr⟩

-- What the caller gets, once the operation is released.
def Delivered (op : Operation ε) (p : Parsing ε) : Except ε Unit → Prop
  | .ok ()   => p.finish = (true, none)
  | .error e => ∃ id, p.finish = (false, some id) ∧ (p.release op).errors id = some e ∧ (p.release op).error ≠ some id

-- The error stays with the operation, which frees it when it is released.
theorem not_delivered (he : p.error = some id) (result : Except ε Unit) : ¬Delivered op p result := by
  cases result
  case ok => simp [Delivered, Parsing.finish, he]
  case error e =>
    rintro ⟨id', hfinish, hmem, hother⟩
    have hid : id' = id := by
      cases hc : p.complete <;> simp [Parsing.finish, he, hc] at hfinish
      exact hfinish.symm
    cases hid
    rw [Parsing.release] at hmem hother
    split at hmem
    · rw [if_pos ‹_›] at hother
      exact hother he
    · simp [Parsing.clearError, he] at hmem

-- What was to happen to the operation until it ended.
def expected (op : Operation ε) (input : Input ε) (p : Parsing ε) : Except ε Unit :=
  if op.cancelledAt.any (· < p.moment) then .error op.cancelled else outcome op input

-- The machine completes, once, and the caller gets what is expected, with an error that is its own.
def Parses (op : Operation ε) (input : Input ε) : Prop :=
  ∃ p, Completes op { input } p ∧ p.complete = true ∧
    p.callbacks = (if op.async ∧ op.callback then 1 else 0) ∧ Delivered op p (expected op input p)

theorem parses_iff (op : Operation ε) (input : Input ε) :
    Parses op input ↔ op.Quiet (input.blocks.length + 2) ∧ input.contents.length + block < 4294967296 ∧
      outcome op input = .ok () := by
  constructor
  · rintro ⟨p, hp, _, _, hd⟩
    have he : p.error = none := by
      by_contra hne
      obtain ⟨id, hid⟩ := Option.ne_none_iff_exists'.mp hne
      exact not_delivered hid _ hd
    obtain ⟨hq, hlen, hout, _⟩ := (completes_start).mp ⟨hp, he⟩
    exact ⟨hq, hlen, hout⟩
  · rintro ⟨hq, hlen, hout⟩
    obtain ⟨hp, _⟩ := (completes_start).mpr ⟨hq, hlen, hout, rfl⟩
    refine ⟨_, hp, rfl, by simp [completed, before], ?_⟩
    have hnever : op.cancelledAt.any (· < (completed op (before ⟨[], input.failure⟩ none (input.blocks.length + 2))).moment) = false := by
      cases hm : op.cancelledAt
      case none   => rfl
      case some m =>
        have hlt : input.blocks.length + 2 < m := hq m hm
        simp only [Option.any_some, decide_eq_false_iff_not, not_lt]
        exact hlt
    rw [expected, hnever, hout]
    rfl

-- An empty stream that is cancelled before the start.
def cancelledStart : Operation Unit where
  parseBytes _ := .ok ()
  cancelled    := ()
  cancelledAt  := some 0
  async        := false
  callback     := false

theorem not_parses_cancelledStart : ¬Parses cancelledStart ⟨[], none⟩ := by
  rintro ⟨p, hp, _⟩
  exact not_completes_of_cancelled (p := { input := ⟨[], none⟩ }) rfl rfl hp

end Parser.Stream
