import GcrModel.Gcr.GnupgProcess.Theorems.Lines
import GcrModel.Library.Table

-- What a run does to one of its descriptors.
namespace GnupgProcess

open GLib

section Channel

variable {β : Type*} {f : β → Report → β}

theorem readOutput_eq (reads : Reads) : readOutput reads = if reads.fails then none else some reads.bytes := by
  induction reads
  case full bytes more ih =>
    rw [readOutput, ih, Reads.fails, Reads.bytes]
    cases more.fails <;> rfl
  case short bytes => rfl
  case interrupted => rfl
  case failed      => rfl

-- A descriptor that is open gets on by the data that is read, until it is closed.
def gate (f : β → Report → β) (x : Bool × β) (r : Report) : Bool × β :=
  if x.1 then (!r.closes, if r.succeeds then f x.2 r else x.2) else x

theorem foldl_gate (rs : List Report) (opened : Bool) (b : β) :
    (rs.foldl (gate f) (opened, b)).2 =
      ((if opened then live rs else []).filter Report.succeeds).foldl f b := by
  induction rs generalizing opened b
  case nil => cases opened <;> rfl
  case cons r rs ih =>
    cases opened
    case false =>
      rw [List.foldl_cons, gate, if_neg Bool.false_ne_true]
      exact ih false b
    case true =>
      rw [List.foldl_cons, gate, if_pos rfl, ih, live]
      cases hr : r.closes <;> cases hd : r.succeeds <;> simp [hd]

namespace Source

variable {s : Source} {fd fd' : Fd} {report : Report} {due : Bool} {handler : Source → Bool × Source} {hasInput : Bool}
  {poll : Poll}

theorem view_note (view : Source → β) (hgone : ∀ s gone, view { s with gone } = view s) :
    view (s.note fd report) = view s := by
  rw [note]
  split
  case isTrue  => exact hgone ..
  case isFalse => rfl

theorem view_settle (view : Source → β) (hclose : ∀ s, view (s.closePoll fd) = view s) (handled : Bool × Source) :
    view (settle fd report handled) = view handled.2 := by
  rw [settle]
  split
  case isTrue  => exact hclose _
  case isFalse => rfl

theorem opened_settle (handled : Bool × Source) :
    (settle fd report handled).opened fd = (handled.2.opened fd && handled.1 && !report.ioHup) := by
  cases hhup : report.ioHup <;> cases hkept : handled.1 <;> simp [settle, closePoll, hhup, hkept]

-- What is not about a descriptor is not changed by its poll.
theorem dispatchPoll_other (view : Source → β) (hgone : ∀ s gone, view { s with gone } = view s)
    (hclose : ∀ s, view (s.closePoll fd) = view s) (hh : ∀ s, view (handler s).2 = view s) :
    view (s.dispatchPoll fd report due handler) = view s := by
  rw [dispatchPoll]
  split
  case isFalse => rfl
  case isTrue =>
    rw [view_settle view hclose]
    split
    case isTrue  => rw [hh, view_note view hgone]
    case isFalse => exact view_note view hgone

-- The poll of a descriptor that is read.
theorem dispatchPoll_own (view : Source → β) (hgone : ∀ s gone, view { s with gone } = view s)
    (hclose : ∀ s, view (s.closePoll fd) = view s) (hopened : ∀ s, (handler s).2.opened = s.opened)
    (hh : report.ioIn → ∀ s, (handler s).1 = !report.reads.fails ∧
      view (handler s).2 = if report.reads.fails then view s else f (view s) report) :
    ((s.dispatchPoll fd report report.ioIn handler).opened fd,
      view (s.dispatchPoll fd report report.ioIn handler)) = gate f (s.opened fd, view s) report := by
  have hnote : (s.note fd report).opened = s.opened := view_note opened fun _ _ => rfl
  have hkept : view (s.note fd report) = view s := view_note view hgone
  rw [dispatchPoll, gate]
  cases hfd : s.opened fd
  case false => simp [hfd]
  case true =>
    rw [if_pos rfl, if_pos rfl, opened_settle, view_settle view hclose]
    cases hin : report.ioIn
    case false => simp [Report.succeeds, Report.closes, Report.fails, hin, hnote, hkept, hfd]
    case true =>
      obtain ⟨htold, hview⟩ := hh hin (s.note fd report)
      cases hfails : report.reads.fails <;>
        simp [Report.succeeds, Report.closes, Report.fails, hin, hfails, htold, hview, hopened, hnote, hkept, hfd]

theorem onInput_other (view : Source → β) (h : ∀ s inputBuf, view { s with inputBuf } = view s) (feed : Feed) :
    view (s.onInput hasInput feed).2 = view s := by
  simp only [onInput]
  split
  case isTrue => cases feed.write <;> simp [h]
  case isFalse =>
    split
    case isTrue => rfl
    case isFalse =>
      split
      case h_1 => rfl
      case h_2 => rfl
      case h_3 => cases feed.write <;> simp [h]

def ready (report : Report) : Fd → Bool
  | .input => report.ioOut
  | _      => report.ioIn

def handle (hasInput : Bool) (poll : Poll) : Fd → Source → Bool × Source
  | .input     => (·.onInput hasInput poll.feed)
  | .output    => (·.onOutput (poll.report .output).reads)
  | .error     => (·.onError (poll.report .error).reads (poll.report .error).ioHup)
  | .status    => (·.onStatus (poll.report .status).reads)
  | .attribute => (·.onAttribute (poll.report .attribute).reads)

theorem dispatchFds_eq (s : Source) (hasInput : Bool) (poll : Poll) :
    s.dispatchFds hasInput poll = [.input, .status, .attribute, .output, .error].foldl
      (fun s fd => s.dispatchPoll fd (poll.report fd) (ready (poll.report fd) fd) (handle hasInput poll fd)) s :=
  rfl

-- What a descriptor has given.
structure Text where
  taken  : Bytes := []
  buffer : Bytes := []
  lines  : List Bytes := []

def Text.data (t : Text) (r : Report) : Text :=
  { t with taken := t.taken ++ r.bytes }

def Text.read (flush : Report → Bool) (t : Text) (r : Report) : Text where
  taken  := t.taken ++ r.bytes
  buffer := (parseLines (t.buffer ++ r.bytes) (flush r)).2
  lines  := t.lines ++ (parseLines (t.buffer ++ r.bytes) (flush r)).1

def text (s : Source) : Fd → Text
  | .input     => {}
  | .output    => { taken := s.output }
  | .error     => { taken := s.errorTaken, buffer := s.errorBuf, lines := s.errorLines }
  | .status    => { taken := s.statusTaken, buffer := s.statusBuf, lines := s.statusLines }
  | .attribute => { taken := s.attributes }

def Text.take : Fd → Text → Report → Text
  | .error     => Text.read (·.ioHup)
  | .status    => Text.read (·.bytes = [])
  | _          => Text.data

-- The input is not one of them.
def channel (s : Source) (fd : Fd) : Bool × Text :=
  (fd ≠ .input && s.opened fd, s.text fd)

theorem channel_gone (s : Source) (gone : Fd → Bool) : channel { s with gone } fd = channel s fd := by
  cases fd <;> rfl

theorem handle_own (s : Source) (hfd : fd ≠ .input) (hin : (poll.report fd).ioIn) :
    (handle hasInput poll fd s).1 = !(poll.report fd).reads.fails ∧
      (handle hasInput poll fd s).2.text fd =
        if (poll.report fd).reads.fails then s.text fd else Text.take fd (s.text fd) (poll.report fd) := by
  cases fd <;> first | exact absurd rfl hfd | skip
  all_goals
    simp only [handle, onOutput, onError, onStatus, onAttribute, readOutput_eq]
    split <;> simp_all [Text.take, Text.data, Text.read, Report.bytes, text]

theorem handle_other (s : Source) (h : fd' ≠ fd) : (handle hasInput poll fd s).2.channel fd' = s.channel fd' := by
  cases fd
  case input => exact onInput_other (channel · fd') (fun s inputBuf => by cases fd' <;> rfl) poll.feed
  all_goals
    simp only [handle, onOutput, onError, onStatus, onAttribute]
    split
    · rfl
    · cases fd' <;> first | exact absurd rfl h | rfl

-- The handlers are not about the descriptors themselves nor about the process.
def frame (s : Source) : (Fd → Bool) × (Fd → Bool) × Bool × Bool :=
  (s.opened, s.gone, s.childPid, s.childSig)

theorem handle_frame (s : Source) : (handle hasInput poll fd s).2.frame = s.frame := by
  cases fd
  case input => exact onInput_other frame (fun _ _ => rfl) poll.feed
  all_goals
    simp only [handle, onOutput, onError, onStatus, onAttribute]
    split <;> rfl

theorem handle_opened (s : Source) : (handle hasInput poll fd s).2.opened = s.opened :=
  congrArg Prod.fst (handle_frame s)

theorem text_closePoll (s : Source) (fd fd' : Fd) : (s.closePoll fd).text fd' = s.text fd' := by
  cases fd' <;> rfl

theorem channel_own (s : Source) (fd : Fd) :
    (s.dispatchPoll fd (poll.report fd) (ready (poll.report fd) fd) (handle hasInput poll fd)).channel fd =
      gate (Text.take fd) (s.channel fd) (poll.report fd) := by
  by_cases hfd : fd = .input
  case pos => simp [hfd, channel, gate, text]
  case neg =>
    have hready : ready (poll.report fd) fd = (poll.report fd).ioIn := by
      cases fd <;> first | exact absurd rfl hfd | rfl
    have hopen (s : Source) : s.channel fd = (s.opened fd, s.text fd) := by
      simp [channel, hfd]
    rw [hready, hopen, hopen]
    apply dispatchPoll_own (text · fd)
    case hgone   => exact fun s gone => congrArg Prod.snd (channel_gone s gone)
    case hclose  => exact fun s => text_closePoll s fd fd
    case hopened => exact fun s => handle_opened s
    case hh      => exact fun hin s => handle_own s hfd hin

theorem channel_other (s : Source) (h : fd' ≠ fd) :
    (s.dispatchPoll fd report due (handle hasInput poll fd)).channel fd' = s.channel fd' := by
  apply dispatchPoll_other (channel · fd')
  case hgone  => exact fun s gone => channel_gone s gone
  case hclose =>
    intro s
    have hopened : (s.closePoll fd).opened fd' = s.opened fd' := Function.update_of_ne h ..
    rw [channel, channel, text_closePoll, hopened]
  case hh     => exact fun s => handle_other s h

-- Each poll is about its own descriptor.
theorem channel_dispatchFds (s : Source) (fd : Fd) :
    (s.dispatchFds hasInput poll).channel fd = gate (Text.take fd) (s.channel fd) (poll.report fd) := by
  obtain ⟨hall, -⟩ := Table.foldl_view channel id (φ := fun fd x => gate (Text.take fd) x (poll.report fd))
    (fun s fd => ⟨channel_own s fd, fun _ h => channel_other s h⟩)
    (l := [.input, .status, .attribute, .output, .error]) (by decide) s
  rw [dispatchFds_eq]
  apply hall
  cases fd <;> simp

end Source

theorem Run.text_final (run : Run) (fd : Fd) (h : fd ≠ .input) :
    run.final.text fd = (run.reads fd).foldl (Source.Text.take fd) {} := by
  have hfold (polls : List Poll) (s : Source) : (polls.foldl (·.dispatchFds run.hasInput) s).channel fd =
      (polls.map (·.report fd)).foldl (gate (Source.Text.take fd)) (s.channel fd) := by
    induction polls generalizing s
    case nil             => rfl
    case cons poll ps ih => rw [List.foldl_cons, List.map_cons, List.foldl_cons, ih, Source.channel_dispatchFds]
  have hstart : Source.channel { opened := run.opened } fd = (run.opened fd, {}) := by
    cases fd <;> first | exact absurd rfl h | simp [Source.channel, Source.text]
  have hfinal : (run.final.channel fd).2 = run.final.text fd := rfl
  rw [← hfinal, Run.final, hfold, hstart, foldl_gate, Run.reads, Run.reports]

end Channel

section Connected

variable {s : Source} {fd : Fd} {poll : Poll} {hasInput : Bool}

-- A descriptor whose other end is gone is reported as such, or the call that it is ready for fails. There are pipes.
def Poll.Regular (poll : Poll) : Prop :=
  ∀ fd, (poll.report fd).ioErr → (poll.report fd).ioHup ∨
    if fd = .input then (poll.report fd).ioOut ∧ poll.feed.write = none
    else (poll.report fd).ioIn ∧ (poll.report fd).reads.fails

namespace Source

-- What holds of the source after each of the polls holds after all of them.
theorem dispatchFds_induction {c : Source → Prop} (h : c s) (hpoll : ∀ s fd, c s →
    c (s.dispatchPoll fd (poll.report fd) (ready (poll.report fd) fd) (handle hasInput poll fd))) :
    c (s.dispatchFds hasInput poll) := by
  rw [dispatchFds_eq]
  generalize [Fd.input, .status, .attribute, .output, .error] = fds
  induction fds generalizing s
  case nil           => exact h
  case cons fd fds ih => exact ih (hpoll s fd h)

theorem dispatchFds_child (s : Source) (hasInput : Bool) (poll : Poll) :
    let s' := s.dispatchFds hasInput poll
    s'.childPid = s.childPid ∧ s'.childSig = s.childSig := by
  let view (s : Source) : Bool × Bool := (s.childPid, s.childSig)
  have hview : view (s.dispatchFds hasInput poll) = view s := by
    refine dispatchFds_induction (c := fun t => view t = view s) rfl fun t fd h => ?_
    rw [dispatchPoll_other view (fun _ _ => rfl) (fun _ => rfl) fun t => congrArg (·.2.2) (handle_frame t)]
    exact h
  exact Prod.mk.inj hview

-- The descriptors that are open are those whose other end is there.
def Connected (s : Source) : Prop :=
  ∀ fd, s.opened fd → s.gone fd = false

-- Without the other end the handler fails.
theorem handle_fails (hasInput : Bool) (h : poll.Regular) (herr : (poll.report fd).ioErr)
    (hhup : (poll.report fd).ioHup = false) :
    ready (poll.report fd) fd = true ∧ ∀ s, (handle hasInput poll fd s).1 = false := by
  have hf := (h fd herr).resolve_left (by simp [hhup])
  by_cases hfd : fd = .input
  case pos =>
    subst hfd
    rw [if_pos rfl] at hf
    refine ⟨hf.1, fun s => ?_⟩
    simp only [handle, onInput, hf.2]
    split
    case isTrue => rfl
    case isFalse =>
      split
      case isTrue => rfl
      case isFalse =>
        cases poll.feed.read
        case none      => rfl
        case some data => cases data <;> rfl
  case neg =>
    rw [if_neg hfd] at hf
    refine ⟨?_, fun s => ?_⟩
    · cases fd <;> first | exact absurd rfl hfd | exact hf.1
    · rw [(handle_own s hfd hf.1).1, hf.2]
      rfl

theorem gone_note_ne (s : Source) {fd' : Fd} (h : fd' ≠ fd) : (s.note fd (poll.report fd)).gone fd' = s.gone fd' := by
  rw [note]
  split
  case isTrue  => exact Function.update_of_ne h ..
  case isFalse => rfl

theorem gone_note (s : Source) (hhup : (poll.report fd).ioHup = false) (herr : (poll.report fd).ioErr = false)
    (h : s.gone fd = false) : (s.note fd (poll.report fd)).gone fd = false := by
  rw [note]
  split
  case isTrue  => simp [hhup, herr]
  case isFalse => exact h

theorem Connected.dispatchPoll (c : s.Connected) (h : poll.Regular) (fd : Fd) :
    (s.dispatchPoll fd (poll.report fd) (ready (poll.report fd) fd) (handle hasInput poll fd)).Connected := by
  intro fd' hopen
  rw [Source.dispatchPoll] at hopen ⊢
  by_cases hfd : s.opened fd
  case neg =>
    rw [if_neg hfd] at hopen ⊢
    exact c fd' hopen
  case pos =>
    rw [if_pos hfd] at hopen ⊢
    let handled := if ready (poll.report fd) fd then handle hasInput poll fd (s.note fd (poll.report fd))
      else (true, s.note fd (poll.report fd))
    have hframe : handled.2.frame = (s.note fd (poll.report fd)).frame := by
      simp only [handled]
      split
      case isTrue  => exact handle_frame _
      case isFalse => rfl
    have hgone : (settle fd (poll.report fd) handled).gone = (s.note fd (poll.report fd)).gone :=
      (view_settle gone (fun _ => rfl) handled).trans (congrArg (·.2.1) hframe)
    have hopened : handled.2.opened = s.opened := (congrArg Prod.fst hframe).trans (view_note opened fun _ _ => rfl)
    rw [hgone]
    by_cases hne : fd' = fd
    case neg =>
      have hview : (settle fd (poll.report fd) handled).opened fd' = handled.2.opened fd' :=
        view_settle (opened · fd') (fun _ => Function.update_of_ne hne ..) handled
      rw [gone_note_ne s hne]
      refine c fd' ?_
      rw [← hopened, ← hview]
      exact hopen
    case pos =>
      subst hne
      have hstays : handled.2.opened fd' && handled.1 && !(poll.report fd').ioHup := (opened_settle handled).symm.trans hopen
      rw [Bool.and_eq_true, Bool.and_eq_true, Bool.not_eq_true'] at hstays
      refine gone_note s hstays.2 (Bool.eq_false_iff.mpr fun herr => ?_) (c fd' hfd)
      obtain ⟨hready, hfails⟩ := handle_fails hasInput h herr hstays.2
      have hkept := hstays.1.2
      simp only [handled, hready, if_true, hfails] at hkept
      cases hkept

theorem Connected.dispatchFds (c : s.Connected) (h : poll.Regular) : (s.dispatchFds hasInput poll).Connected :=
  dispatchFds_induction c fun _ fd c => c.dispatchPoll h fd

end Source

end Connected

end GnupgProcess
