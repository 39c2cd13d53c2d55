import GcrModel.GLib.Strings
import GcrModel.Library.Transition

-- gcr-gnupg-process.c: the source that moves data to and from a gnupg process. The lines are those of gcr-util.c.
namespace GnupgProcess

open GLib

-- `_gcr_util_parse_lines`: the lines for the callback and what is left of the string.
def parseLines (string : Bytes) (lastLine : Bool) : List Bytes × Bytes :=
  match _hptr : (cstr string).idxOf? newline with
  | some ptr =>
    let line := string.take ptr
    let more := parseLines (string.drop (ptr + 1)) lastLine
    ((if line.getLast? = some 13 then line.dropLast else line) :: more.1, more.2)
  | none     => if lastLine ∧ string ≠ [] then ([cstr string], []) else ([], string)
termination_by string.length
decreasing_by
  have hlt := (List.idxOf?_eq_some_iff.mp _hptr).1
  have hle := (List.takeWhile_sublist (l := string) (· ≠ 0)).length_le
  simp only [cstr] at hlt
  simp only [List.length_drop]
  omega

-- What the reads of one call of `readOutput` give. A short one has no bytes at the end of the file.
inductive Reads
  | full (bytes : { l : Bytes // l.length = 1024 }) (more : Reads)
  | short (bytes : { l : Bytes // l.length < 1024 })
  | interrupted
  | failed

def readOutput : Reads → Option Bytes
  | .full bytes more => (readOutput more).map (bytes ++ ·)
  | .short bytes     => some bytes
  | .interrupted     => some []
  | .failed          => none

inductive Fd
  | input
  | output
  | error
  | status
  | attribute
  deriving DecidableEq

-- What is reported of a descriptor, and what it gives then.
structure Report where
  ioIn  : Bool := false
  ioOut : Bool := false
  ioHup : Bool := false
  ioErr : Bool := false
  reads : Reads := .short ⟨[], Nat.zero_lt_succ _⟩

-- What the stream for the input gives, and how much of it is written.
structure Feed where
  read  : Option Bytes := none
  write : Option Nat := none

structure Poll where
  report : Fd → Report
  feed   : Feed := {}

structure Source where
  opened      : Fd → Bool
  inputBuf    : Bytes := []
  statusBuf   : Bytes := []
  errorBuf    : Bytes := []
  childPid    : Bool := true
  childSig    : Bool := false
  cancellable : Bool := false
  cancelSig   : Bool := false
  -- What went to the streams and to the signals.
  output      : Bytes := []
  attributes  : Bytes := []
  statusLines : List Bytes := []
  errorLines  : List Bytes := []
  -- For the statements: the bytes that were added to the buffers of lines, and the descriptors whose other end
  -- is known to be gone.
  statusTaken : Bytes := []
  errorTaken  : Bytes := []
  gone        : Fd → Bool := fun _ => false

namespace Source

variable (s : Source)

def closePoll (fd : Fd) : Source :=
  { s with opened := Function.update s.opened fd false }

-- A handler tells whether the descriptor is kept open.
def onInput (hasInput : Bool) (feed : Feed) : Bool × Source :=
  let write (s : Source) : Bool × Source :=
    match feed.write with
    | none   => (false, s)
    | some n => (true, { s with inputBuf := s.inputBuf.drop n })
  if s.inputBuf ≠ [] then write s
  else if ¬hasInput then (false, s)
  else match feed.read with
    | none | some []   => (false, s)
    | some (c :: data) => write { s with inputBuf := c :: data }

def onStatus (reads : Reads) : Bool × Source :=
  match readOutput reads with
  | none        => (false, s)
  | some buffer =>
    let parsed := parseLines (s.statusBuf ++ buffer) (buffer = [])
    (true, { s with
      statusBuf   := parsed.2
      statusLines := s.statusLines ++ parsed.1
      statusTaken := s.statusTaken ++ buffer })

def onAttribute (reads : Reads) : Bool × Source :=
  match readOutput reads with
  | none        => (false, s)
  | some buffer => (true, { s with attributes := s.attributes ++ buffer })

def onOutput (reads : Reads) : Bool × Source :=
  match readOutput reads with
  | none        => (false, s)
  | some buffer => (true, { s with output := s.output ++ buffer })

def onError (reads : Reads) (last : Bool) : Bool × Source :=
  match readOutput reads with
  | none        => (false, s)
  | some buffer =>
    let parsed := parseLines (s.errorBuf ++ buffer) last
    (true, { s with
      errorBuf   := parsed.2
      errorLines := s.errorLines ++ parsed.1
      errorTaken := s.errorTaken ++ buffer })

-- What was reported last tells whether the other end is gone.
def note (fd : Fd) (report : Report) : Source :=
  if report.ioIn ∨ report.ioOut ∨ report.ioHup ∨ report.ioErr then
    { s with gone := Function.update s.gone fd (report.ioHup || report.ioErr) }
  else s

-- After the handler.
def settle (fd : Fd) (report : Report) (handled : Bool × Source) : Source :=
  if report.ioHup ∨ ¬handled.1 then handled.2.closePoll fd else handled.2

-- One of the polls: the handler when the descriptor is ready, and then the hang-up.
def dispatchPoll (fd : Fd) (report : Report) (ready : Bool) (handler : Source → Bool × Source) : Source :=
  if s.opened fd then settle fd report (if ready then handler (s.note fd report) else (true, s.note fd report)) else s

def dispatchFds (hasInput : Bool) (poll : Poll) : Source :=
  let s := s.dispatchPoll .input (poll.report .input) (poll.report .input).ioOut (·.onInput hasInput poll.feed)
  let s := s.dispatchPoll .status (poll.report .status) (poll.report .status).ioIn
    (·.onStatus (poll.report .status).reads)
  let s := s.dispatchPoll .attribute (poll.report .attribute) (poll.report .attribute).ioIn
    (·.onAttribute (poll.report .attribute).reads)
  let s := s.dispatchPoll .output (poll.report .output) (poll.report .output).ioIn
    (·.onOutput (poll.report .output).reads)
  s.dispatchPoll .error (poll.report .error) (poll.report .error).ioIn
    (·.onError (poll.report .error).reads (poll.report .error).ioHup)

end Source

end GnupgProcess

-- gcr-gnupg-process.c: the runs of a gnupg process, from the main loop.
namespace GnupgProcess

open Transition (Outcome)

inductive RunError
  | spawn
  | cancelled
  | exited (code : UInt8)
  | signaled (signal : UInt8)
  deriving DecidableEq

inductive ExitStatus
  | exited (code : UInt8)
  | signaled (signal : UInt8)

-- What a run is asked for, and what its calls of the system give.
structure Launch where
  withStatus     : Bool := false
  withAttributes : Bool := false
  pipeFails      : Bool := false
  spawnFails     : Bool := false
  -- Whether it is cancelled already.
  cancellable    : Option Bool := none

inductive Call
  | runAsync (launch : Launch)
  | runFinish

def Fd.all : List Fd :=
  [.input, .output, .error, .status, .attribute]

def Source.closed (s : Source) : Bool :=
  Fd.all.all fun fd => !s.opened fd

structure Process where
  running       : Bool := false
  complete      : Bool := false
  error         : Option RunError := none
  asyncCallback : Bool := false
  sourceSig     : Bool := false
  source        : Option Source := none
  -- The callback is called from the main loop.
  later         : Bool := false
  -- For the statements: the runs that were started, their callbacks and those that were finished, whether one was
  -- called too early, whether a run was rejected when all were finished, the errors of the last run in their order
  -- and what was returned for them.
  started       : Nat := 0
  called        : Nat := 0
  finished      : Nat := 0
  early         : Bool := false
  rejected      : Bool := false
  recorded      : List RunError := []
  results       : List (Option RunError × Option RunError) := []

namespace Process

variable (p : Process)

-- The first error is kept.
def record (error : Option RunError) : Process :=
  { p with error := p.error.or error, recorded := p.recorded ++ error.toList }

def onCancellableCancelled : Process :=
  p.record (some .cancelled)

def completeRunProcess : Process :=
  if ¬p.running ∨ p.complete then p else { p with running := false, complete := true }

def newSource (launch : Launch) : Source where
  opened
    | .input | .output | .error => true
    | .status    => launch.withStatus
    | .attribute => launch.withAttributes
  cancellable := launch.cancellable.isSome
  -- Nothing is connected when it is cancelled already.
  cancelSig   := launch.cancellable = some false

-- There is no result when an assertion fails.
def runAsync (launch : Launch) : Option Process :=
  if p.running ∨ p.complete then some { p with rejected := p.rejected || p.finished == p.started }
  else
    let p := { p with asyncCallback := true, started := p.started + 1, recorded := [] }
    if (launch.withStatus ∨ launch.withAttributes) ∧ launch.pipeFails then some p
    else
      let p := { p with complete := false, running := true }
      if launch.spawnFails then
        if p.error.isSome then none
        else some { (p.record (some .spawn)).completeRunProcess with later := true }
      else
        let p := { p with source := some (newSource launch) }
        let p := if launch.cancellable = some true then p.onCancellableCancelled else p
        if p.sourceSig ∨ (newSource launch).childSig then none
        else some { p with sourceSig := true, source := some { newSource launch with childSig := true } }

def runFinish : Option Process :=
  if ¬p.complete then some p
  else if p.running ∨ p.asyncCallback then none
  else some { p with
    complete := false
    error    := none
    finished := p.finished + 1
    results  := p.results ++ [(p.error, p.recorded.head?)] }

-- The result is there for the callers once the callback was called.
def call : Call → Option Process
  | .runAsync launch => p.runAsync launch
  | .runFinish       => if p.asyncCallback then some p else p.runFinish

-- The callback makes calls of its own.
def runAsyncReadyCallback (reaction : List Call) : Option Process :=
  if p.asyncCallback then reaction.foldlM call { p with asyncCallback := false, called := p.called + 1 } else some p

def completeSourceIsDone (s : Source) (reaction : List Call) : Option Process :=
  if s.childSig then none
  else
    let p := { p with source := none, early := p.early || s.childPid || !s.closed }
    let s := { s with cancelSig := false, cancellable := false }
    (p.completeRunProcess.runAsyncReadyCallback reaction).bind fun p =>
      -- The last reference to the source is gone.
      if s.cancellable ∨ s.cancelSig ∨ s.childPid ∨ s.childSig then none else some p

def dispatch (s : Source) (hasInput : Bool) (poll : Poll) (reaction : List Call) : Option Process :=
  let s := s.dispatchFds hasInput poll
  if ¬s.closed then some { p with source := some s }
  else
    let p := { p with source := some s, sourceSig := false }
    if ¬s.childPid then p.completeSourceIsDone s reaction else some p

def childExited (s : Source) (status : ExitStatus) (reaction : List Call) : Option Process :=
  let s := { s with childPid := false, childSig := false }
  let error := match status with
    | .exited code     => if code ≠ 0 then some (.exited code) else none
    | .signaled signal => if p.error = some .cancelled then none else some (.signaled signal)
  let p := { p.record error with source := some s }
  if ¬s.closed then some p else p.completeSourceIsDone s reaction

end Process

inductive ProcessEvent
  | call (call : Call)
  | dispatch (hasInput : Bool) (poll : Poll) (reaction : List Call)
  | childExited (status : ExitStatus) (reaction : List Call)
  | cancelled
  | idle (reaction : List Call)

namespace Process

def after (p : Process) : ProcessEvent → Outcome Process
  | .call call                       => .ofOption (p.call call)
  | .dispatch hasInput poll reaction =>
    if p.sourceSig then p.source.elim .refused fun s => .ofOption (p.dispatch s hasInput poll reaction) else .refused
  | .childExited status reaction     =>
    p.source.elim .refused fun s => if s.childSig then .ofOption (p.childExited s status reaction) else .refused
  | .cancelled                       =>
    p.source.elim .refused fun s => if s.cancelSig then .ok p.onCancellableCancelled else .refused
  | .idle reaction                   =>
    if p.later then .ofOption ({ p with later := false }.runAsyncReadyCallback reaction) else .refused

def Init (p : Process) : Prop :=
  p = {}

def Step (p : Process) (e : ProcessEvent) (p' : Process) : Prop :=
  p.after e = .ok p'

end Process

end GnupgProcess
