import GcrModel.Gcr.GnupgProcess.Process

namespace GnupgProcess

open GLib
open Lines (cut)

variable {s t p line : Bytes} {last : Bool}

def stripCr (line : Bytes) : Bytes :=
  if line.getLast? = some 13 then line.dropLast else line

-- The lines that have an end.
def ended (s : Bytes) : List Bytes :=
  (cut newline s).1.map stripCr

-- What comes after the last line that has one.
def unended (s : Bytes) : Bytes :=
  (cut newline s).2

def finalLine (s : Bytes) : List Bytes :=
  if s = [] then [] else [s]

-- The lines of a text: those with an end and the one after them.
def linesOf (s : Bytes) : List Bytes :=
  ended s ++ finalLine (unended s)

theorem ended_of_notMem (h : newline ∉ s) : ended s = [] := by
  rw [ended, Lines.cut_of_notMem h, List.map_nil]

theorem unended_of_notMem (h : newline ∉ s) : unended s = s := by
  rw [unended, Lines.cut_of_notMem h]

theorem ended_cut (h : newline ∉ p) : ended (p ++ newline :: s) = stripCr p :: ended s := by
  rw [ended, Lines.cut_append_sep h, List.map_cons, ended]

theorem unended_cut (h : newline ∉ p) : unended (p ++ newline :: s) = unended s := by
  rw [unended, Lines.cut_append_sep h, unended]

theorem newline_notMem_unended (s : Bytes) : newline ∉ unended s :=
  Lines.notMem_rest

theorem ended_append (s t : Bytes) : ended (s ++ t) = ended s ++ ended (unended s ++ t) := by
  rw [ended, Lines.cut_append, List.map_append, ended, ended, unended]

theorem unended_append (s t : Bytes) : unended (s ++ t) = unended (unended s ++ t) := by
  rw [unended, Lines.cut_append, unended, unended]

theorem linesOf_append (s t : Bytes) : linesOf (s ++ t) = ended s ++ linesOf (unended s ++ t) := by
  rw [linesOf, ended_append, unended_append, List.append_assoc, linesOf]

-- The number of the lines that have an end is that of the ends.
theorem length_ended (h : newline ∉ p) : (ended (p ++ s)).length = (ended s).length := by
  simp only [ended, List.length_map, Lines.length_cut, List.count_append, List.count_eq_zero.mpr h, Nat.zero_add]

theorem mem_stripCr {c : UInt8} (h : c ∈ stripCr line) : c ∈ line := by
  rw [stripCr] at h
  split at h
  case isTrue  => exact List.mem_of_mem_dropLast h
  case isFalse => exact h

theorem stripCr_mem {c : UInt8} (h : c ∈ line) (hc : c ≠ 13) : c ∈ stripCr line := by
  rw [stripCr]
  split
  case isFalse => exact h
  case isTrue hcr =>
    obtain ⟨l, rfl⟩ := List.getLast?_eq_some_iff.mp hcr
    rw [List.dropLast_concat]
    exact (List.mem_append.mp h).resolve_right fun hm => hc (List.mem_singleton.mp hm)

-- The lines have all the bytes but those of the line ends.
theorem nul_mem_linesOf (h : 0 ∈ s) : ∃ line ∈ linesOf s, 0 ∈ line := by
  have hne : (0 : UInt8) ≠ newline := by decide
  obtain ⟨x, hx, h0⟩ | h0 := Lines.mem_cut h hne
  · exact ⟨stripCr x, List.mem_append_left _ (List.mem_map_of_mem hx), stripCr_mem h0 (by decide)⟩
  · refine ⟨unended s, List.mem_append_right _ ?_, h0⟩
    have hne : unended s ≠ [] := List.ne_nil_of_mem h0
    rw [finalLine, if_neg hne]
    exact List.mem_singleton_self _

theorem parseLines_last (h : newline ∉ cstr s) (last : Bool) :
    parseLines s last = if last ∧ s ≠ [] then ([cstr s], []) else ([], s) := by
  rw [parseLines]
  split
  case h_1 ptr hptr => exact absurd (List.isSome_idxOf?.mp (hptr ▸ rfl)) h
  case h_2          => rfl

theorem parseLines_cut {ptr : Nat} (h : (cstr s).idxOf? newline = some ptr) (last : Bool) :
    parseLines s last = (stripCr (s.take ptr) :: (parseLines (s.drop (ptr + 1)) last).1,
      (parseLines (s.drop (ptr + 1)) last).2) := by
  rw [parseLines]
  split
  case h_1 ptr' hptr =>
    cases hptr.symm.trans h
    rfl
  case h_2 hptr => cases hptr.symm.trans h

-- Without a NUL in the string, what is found are its lines.
theorem parseLines_eq (h : 0 ∉ s) (last : Bool) :
    parseLines s last = (ended s ++ if last then finalLine (unended s) else [], if last then [] else unended s) := by
  induction s using Lines.cut_induction newline
  case hlast s hn =>
    rw [parseLines_last (by rwa [cstr_eq h]), ended_of_notMem hn, unended_of_notMem hn, cstr_eq h, finalLine]
    cases last <;> by_cases hs : s = [] <;> simp [hs]
  case hcut p s hn ih =>
    have hs : 0 ∉ s := fun hm => h (List.mem_append_right _ (List.mem_cons_of_mem _ hm))
    have hptr : (cstr (p ++ newline :: s)).idxOf? newline = some p.length := by
      rw [cstr_eq h, idxOf?_append_cons hn]
    have hdrop : (p ++ newline :: s).drop (p.length + 1) = s := by simp
    rw [parseLines_cut hptr, hdrop, List.take_left, ih hs, ended_cut hn, unended_cut hn, List.cons_append]

-- The lines are strings of C.
theorem nul_notMem_parseLines (h : line ∈ (parseLines s last).1) : 0 ∉ line := by
  induction hn : s.length using Nat.strong_induction_on generalizing s
  case h n ih =>
    cases hptr : (cstr s).idxOf? newline
    case none =>
      rw [parseLines_last (List.idxOf?_eq_none_iff.mp hptr)] at h
      split at h
      case isTrue =>
        rw [List.mem_singleton.mp h]
        exact nul_notMem_cstr s
      case isFalse => cases h
    case some ptr =>
      obtain ⟨hlt, -⟩ := notMem_take_idxOf? hptr
      have hle := (List.takeWhile_prefix (l := s) (· ≠ 0)).length_le
      rw [parseLines_cut hptr] at h
      obtain rfl | h := List.mem_cons.mp h
      · intro h0
        have htake : s.take ptr = (cstr s).take ptr := by
          obtain ⟨t, ht⟩ := List.takeWhile_prefix (l := s) (· ≠ 0)
          conv_lhs => rw [← ht]
          exact List.take_append_of_le_length hlt.le
        rw [htake] at h0
        exact nul_notMem_cstr s (List.mem_of_mem_take (mem_stripCr h0))
      · refine ih _ ?_ h rfl
        rw [List.length_drop]
        have hlt' : ptr < s.length := hlt.trans_le hle
        omega

end GnupgProcess

-- What a run of the source is to deliver.
namespace GnupgProcess

open GLib

namespace Reads

-- All that the reads of a call give, also when the last one fails.
def bytes : Reads → Bytes
  | full bytes more => bytes ++ more.bytes
  | short bytes     => bytes
  | interrupted     => []
  | failed          => []

def fails : Reads → Bool
  | full _ more => more.fails
  | failed      => true
  | _           => false

end Reads

namespace Report

variable (r : Report)

def bytes : Bytes :=
  if r.ioIn then r.reads.bytes else []

def fails : Bool :=
  r.ioIn && r.reads.fails

def succeeds : Bool :=
  r.ioIn && !r.fails

-- The descriptor is closed after the report.
def closes : Bool :=
  r.ioHup || r.fails

end Report

-- The reports up to the one after which the descriptor is closed.
def live : List Report → List Report
  | []      => []
  | r :: rs => if r.closes then [r] else r :: live rs

-- The polls of a source, and for each descriptor what was written to it and never read.
structure Run where
  hasInput : Bool
  opened   : Fd → Bool
  polls    : List Poll
  unread   : Fd → Bytes
  unopened : ∀ {fd}, opened fd = false → unread fd = []

namespace Run

variable (run : Run)

def final : Source :=
  run.polls.foldl (·.dispatchFds run.hasInput) { opened := run.opened }

def reports (fd : Fd) : List Report :=
  if run.opened fd then live (run.polls.map (·.report fd)) else []

-- What is written to a descriptor.
def stream (fd : Fd) : Bytes :=
  (run.reports fd).flatMap Report.bytes ++ run.unread fd

-- The reports on which data was read.
def reads (fd : Fd) : List Report :=
  (run.reports fd).filter Report.succeeds

def chunks (fd : Fd) : List Bytes :=
  (run.reads fd).map Report.bytes

structure Delivered : Prop where
  output      : run.final.output = run.stream .output
  attributes  : run.final.attributes = run.stream .attribute
  status      : run.final.statusTaken = run.stream .status
  statusLines : run.final.statusLines = linesOf (run.stream .status)
  error       : run.final.errorTaken = run.stream .error
  errorLines  : run.final.errorLines = linesOf (run.stream .error)

-- Everything is read, and no call that fails has read something before.
def Complete (fd : Fd) : Prop :=
  run.unread fd = [] ∧ ∀ r ∈ run.reports fd, r.fails → r.bytes = []

-- A read without data, also one that was interrupted, is where a line ends or the stream does. If no line ends there,
-- there is one.
structure Flushes : Prop where
  between {pre post} : run.chunks .status = pre ++ [] :: post → unended pre.flatten = [] ∨ post.flatten = []
  last : unended (run.stream .status) = [] ∨
    ∃ pre post, run.chunks .status = pre ++ [] :: post ∧ post.flatten = []

-- The hang-up comes with data, or at least with the end of the file, if no line ends there.
def Ends : Prop :=
  unended (run.stream .error) = [] ∨ ∃ r ∈ run.reads .error, r.ioHup

structure Whole : Prop where
  complete {fd} : fd ≠ .input → run.Complete fd
  statusText    : 0 ∉ run.stream .status
  flushes       : run.Flushes
  errorText     : 0 ∉ run.stream .error
  ends          : run.Ends

end Run

end GnupgProcess
