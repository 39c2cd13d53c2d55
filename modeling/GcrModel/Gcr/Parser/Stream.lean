import GcrModel.GLib.Strings
import GcrModel.Library.Loop
import GcrModel.Library.Table

-- gcr-parser.c: parsing what is read from a stream, as a machine whose states are functions.
namespace Parser.Stream

open GLib

def block : Nat :=
  4096

-- What a stream gives: blocks of at least one byte and then the end of the file or an error.
structure Input (ε : Type*) where
  blocks  : List { l : Bytes // 1 ≤ l.length ∧ l.length ≤ block }
  failure : Option ε

-- The arguments of the call: the parser, the moment from which on the cancellable is cancelled, and whether it
-- is the asynchronous entry point, with a callback.
structure Operation (ε : Type*) where
  parseBytes  : Bytes → Except ε Unit
  cancelled   : ε
  cancelledAt : Option Nat
  async       : Bool
  callback    : Bool

inductive State
  | cancelled
  | failure
  | complete
  | parseBuffer
  | readBuffer
  deriving DecidableEq

-- A call of `nextState`, or the read into the block of the buffer from `start` on.
inductive Phase
  | nextState (state : State)
  | reading (start : Nat)

-- The errors are in memory, where freed ones are missing. The moments are the calls of `nextState`.
structure Parsing (ε : Type*) where
  phase     : Phase := .nextState .readBuffer
  input     : Input ε
  buffer    : Option Bytes := none
  errors    : Table Nat ε := fun _ => none
  allocated : Nat := 0
  error     : Option Nat := none
  complete  : Bool := false
  callbacks : Nat := 0
  moment    : Nat := 0

-- An assertion that fails, or a buffer whose size is none of 32 bits.
inductive Stop (ε : Type*)
  | crashed
  | completed (p : Parsing ε)

namespace Parsing

variable {ε : Type*} (op : Operation ε) (p : Parsing ε)

-- Where an error was made, `g_propagate_error` moves it.
def setError (e : ε) : Parsing ε :=
  { p with
    errors    := Function.update p.errors p.allocated (some e)
    allocated := p.allocated + 1
    error     := some p.allocated }

-- `g_clear_error`
def clearError : Parsing ε :=
  { p with
    errors := p.error.elim p.errors fun id => Function.update p.errors id none
    error  := none }

def goto (state : State) : Parsing ε :=
  { p with phase := .nextState state }

def next (state : State) : Stop ε ⊕ Parsing ε :=
  .inr (p.goto state)

def stateComplete : Stop ε ⊕ Parsing ε :=
  if p.complete then .inl .crashed
  else .inl (.completed { p with
    complete  := true
    callbacks := if op.async ∧ op.callback then p.callbacks + 1 else p.callbacks })

def stateFailure : Stop ε ⊕ Parsing ε :=
  if p.error = none then .inl .crashed else p.next .complete

def stateCancelled : Stop ε ⊕ Parsing ε :=
  (p.clearError.setError op.cancelled).next .failure

def stateParseBuffer : Stop ε ⊕ Parsing ε :=
  p.buffer.elim (.inl .crashed) fun bytes =>
    match op.parseBytes bytes with
    | .ok ()   => { p with buffer := none }.next .complete
    | .error e => ({ p with buffer := none }.setError e).next .failure

def stateReadBuffer : Stop ε ⊕ Parsing ε :=
  let buffer := p.buffer.getD []
  let start := buffer.length
  if 4294967296 ≤ start + block then .inl .crashed
  else .inr { p with buffer := some (buffer ++ List.replicate block 0), phase := .reading start }

-- What was read is in the block that was added to the buffer, the rest of which is taken off.
def completeReadBuffer (start : Nat) : Stop ε ⊕ Parsing ε :=
  p.buffer.elim (.inl .crashed) fun buffer =>
    match p.input.blocks, p.input.failure with
    | [], some e       => (p.setError e).next .failure
    | [], none         => { p with buffer := some (buffer.take (buffer.length - block)) }.next .parseBuffer
    | data :: rest, _  =>
      let filled := buffer.take start ++ data ++ buffer.drop (start + data.1.length)
      { p with
        input.blocks := rest
        buffer       := some (filled.take (filled.length - (block - data.1.length))) }.next .readBuffer

def runState : State → Stop ε ⊕ Parsing ε
  | .cancelled   => p.stateCancelled op
  | .failure     => p.stateFailure
  | .complete    => p.stateComplete op
  | .parseBuffer => p.stateParseBuffer op
  | .readBuffer  => p.stateReadBuffer

def cancelledNow : Bool :=
  op.cancelledAt.any (· ≤ p.moment)

def round : Stop ε ⊕ Parsing ε :=
  match p.phase with
  | .reading start   => p.completeReadBuffer start
  | .nextState state => { p with moment := p.moment + 1 }.runState op (if p.cancelledNow op then .cancelled else state)

-- `gcr_parser_parse_stream_finish` for a caller that wants the error.
def finish : Bool × Option Nat :=
  if p.complete ∧ p.error = none then (true, none)
  else (false, if p.complete then p.error else none)

-- The synchronous entry point releases the operation, the asynchronous one does not.
def release : Parsing ε :=
  if op.async then p else { p.clearError with buffer := none }

end Parsing

end Parser.Stream
