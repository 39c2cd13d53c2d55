import GcrModel.GLib.Strings
import Mathlib.Algebra.Group.Nat.Defs

-- gcr-ssh-askpass.c: the tool that ssh runs sends its arguments over a socket, and prints the password that comes back.
namespace SshAskpass

open GLib

-- What a call of `read` or `write` does: it moves one byte more than `n` at most, or returns an error, which is EINTR or
-- EAGAIN if the call is to be made again.
inductive Call
  | moved (n : Nat)
  | again
  | failed
  deriving DecidableEq, Repr

def Call.isMoved : Call → Bool
  | moved _ => true
  | again   => false
  | failed  => false

-- Whether all was written, with what was, and the calls that are left. There is no result when a call does not return.
def writeAll : List Call → Bytes → Option (Bool × Bytes × List Call)
  | [],                []          => some (true, [], [])
  | [],                _ :: _      => none
  | call :: calls,     []          => some (true, [], call :: calls)
  | .again :: calls,   buf         => writeAll calls buf
  | .failed :: calls,  _           => some (false, [], calls)
  | .moved n :: calls, buf         =>
    (writeAll calls (buf.drop (n + 1))).map fun (ret, written, calls) => (ret, buf.take (n + 1) ++ written, calls)

-- The memory of a string and its length. It has a NUL at its end, and the bytes behind are what they happen to be.
structure GString where
  str : Nat → UInt8
  len : Nat

namespace GString

-- `g_string_new` with an empty string.
def new (memory : Nat → UInt8) : GString where
  str := Function.update memory 0 0
  len := 0

def setSize (s : GString) (len : Nat) : GString where
  str := Function.update s.str len 0
  len := len

-- The bytes from `pos` on are written, and the string ends behind them.
def store (s : GString) (pos : Nat) (data : Bytes) : GString where
  str i := if i < pos then s.str i else ((data ++ [0])[i - pos]?).getD (s.str i)
  len   := pos + data.length

-- What `str` is when it is taken for a string.
def cstr (s : GString) : Bytes :=
  GLib.cstr ((List.range s.len).map s.str)

end GString

-- NULL for an error.
def readAllIntoString : List Call → Bytes → GString → Option (Option GString)
  | [],                _,    _     => none
  | .again :: calls,   data, input => readAllIntoString calls data (input.setSize (input.len + 256))
  | .failed :: _,      _,    _     => some none
  | .moved n :: calls, data, input =>
    match data.take (min (n + 1) 256) with
    -- The end of the file. The length is that for the next read.
    | []          => some (some (input.setSize (input.len + 256)))
    | byte :: buf =>
      readAllIntoString calls (data.drop (buf.length + 1)) ((input.setSize (input.len + 256)).store input.len (byte :: buf))

-- The locale is that of the source.
def defaultText : Bytes :=
  ascii "Enter your OpenSSH passphrase".toList

inductive Answer
  | handled (value : Bytes)
  | unhandled
  | failed (cancelled : Bool)
  deriving DecidableEq, Repr

-- What is written to the socket.
def Answer.reply : Answer → Bytes
  | handled value => value
  | unhandled     => [0xff]
  | failed _      => [0xff]

-- The prompt that the interaction was given, if it was, and what was written.
def askpassThread (reads writes : List Call) (memory : Nat → UInt8) (answer : Answer) (data : Bytes) :
    Option (Option Bytes × Bytes) :=
  (readAllIntoString reads data (.new memory)).bind fun
    | none       => (writeAll writes [0xff]).map fun (_, written, _) => (none, written)
    | some input =>
      let input := if input.len = 0 then input.store 0 defaultText else input
      (writeAll writes answer.reply).map fun (_, written, _) => (some input.cstr, written)

-- The arguments from the one at `i` on.
def appendArgs : Nat → List CString → Bytes → Bytes
  | _, [],          message => message
  | i, arg :: argv, message => appendArgs (i + 1) argv ((if i = 1 then message ++ [32] else message) ++ arg.bytes)

def message (argv : List CString) : Bytes :=
  appendArgs 1 argv []

-- What is printed, and the status. There is no result where the number of bytes is too large for a `gint`.
def receive : List Call → List Call → Bytes → Nat → Bytes → Option (Bytes × Int)
  | [],                _,     _,    _,     _   => none
  | .again :: calls,   print, data, count, buf => receive calls print data count buf
  | .failed :: _,      _,     _,    _,     _   => some ([], -1)
  | .moved n :: calls, print, data, count, buf =>
    match data.take (min (n + 1) 128) with
    | []           => some ([], if count = 1 ∧ buf[0]? = some 0xff then -1 else 0)
    | byte :: rest =>
      (writeAll print (byte :: rest)).bind fun (ret, written, print) =>
        if ret = false then some (written, -1)
        else if 2 ^ 31 ≤ count + (rest.length + 1) then none
        else
          (receive calls print (data.drop (rest.length + 1)) (count + (rest.length + 1))
            (byte :: rest ++ buf.drop (rest.length + 1))).map fun (printed, status) => (written ++ printed, status)

-- An exchange that is set up: the arguments, the answer, the memory of the string, and what the calls of both sides do.
structure Exchange where
  argv         : List CString
  answer       : Answer
  memory       : Nat → UInt8
  toolWrites   : List Call
  threadReads  : List Call
  threadWrites : List Call
  toolReads    : List Call
  prints       : List Call

structure Outcome where
  prompt  : Option Bytes
  printed : Bytes
  status  : Int
  deriving DecidableEq, Repr

-- The tool shuts its end down after it wrote, and the thread closes its own.
def Exchange.run (x : Exchange) : Option Outcome :=
  (writeAll x.toolWrites (message x.argv)).bind fun (ret, data, _) =>
    (askpassThread x.threadReads x.threadWrites x.memory x.answer data).bind fun (prompt, reply) =>
      if ret then
        (receive x.toolReads x.prints reply 0 (List.replicate 128 0)).map fun (printed, status) => ⟨prompt, printed, status⟩
      else some ⟨prompt, [], -1⟩

-- The arguments joined by single spaces.
def expectedPrompt (argv : List CString) : Bytes :=
  let text := [32].intercalate (argv.map CString.bytes)
  if text = [] then defaultText else text

structure Faithful (x : Exchange) (o : Outcome) : Prop where
  prompt   : o.prompt = some (expectedPrompt x.argv)
  supplied : ∀ value, x.answer = .handled value → value ≠ [0xff] → o.printed = value ∧ o.status = 0
  missing  : (∀ value, x.answer ≠ .handled value) → o.printed = [] ∧ o.status ≠ 0

-- Calls that move so many bytes, in whatever pieces, and are interrupted in between.
structure Delivers (calls : List Call) (len : Nat) : Prop where
  works : .failed ∉ calls
  ends  : len < calls.countP Call.isMoved

structure Exchange.Possible (x : Exchange) : Prop where
  toolWrites   : Delivers x.toolWrites (message x.argv).length
  threadReads  : Delivers x.threadReads (message x.argv).length
  threadWrites : Delivers x.threadWrites x.answer.reply.length
  toolReads    : Delivers x.toolReads x.answer.reply.length
  prints       : Delivers x.prints x.answer.reply.length

-- How many bytes come in front of the first interruption.
def uninterrupted : List Call → Nat → Nat
  | .moved n :: calls, left => min (min (n + 1) 256) left + uninterrupted calls (left - min (min (n + 1) 256) left)
  | _,                 _    => 0

-- The space that is put in front of the first argument is as good as the one that is missing behind it, if that argument
-- is nothing but spaces, and one byte too many if it is the only one.
def Joins : List CString → Nat → Prop
  | [arg],    u => arg.bytes ≠ [] ∧ (∀ c ∈ arg.bytes, c = 32) ∧ u = arg.bytes.length
  | [arg, a], u => (∀ c ∈ arg.bytes, c = 32) ∧ u = (message [arg, a]).length
  | _,        _ => False

section Transfer

variable {calls calls' print : List Call} {data buf message : Bytes} {count len n k : Nat} {input : GString}

theorem Delivers.ne_nil (h : Delivers [] len) : False :=
  absurd h.ends (Nat.not_lt_zero _)

theorem Delivers.again (h : Delivers (.again :: calls) len) : Delivers calls len where
  works := fun hmem => h.works (List.mem_cons_of_mem _ hmem)
  ends  := h.ends

theorem Delivers.not_failed (h : Delivers (.failed :: calls) len) : False :=
  h.works List.mem_cons_self

-- A call moves at least one of the bytes.
theorem Delivers.moved (h : Delivers (.moved n :: calls) len) (hlt : k < len) : Delivers calls k where
  works := fun hmem => h.works (List.mem_cons_of_mem _ hmem)
  ends  := by
    have hends := h.ends
    rw [List.countP_cons_of_pos rfl] at hends
    omega

theorem Delivers.le (h : Delivers calls len) (hle : k ≤ len) : Delivers calls k where
  works := h.works
  ends  := Nat.lt_of_le_of_lt hle h.ends

-- All is written, whatever the pieces are, and what is left of the calls is enough for the rest.
theorem Delivers.writeAll (h : Delivers calls (data.length + k)) :
    ∃ calls', writeAll calls data = some (true, data, calls') ∧ Delivers calls' k := by
  induction calls generalizing data with
  | nil => exact h.ne_nil.elim
  | cons call calls ih =>
    cases data with
    | nil => exact ⟨call :: calls, rfl, h.le (Nat.le_add_left _ _)⟩
    | cons byte data =>
      cases call with
      | again  => exact ih h.again
      | failed => exact h.not_failed.elim
      | moved n =>
        have hlt : ((byte :: data).drop (n + 1)).length + k < (byte :: data).length + k := by
          rw [List.length_drop, List.length_cons]
          omega
        obtain ⟨calls', hwrite, hleft⟩ := ih (h.moved hlt)
        refine ⟨calls', ?_, hleft⟩
        rw [SshAskpass.writeAll, hwrite, Option.map_some]
        case x_2 => nofun
        dsimp only
        rw [List.take_append_drop]

-- One call of `read`: what it moves is not empty unless all was moved before.
theorem take_eq_nil (h : data.take (min (n + 1) len) = []) (hlen : 0 < len) : data = [] :=
  (List.take_eq_nil_iff.mp h).resolve_left (by omega)

theorem take_eq_cons {byte : UInt8} {rest : Bytes} (h : data.take (min (n + 1) len) = byte :: rest) :
    data.take (rest.length + 1) = byte :: rest ∧ min (min (n + 1) len) data.length = rest.length + 1 := by
  have hlen := congrArg List.length h
  rw [List.length_take, List.length_cons] at hlen
  refine ⟨?_, hlen⟩
  rw [← hlen, ← List.take_take, List.take_length, h]

end Transfer

section Prompt

variable {calls : List Call} {data text : Bytes} {input : GString}

theorem GString.setSize_str (s : GString) (len i : Nat) : (s.setSize len).str i = Function.update s.str len 0 i :=
  rfl

theorem GString.store_str (s : GString) (pos : Nat) (data : Bytes) (i : Nat) :
    (s.store pos data).str i = if i < pos then s.str i else ((data ++ [0])[i - pos]?).getD (s.str i) :=
  rfl

-- The string is `text` when it is taken for one, whatever comes behind.
structure GString.Holds (s : GString) (text : Bytes) : Prop where
  bytes : ∀ i, (h : i < text.length) → s.str i = text[i]
  nul   : s.str text.length = 0
  le    : text.length ≤ s.len

theorem GString.holds_new (memory : Nat → UInt8) : (GString.new memory).Holds [] where
  bytes := fun _ h => absurd h (Nat.not_lt_zero _)
  nul   := Function.update_self (f := memory) 0 0
  le    := Nat.le_refl _

-- The new bytes are not written, so the old end is still the end.
theorem GString.Holds.setSize (h : input.Holds text) : (input.setSize (input.len + 256)).Holds text where
  bytes i hi := by
    have hle := h.le
    rw [GString.setSize_str, Function.update_of_ne (by omega)]
    exact h.bytes i hi
  nul := by
    have hle := h.le
    rw [GString.setSize_str, Function.update_of_ne (by omega)]
    exact h.nul
  le := Nat.le_trans h.le (Nat.le_add_right _ _)

theorem GString.Holds.store_behind {pos : Nat} (h : input.Holds text) (hlt : text.length < pos) (data : Bytes) :
    (input.store pos data).Holds text where
  bytes i hi := by
    rw [GString.store_str, if_pos (by omega)]
    exact h.bytes i hi
  nul := by
    rw [GString.store_str, if_pos hlt]
    exact h.nul
  le := Nat.le_trans (Nat.le_of_lt hlt) (Nat.le_add_right _ _)

theorem GString.Holds.store (h : input.Holds text) (data : Bytes) :
    (input.store text.length data).Holds (text ++ data) where
  bytes i hi := by
    rw [List.length_append] at hi
    by_cases hlt : i < text.length
    case pos => rw [GString.store_str, if_pos hlt, List.getElem_append_left hlt, h.bytes i hlt]
    case neg =>
      rw [GString.store_str, if_neg hlt, List.getElem?_append_left (by omega), List.getElem?_eq_getElem (by omega),
        Option.getD_some, List.getElem_append_right (by omega)]
  nul := by
    rw [GString.store_str, List.length_append, if_neg (by omega), Nat.add_sub_cancel_left,
      List.getElem?_append_right (Nat.le_refl _), Nat.sub_self]
    rfl
  le := by
    rw [List.length_append]
    exact Nat.le_refl _

theorem GString.Holds.cstr (h : input.Holds text) (hnul : 0 ∉ text) : input.cstr = text := by
  have htake : ((List.range input.len).map input.str).take text.length = text := by
    refine List.ext_getElem ?_ fun i hi hi' => ?_
    · rw [List.length_take, List.length_map, List.length_range, Nat.min_eq_left h.le]
    · rw [List.getElem_take, List.getElem_map, List.getElem_range, h.bytes i hi']
  have hdrop : (((List.range input.len).map input.str).drop text.length).takeWhile (· ≠ 0) = [] := by
    rw [List.takeWhile_eq_nil_iff]
    intro hpos
    rw [List.get_eq_getElem, List.getElem_drop, List.getElem_map, List.getElem_range, Nat.add_zero, h.nul]
    decide
  have hall : ∀ c ∈ text, (decide (c ≠ 0)) = true := fun c hc => decide_eq_true fun h0 => hnul (h0 ▸ hc)
  rw [GString.cstr, GLib.cstr, ← List.take_append_drop text.length ((List.range input.len).map input.str), htake,
    List.takeWhile_append_of_pos hall, hdrop, List.append_nil]

-- Once a read was interrupted the bytes that come are behind the end of the string.
theorem readAllIntoString_cut (hd : Delivers calls data.length) (h : input.Holds text) (hlt : text.length < input.len) :
    ∃ input', readAllIntoString calls data input = some (some input') ∧ input'.Holds text ∧ input'.len ≠ 0 := by
  induction calls generalizing data input with
  | nil => exact hd.ne_nil.elim
  | cons call calls ih =>
    cases call with
    | again  => exact ih hd.again h.setSize (Nat.lt_add_right _ hlt)
    | failed => exact hd.not_failed.elim
    | moved n =>
      rw [readAllIntoString]
      split
      case h_1 => exact ⟨_, rfl, h.setSize, Nat.succ_ne_zero _⟩
      case h_2 byte rest hread =>
        obtain ⟨-, hcount⟩ := take_eq_cons hread
        have hleft : (data.drop (rest.length + 1)).length < data.length := by
          rw [List.length_drop]
          omega
        exact ih (hd.moved hleft) (h.setSize.store_behind hlt _) (Nat.lt_add_right _ hlt)

-- The string is what was read in front of the first interruption.
theorem readAllIntoString_spec (hd : Delivers calls data.length) (h : input.Holds text) (heq : text.length = input.len) :
    ∃ input', readAllIntoString calls data input = some (some input') ∧
      input'.Holds (text ++ data.take (uninterrupted calls data.length)) ∧ input'.len ≠ 0 := by
  induction calls generalizing data input text with
  | nil => exact hd.ne_nil.elim
  | cons call calls ih =>
    cases call with
    | again =>
      have hlt : text.length < input.len + 256 := by omega
      have hcut := readAllIntoString_cut hd.again h.setSize hlt
      rwa [← List.append_nil text] at hcut
    | failed => exact hd.not_failed.elim
    | moved n =>
      rw [readAllIntoString, uninterrupted]
      split
      case h_1 hread =>
        rw [take_eq_nil hread (by decide), List.take_nil, List.append_nil]
        exact ⟨_, rfl, h.setSize, Nat.succ_ne_zero _⟩
      case h_2 byte rest hread =>
        obtain ⟨htake, hcount⟩ := take_eq_cons hread
        have hleft : (data.drop (rest.length + 1)).length < data.length := by
          rw [List.length_drop]
          omega
        have hstore := h.setSize.store (byte :: rest)
        rw [heq] at hstore
        have hlen : (text ++ byte :: rest).length = input.len + (byte :: rest).length := by
          rw [List.length_append, heq]
        obtain ⟨input', hread', hholds, hne⟩ := ih (hd.moved hleft) hstore hlen
        refine ⟨input', hread', ?_, hne⟩
        rw [List.length_drop, List.append_assoc] at hholds
        rw [hcount, List.take_add, htake]
        exact hholds

end Prompt

section Receive

variable {calls print : List Call} {data seen buf : Bytes}

-- All is printed, and the status is that of a failure if it is the byte for it.
theorem receive_spec (hcalls : Delivers calls data.length) (hprint : Delivers print data.length)
    (hseen : seen.length < 2 ^ 31) (hbuf : seen.length = 1 → buf[0]? = seen[0]?) :
    receive calls print data seen.length buf =
      if seen.length + data.length < 2 ^ 31 then some (data, if seen ++ data = [0xff] then -1 else 0) else none := by
  induction calls generalizing print data seen buf with
  | nil => exact hcalls.ne_nil.elim
  | cons call calls ih =>
    cases call with
    | again  => exact ih hcalls.again hprint hseen hbuf
    | failed => exact hcalls.not_failed.elim
    | moved n =>
      rw [receive]
      split
      case h_1 hread =>
        have hbyte : seen.length = 1 ∧ buf[0]? = some 0xff ↔ seen = [0xff] := by
          constructor
          case mp =>
            rintro ⟨hone, hget⟩
            obtain ⟨byte, rfl⟩ := List.length_eq_one_iff.mp hone
            rw [hbuf hone] at hget
            rw [Option.some.inj hget]
          case mpr =>
            rintro rfl
            exact ⟨rfl, hbuf rfl⟩
        rw [take_eq_nil hread (by decide), List.append_nil, List.length_nil, Nat.add_zero, if_pos hseen]
        simp only [hbyte]
      case h_2 byte rest hread =>
        obtain ⟨htake, hcount⟩ := take_eq_cons hread
        have hdrop : (data.drop (rest.length + 1)).length + (rest.length + 1) = data.length := by
          rw [List.length_drop]
          omega
        have hchunk : Delivers print ((byte :: rest).length + (data.drop (rest.length + 1)).length) :=
          hprint.le (by rw [List.length_cons]; omega)
        obtain ⟨print', hwrite, hprint'⟩ := hchunk.writeAll
        rw [hwrite, Option.bind_some]
        dsimp only
        rw [if_neg Bool.noConfusion]
        by_cases hlarge : 2 ^ 31 ≤ seen.length + (rest.length + 1)
        case pos => rw [if_pos hlarge, if_neg (by omega)]
        case neg =>
          have hlen : (seen ++ byte :: rest).length = seen.length + (rest.length + 1) := List.length_append
          have hfirst : (seen ++ byte :: rest).length = 1 →
              (byte :: rest ++ buf.drop (rest.length + 1))[0]? = (seen ++ byte :: rest)[0]? := by
            intro hone
            rw [hlen] at hone
            rw [List.length_eq_zero_iff.mp (show seen.length = 0 by omega)]
            rfl
          have hrest := ih (hcalls.moved (by omega)) hprint' (by omega) hfirst
          rw [hlen, Nat.add_assoc, Nat.add_comm (rest.length + 1), hdrop, List.append_assoc, ← htake,
            List.take_append_drop] at hrest
          rw [if_neg hlarge, ← htake, hrest]
          split
          case isTrue  => rw [Option.map_some]; dsimp only; rw [List.take_append_drop]
          case isFalse => rfl

end Receive

section Arguments

variable {argv : List CString}

theorem appendArgs_eq (i : Nat) (argv : List CString) (message : Bytes) :
    appendArgs (i + 2) argv message = message ++ (argv.map CString.bytes).flatten := by
  induction argv generalizing i message with
  | nil => exact (List.append_nil _).symm
  | cons arg argv ih =>
    rw [appendArgs, if_neg (by omega), ih, List.map_cons, List.flatten_cons, List.append_assoc]

-- There is one space, and it is in front of the first argument.
theorem message_cons (arg : CString) (argv : List CString) :
    message (arg :: argv) = 32 :: (arg.bytes ++ (argv.map CString.bytes).flatten) := by
  rw [message, appendArgs, appendArgs_eq]
  rfl

theorem nul_notMem_message (argv : List CString) : 0 ∉ message argv := by
  cases argv with
  | nil => exact List.not_mem_nil
  | cons arg argv =>
    rw [message_cons]
    intro hmem
    cases hmem with
    | tail _ hmem =>
      cases List.mem_append.mp hmem with
      | inl hmem => exact arg.nul hmem
      | inr hmem =>
        obtain ⟨_, hbytes, hmem⟩ := List.mem_flatten.mp hmem
        obtain ⟨arg', -, rfl⟩ := List.mem_map.mp hbytes
        exact arg'.nul hmem

theorem length_intercalate (bytes : Bytes) (l : List Bytes) :
    ([32].intercalate (bytes :: l)).length = bytes.length + (l.flatten.length + l.length) := by
  induction l generalizing bytes with
  | nil => rw [List.intercalate_singleton]; rfl
  | cons bytes' l ih =>
    rw [List.intercalate_cons_cons, List.length_append, List.length_append, ih, List.flatten_cons, List.length_append,
      List.length_cons, List.length_cons, List.length_nil]
    omega

-- A string that is the same when it is moved by one place.
theorem cons_eq_append_iff (c : UInt8) (s : Bytes) : c :: s = s ++ [c] ↔ ∀ b ∈ s, b = c := by
  induction s with
  | nil => simp
  | cons d s ih =>
    rw [List.cons_append, List.cons.injEq, List.forall_mem_cons]
    constructor
    case mp =>
      rintro ⟨rfl, h⟩
      exact ⟨rfl, ih.mp h⟩
    case mpr =>
      rintro ⟨rfl, h⟩
      exact ⟨rfl, ih.mpr h⟩

theorem take_cons_iff (c : UInt8) (s : Bytes) : (c :: s).take s.length = s ↔ ∀ b ∈ s, b = c := by
  induction s with
  | nil => simp
  | cons d s ih =>
    rw [List.length_cons, List.take_succ_cons, List.cons.injEq, List.forall_mem_cons]
    constructor
    case mp =>
      rintro ⟨rfl, h⟩
      exact ⟨rfl, ih.mp h⟩
    case mpr =>
      rintro ⟨rfl, h⟩
      exact ⟨rfl, ih.mpr h⟩

theorem uninterrupted_le (calls : List Call) (left : Nat) : uninterrupted calls left ≤ left := by
  fun_induction uninterrupted calls left with
  | case1 n calls left ih => omega
  | case2 left calls h    => exact Nat.zero_le _

end Arguments

section Outcome

variable {x : Exchange} {calls : List Call} {argv : List CString} {u : Nat}

-- The prompt is what was sent, up to the first interruption.
theorem askpassThread_eq {reads writes : List Call} {data : Bytes} (memory : Nat → UInt8) (answer : Answer)
    (hreads : Delivers reads data.length) (hwrites : Delivers writes answer.reply.length) (hnul : 0 ∉ data) :
    askpassThread reads writes memory answer data =
      some (some (data.take (uninterrupted reads data.length)), answer.reply) := by
  obtain ⟨input, hread, hholds, hne⟩ := readAllIntoString_spec hreads (GString.holds_new memory) rfl
  obtain ⟨_, hwrite, -⟩ := Delivers.writeAll (k := 0) hwrites
  rw [List.nil_append] at hholds
  rw [askpassThread, hread, Option.bind_some]
  dsimp only
  rw [if_neg hne, hwrite, Option.map_some, hholds.cstr fun hmem => hnul (List.mem_of_mem_take hmem)]

-- What comes of an exchange.
theorem Exchange.Possible.run_eq (h : x.Possible) :
    x.run = if x.answer.reply.length < 2 ^ 31 then
      some ⟨some ((message x.argv).take (uninterrupted x.threadReads (message x.argv).length)), x.answer.reply,
        if x.answer.reply = [0xff] then -1 else 0⟩
    else none := by
  obtain ⟨_, hwrite, -⟩ := Delivers.writeAll (k := 0) h.toolWrites
  have hreceive := @receive_spec _ _ _ [] (List.replicate 128 0) h.toolReads h.prints (by decide) nofun
  rw [List.length_nil, Nat.zero_add, List.nil_append] at hreceive
  rw [run, hwrite, Option.bind_some]
  dsimp only
  rw [askpassThread_eq x.memory x.answer h.threadReads h.threadWrites (nul_notMem_message x.argv), Option.bind_some]
  dsimp only
  rw [if_pos rfl, hreceive]
  split
  case isTrue  => rfl
  case isFalse => rfl

theorem expectedPrompt_pair (arg arg' : CString) : expectedPrompt [arg, arg'] = arg.bytes ++ 32 :: arg'.bytes := by
  have hjoined : [32].intercalate ([arg, arg'].map CString.bytes) = arg.bytes ++ 32 :: arg'.bytes := by
    rw [List.map_cons, List.map_singleton, List.intercalate_cons_cons, List.intercalate_singleton, List.append_assoc]
    rfl
  rw [expectedPrompt, hjoined]
  exact if_neg (by simp)

-- From three arguments on the prompt is longer than what is sent.
theorem take_message_ne {arg : CString} (hargv : 2 ≤ argv.length) (hle : u ≤ (message (arg :: argv)).length) :
    (message (arg :: argv)).take u ≠ expectedPrompt (arg :: argv) := by
  intro heq
  have hlen := congrArg List.length heq
  have hjoined : ([32].intercalate ((arg :: argv).map CString.bytes)).length =
      arg.bytes.length + ((argv.map CString.bytes).flatten.length + (argv.map CString.bytes).length) :=
    length_intercalate _ _
  rw [List.length_map] at hjoined
  have hne : [32].intercalate ((arg :: argv).map CString.bytes) ≠ [] := by
    intro hnil
    rw [hnil, List.length_nil] at hjoined
    omega
  rw [expectedPrompt, if_neg hne, List.length_take, Nat.min_eq_left hle, hjoined] at hlen
  rw [message_cons, List.length_cons, List.length_append] at hle
  omega

theorem take_message_iff (argv : List CString) (hle : u ≤ (message argv).length) :
    (message argv).take u = expectedPrompt argv ↔ Joins argv u := by
  match argv with
  | [] =>
    rw [message, appendArgs, List.take_nil]
    exact iff_of_false (by decide) not_false
  | [arg] =>
    rw [message_cons, List.map_nil, List.flatten_nil, List.append_nil] at hle ⊢
    rw [expectedPrompt, List.map_singleton, List.intercalate_singleton, Joins]
    by_cases hempty : arg.bytes = []
    case pos =>
      refine iff_of_false (fun heq => ?_) fun hand => hand.1 hempty
      rw [hempty] at heq
      have hlen := congrArg List.length heq
      have hdefault : defaultText.length = 29 := by decide
      rw [List.length_take, List.length_singleton, if_pos rfl] at hlen
      omega
    case neg =>
      rw [if_neg hempty]
      constructor
      case mp =>
        intro heq
        have hlen := congrArg List.length heq
        rw [List.length_take, Nat.min_eq_left hle] at hlen
        rw [hlen] at heq
        exact ⟨hempty, (take_cons_iff _ _).mp heq, hlen⟩
      case mpr =>
        rintro ⟨-, hall, rfl⟩
        exact (take_cons_iff _ _).mpr hall
  | [arg, arg'] =>
    have hmessage : message [arg, arg'] = 32 :: arg.bytes ++ arg'.bytes := by
      rw [message_cons, List.map_singleton, List.flatten_singleton]
      rfl
    rw [expectedPrompt_pair, Joins]
    constructor
    case mp =>
      intro heq
      have hlen := congrArg List.length heq
      rw [List.length_take, Nat.min_eq_left hle, List.length_append, List.length_cons] at hlen
      have hu : u = (message [arg, arg']).length := by
        rw [hmessage, List.length_append, List.length_cons]
        omega
      rw [hu, List.take_length, hmessage, List.append_cons] at heq
      exact ⟨(cons_eq_append_iff _ _).mp (List.append_cancel_right heq), hu⟩
    case mpr =>
      rintro ⟨hall, rfl⟩
      rw [List.take_length, hmessage, (cons_eq_append_iff _ _).mpr hall, ← List.append_cons]
  | arg :: arg' :: arg'' :: argv => exact iff_of_false (take_message_ne (by simp) hle) not_false

-- The exchange is faithful exactly when it is about one or two arguments that are nothing but spaces in front, and only if
-- a password is supplied.
theorem run_faithful_iff (h : x.Possible) : (∃ o, x.run = some o ∧ Faithful x o) ↔
    Joins x.argv (uninterrupted x.threadReads (message x.argv).length) ∧
      ∃ value, x.answer = .handled value ∧ (value = [0xff] ∨ value.length < 2 ^ 31) := by
  have hprompt := take_message_iff x.argv (uninterrupted_le x.threadReads (message x.argv).length)
  rw [h.run_eq]
  constructor
  case mp =>
    rintro ⟨o, hrun, hfaithful⟩
    rw [Option.ite_none_right_eq_some] at hrun
    obtain ⟨hlt, hrun⟩ := hrun
    cases hrun
    refine ⟨hprompt.mp (Option.some.inj hfaithful.prompt), ?_⟩
    cases hanswer : x.answer with
    | handled value =>
      rw [hanswer] at hlt
      exact ⟨value, rfl, .inr hlt⟩
    | unhandled =>
      have hprinted := (hfaithful.missing fun value heq => by rw [hanswer] at heq; cases heq).1
      rw [hanswer] at hprinted
      cases hprinted
    | failed cancelled =>
      have hprinted := (hfaithful.missing fun value heq => by rw [hanswer] at heq; cases heq).1
      rw [hanswer] at hprinted
      cases hprinted
  case mpr =>
    rintro ⟨hjoins, value, hanswer, hvalue⟩
    have hlt : x.answer.reply.length < 2 ^ 31 := by
      rw [hanswer]
      cases hvalue with
      | inl hvalue => rw [hvalue]; decide
      | inr hvalue => exact hvalue
    refine ⟨_, if_pos hlt, congrArg some (hprompt.mpr hjoins), fun value' hanswer' hne => ?_, fun hmissing => ?_⟩
    · rw [hanswer']
      exact ⟨rfl, if_neg hne⟩
    · exact absurd hanswer (hmissing value)

-- A space and a letter as the arguments, and a password.
def space : Exchange where
  argv         := [⟨[32], by decide⟩, ⟨[80], by decide⟩]
  answer       := .handled [112, 119]
  memory       := fun _ => 0
  toolWrites   := [.moved 0, .again, .moved 0, .moved 0, .moved 0]
  threadReads  := List.replicate 4 (.moved 0)
  threadWrites := List.replicate 3 (.moved 0)
  toolReads    := List.replicate 3 (.moved 0)
  prints       := List.replicate 3 (.moved 0)

theorem space_possible : space.Possible where
  toolWrites   := ⟨by decide, by decide⟩
  threadReads  := ⟨by decide, by decide⟩
  threadWrites := ⟨by decide, by decide⟩
  toolReads    := ⟨by decide, by decide⟩
  prints       := ⟨by decide, by decide⟩

theorem space_faithful : ∃ o, space.run = some o ∧ Faithful space o :=
  (run_faithful_iff space_possible).mpr ⟨⟨fun _ => List.mem_singleton.mp, by decide +kernel⟩, _, rfl, .inr (by decide)⟩

-- A prompt that is passed as one argument, and nobody who answers.
def unanswered : Exchange where
  argv         := [⟨[80], by decide⟩]
  answer       := .unhandled
  memory       := fun _ => 0
  toolWrites   := List.replicate 3 (.moved 0)
  threadReads  := List.replicate 3 (.moved 255)
  threadWrites := List.replicate 2 (.moved 0)
  toolReads    := List.replicate 2 (.moved 127)
  prints       := List.replicate 2 (.moved 0)

theorem unanswered_possible : unanswered.Possible where
  toolWrites   := ⟨by decide, by decide⟩
  threadReads  := ⟨by decide, by decide⟩
  threadWrites := ⟨by decide, by decide⟩
  toolReads    := ⟨by decide, by decide⟩
  prints       := ⟨by decide, by decide⟩

theorem not_faithful_unanswered : ¬∀ x : Exchange, x.Possible → ∃ o, x.run = some o ∧ Faithful x o := by
  intro h
  obtain ⟨o, hrun, hfaithful⟩ := h unanswered unanswered_possible
  rw [unanswered_possible.run_eq] at hrun
  cases hrun
  exact absurd (hfaithful.missing nofun).1 (by decide)

end Outcome

end SshAskpass
