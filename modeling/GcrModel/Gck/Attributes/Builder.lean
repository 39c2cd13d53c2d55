import GcrModel.Gck.Attributes.Attributes
import GcrModel.Library.Transition

-- gck-attributes.c: the values that builders, sets of attributes and single attributes share, with the counters in
-- front of them.
namespace Builder

open GLib Gck
open Transition (Outcome)

-- A value with its counter, a gint.
structure Value where
  refs  : Int
  bytes : Bytes

-- The values that are not freed. Where there is a value is never used again.
structure Values where
  cells : Nat → Option Value := fun _ => none
  next  : Nat := 0

-- `g_atomic_int_add`
def gAtomicIntAdd (n m : Int) : Int :=
  (n + m).bmod 0x100000000

def Values.put (h : Values) (v : Nat) (cell : Option Value) : Values :=
  { h with cells := Function.update h.cells v cell }

-- `value_new`, `value_take` and `value_blank` with what the memory has
def valueNew (h : Values) (data : Bytes) : Nat × Values :=
  (h.next, { h.put h.next (some ⟨1, data⟩) with next := h.next + 1 })

-- There is no result where freed memory is used.
def valueRef (h : Values) (v : Nat) : Option (Option Nat × Values) :=
  match h.cells v with
  | none      => none
  | some cell =>
    let h := h.put v (some { cell with refs := gAtomicIntAdd cell.refs 1 })
    some (if cell.refs ≤ 0 then none else some v, h)

def valueUnref (h : Values) (v : Nat) : Option Values :=
  match h.cells v with
  | none      => none
  | some cell =>
    let refs := gAtomicIntAdd cell.refs (-1)
    some (h.put v (if refs = 0 then none else some { cell with refs := refs }))

-- `(gulong)-1`
def gMaxulong : Nat := 0xFFFFFFFFFFFFFFFF

-- `GckAttribute`
structure Slot where
  type   : Nat
  value  : Option Nat := none
  length : Nat := 0
  deriving DecidableEq

-- What a caller gives for a value: no memory, memory of its own, or a part of a value.
inductive Memory
  | null
  | own (bytes : Bytes)
  | inValue (v offset length : Nat)

-- The length is that of the memory, or G_MAXULONG.
structure Data where
  memory  : Memory
  invalid : Bool := false

def Memory.length : Memory → Nat
  | .null               => 0
  | .own bytes          => bytes.length
  | .inValue _ _ length => length

def Data.length (data : Data) : Nat :=
  if data.invalid then gMaxulong else data.memory.length

def Memory.read (h : Values) : Memory → Option Bytes
  | .null                    => none
  | .own bytes               => some bytes
  | .inValue v offset length =>
    (h.cells v).bind fun cell =>
      if offset + length ≤ cell.bytes.length then some ((cell.bytes.drop offset).take length) else none

def builderPush (array : List Slot) (type : Nat) : List Slot :=
  array ++ [⟨type, none, 0⟩]

def builderClear (h : Values) (attr : Slot) : Option (Slot × Values) :=
  match attr.value with
  | none   => some ({ attr with length := 0 }, h)
  | some v => (valueUnref h v).map fun h => ({ attr with value := none, length := 0 }, h)

def findAttribute (attrs : List Slot) (type : Nat) : Option Nat :=
  attrs.findIdx? (·.type = type)

-- The array with the place of an attribute that has no value.
def builderClearOrPush (h : Values) (array : List Slot) (type : Nat) : Option (Nat × List Slot × Values) :=
  match findAttribute array type with
  | none   => some (array.length, builderPush array type, h)
  | some i =>
    match array[i]? with
    | none      => none
    | some attr => (builderClear h attr).map fun (attr, h) => (i, array.set i attr, h)

-- What an attribute without a value gets from the memory of a caller.
def fill (h : Values) (array : List Slot) (i type : Nat) (data : Data) : Option (List Slot × Values) :=
  if data.length = gMaxulong then some (array.set i ⟨type, none, gMaxulong⟩, h)
  else
    match data.memory with
    | .null  => some (array.set i ⟨type, none, 0⟩, h)
    | memory =>
      (memory.read h).map fun bytes =>
        let (v, h) := valueNew h bytes
        (array.set i ⟨type, some v, data.length⟩, h)

-- `gck_builder_add_data`, `gck_builder_take_data`, `gck_builder_add_empty` and `gck_builder_add_invalid`
def gckBuilderAddData (h : Values) (array : List Slot) (type : Nat) (data : Data) : Option (List Slot × Values) :=
  fill h (builderPush array type) array.length type data

-- `gck_builder_set_data`, `gck_builder_set_empty` and `gck_builder_set_invalid`
def gckBuilderSetData (h : Values) (array : List Slot) (type : Nat) (data : Data) : Option (List Slot × Values) :=
  match builderClearOrPush h array type with
  | none               => none
  | some (i, array, h) => fill h array i type data

-- The attribute that shares the value of another one, as `gck_attribute_init_copy` and `builder_copy` make it.
def shareValue (h : Values) (attr : Slot) : Option (Slot × Values) :=
  if attr.length = gMaxulong then some (⟨attr.type, none, gMaxulong⟩, h)
  else
    match attr.value with
    | none   => some (⟨attr.type, none, 0⟩, h)
    | some v => (valueRef h v).map fun (value, h) => (⟨attr.type, value, attr.length⟩, h)

def builderCopy (h : Values) (array : List Slot) (attr : Slot) (performingSet : Bool) : Option (List Slot × Values) :=
  match if performingSet then builderClearOrPush h array attr.type
    else some (array.length, builderPush array attr.type, h) with
  | none               => none
  | some (i, array, h) => (shareValue h attr).map fun (copy, h) => (array.set i copy, h)

-- The loops that copy attributes.
def copyAll (performingSet : Bool) : Values → List Slot → List Slot → Option (List Slot × Values)
  | h, array, []            => some (array, h)
  | h, array, attr :: attrs =>
    match builderCopy h array attr performingSet with
    | none            => none
    | some (array, h) => copyAll performingSet h array attrs

-- The attributes that `gck_builder_add_onlyv` and `gck_builder_add_exceptv` copy.
def only (onlyTypes : List Nat) (attrs : List Slot) : List Slot :=
  attrs.flatMap fun attr => (onlyTypes.filter (attr.type = ·)).map fun _ => attr

def except (exceptTypes : List Nat) (attrs : List Slot) : List Slot :=
  attrs.filter fun attr => exceptTypes.all (attr.type ≠ ·)

-- `gck_builder_clear`, `gck_attributes_unref` and `_gck_builder_prepare_in` give up all values.
def unrefAll : Values → List Slot → Option Values
  | h, []            => some h
  | h, attr :: attrs =>
    match attr.value with
    | none   => unrefAll h attrs
    | some v =>
      match valueUnref h v with
      | none   => none
      | some h => unrefAll h attrs

-- The attributes with the lengths that the module sets.
def prepareIn (lengths : List Nat) (array : List Slot) : List Slot :=
  array.zipIdx.map fun (attr, i) => ⟨attr.type, none, lengths.getD i 0⟩

-- What a module writes where it has room, and the length that it sets.
structure Answer where
  bytes  : Bytes
  length : Nat

def Answer.written (answer : Answer) (room : Nat) : Bytes :=
  (answer.bytes ++ List.replicate room 0).take room

def Answer.lengthIn (answer : Answer) (room : Nat) : Nat :=
  if answer.length ≤ room then answer.length else gMaxulong

def commitIn : Values → List Slot → List Answer → List Slot × Values
  | h, [], _                  => ([], h)
  | h, attr :: array, answers =>
    if attr.length ≠ 0 ∧ attr.length ≠ gMaxulong then
      let answer := answers.headD ⟨[], 0⟩
      let (v, h) := valueNew h (answer.written attr.length)
      let (array, h) := commitIn h array answers.tail
      (⟨attr.type, some v, answer.lengthIn attr.length⟩ :: array, h)
    else
      let (array, h) := commitIn h array answers.tail
      (⟨attr.type, none, attr.length⟩ :: array, h)

-- What has attributes. A set counts the references to it with a gint; how many there are is noted beside it. The
-- array of a builder is prepared between the two phases of a read.
inductive Holder
  | builder (array : List Slot) (prepared : Bool)
  | attributes (data : List Slot) (refs : Int) (references : Nat)
  | attribute (attr : Slot)

def Holder.slots : Holder → List Slot
  | .builder array _        => array
  | .attributes data _ _    => data
  | .attribute attr         => [attr]

structure State where
  values  : Values := {}
  holders : List Holder := []

def State.slots (s : State) : List Slot :=
  s.holders.flatMap Holder.slots

inductive Event
  | builderInit
  | addData (k type : Nat) (data : Data)
  | setData (k type : Nat) (data : Data)
  -- Whether the array of the builder moves when it grows.
  | addAttribute (k j i : Nat) (moved : Bool)
  | copy (k : Nat)
  | addAll (k j : Nat)
  | addOnlyv (k j : Nat) (onlyTypes : List Nat)
  | addExceptv (k j : Nat) (exceptTypes : List Nat)
  | setAll (k j : Nat)
  | clear (k : Nat)
  | finish (k : Nat)
  | prepareIn (k : Nat) (lengths : List Nat)
  | commitIn (k : Nat) (answers : List Answer)
  | ref (j : Nat)
  | unref (j : Nat)
  | init (type : Nat) (data : Data)
  | initCopy (j i : Nat)
  | clearAttribute (j : Nat)

-- A builder with a new array.
def State.built (s : State) (k : Nat) (result : Option (List Slot × Values)) : Outcome State :=
  match result with
  | none            => .aborted
  | some (array, h) => .ok ⟨h, s.holders.set k (.builder array false)⟩

def State.builder (s : State) (k : Nat) (g : List Slot → Outcome State) : Outcome State :=
  match s.holders[k]? with
  | some (.builder array _) => g array
  | _                       => .refused

-- A set that is referred to.
def State.attributes (s : State) (j : Nat) (g : List Slot → Outcome State) : Outcome State :=
  match s.holders[j]? with
  | some (.attributes data _ references) => if 0 < references then g data else .refused
  | _                                    => .refused

def State.slot (s : State) (j i : Nat) : Option Slot :=
  (s.holders[j]?).bind (·.slots[i]?)

def after (s : State) : Event → Outcome State
  | .builderInit             => .ok { s with holders := s.holders ++ [.builder [] false] }
  | .addData k type data     => s.builder k fun array => s.built k (gckBuilderAddData s.values array type data)
  | .setData k type data     => s.builder k fun array => s.built k (gckBuilderSetData s.values array type data)
  | .addAttribute k j i moved =>
    s.builder k fun array =>
      match s.slot j i with
      | none      => .refused
      | some attr => if k = j ∧ moved then .aborted else s.built k (builderCopy s.values array attr false)
  | .copy k                  =>
    s.builder k fun array =>
      match copyAll false s.values [] array with
      | none             => .aborted
      | some (copied, h) => .ok ⟨h, s.holders ++ [.builder copied false]⟩
  | .addAll k j              =>
    s.builder k fun array => s.attributes j fun data => s.built k (copyAll false s.values array data)
  | .addOnlyv k j types      =>
    s.builder k fun array => s.attributes j fun data => s.built k (copyAll false s.values array (only types data))
  | .addExceptv k j types    =>
    s.builder k fun array => s.attributes j fun data => s.built k (copyAll false s.values array (except types data))
  | .setAll k j              =>
    s.builder k fun array => s.attributes j fun data => s.built k (copyAll true s.values array data)
  | .clear k                 =>
    s.builder k fun array => s.built k ((unrefAll s.values array).map fun h => ([], h))
  | .finish k                =>
    s.builder k fun array =>
      .ok { s with holders := s.holders.set k (.builder [] false) ++ [.attributes array 1 1] }
  | .prepareIn k lengths     =>
    s.builder k fun array =>
      match unrefAll s.values array with
      | none   => .aborted
      | some h => .ok ⟨h, s.holders.set k (.builder (prepareIn lengths array) true)⟩
  | .commitIn k answers      =>
    match s.holders[k]? with
    | some (.builder array true) => s.built k (some (commitIn s.values array answers))
    | _                          => .refused
  | .ref j                   =>
    match s.holders[j]? with
    | some (.attributes data refs references) =>
      if 0 < references then
        .ok { s with holders := s.holders.set j (.attributes data (gAtomicIntAdd refs 1) (references + 1)) }
      else .refused
    | _                                       => .refused
  | .unref j                 =>
    match s.holders[j]? with
    | some (.attributes data refs references) =>
      if 0 < references then
        if gAtomicIntAdd refs (-1) = 0 then
          match unrefAll s.values data with
          | none   => .aborted
          | some h => .ok ⟨h, s.holders.set j (.attributes [] 0 (references - 1))⟩
        else .ok { s with holders := s.holders.set j (.attributes data (gAtomicIntAdd refs (-1)) (references - 1)) }
      else .refused
    | _                                       => .refused
  | .init type data          =>
    match fill s.values [⟨type, none, 0⟩] 0 type data with
    | none             => .aborted
    | some (copied, h) => .ok ⟨h, s.holders ++ copied.map .attribute⟩
  | .initCopy j i            =>
    match s.slot j i with
    | none      => .refused
    | some attr =>
      match shareValue s.values attr with
      | none           => .aborted
      | some (copy, h) => .ok ⟨h, s.holders ++ [.attribute copy]⟩
  | .clearAttribute j        =>
    match s.holders[j]? with
    | some (.attribute attr) =>
      match builderClear s.values attr with
      | none           => .aborted
      | some (attr, h) => .ok ⟨h, s.holders.set j (.attribute attr)⟩
    | _                      => .refused

-- The memory that an event is given can be read.
def Data.Given (h : Values) (data : Data) : Prop :=
  data.length ≠ gMaxulong → data.memory ≠ .null → (data.memory.read h).isSome

def Event.Given (s : State) : Event → Prop
  | .addData _ _ data => data.Given s.values
  | .setData _ _ data => data.Given s.values
  | .init _ data      => data.Given s.values
  | _                 => True

def Step (s : State) (e : Event) (s' : State) : Prop :=
  e.Given s ∧ after s e = .ok s'

def Run : List (State × Event × State) → State → Prop :=
  Transition.Run (· = {}) Step

def State.count (s : State) (v : Nat) : Nat :=
  s.slots.countP (·.value = some v)

-- What is seen of an attribute.
structure Seen where
  type   : Nat
  length : Nat
  bytes  : Option Bytes

def see (h : Values) (attr : Slot) : Seen :=
  ⟨attr.type, attr.length, (attr.value.bind h.cells).map Value.bytes⟩

def State.view (s : State) (j : Nat) : Option (List Seen) :=
  (s.holders[j]?).map fun holder => holder.slots.map (see s.values)

-- What is to be seen of an attribute with the data of a caller.
def Data.seen (h : Values) (type : Nat) (data : Data) : Seen :=
  if data.length = gMaxulong then ⟨type, gMaxulong, none⟩
  else
    match data.memory with
    | .null  => ⟨type, 0, none⟩
    | memory => ⟨type, data.length, memory.read h⟩

-- What is to be seen of a copy.
def Seen.copy (attr : Seen) : Seen :=
  if attr.length = gMaxulong then ⟨attr.type, gMaxulong, none⟩
  else if attr.bytes.isNone = true then ⟨attr.type, 0, none⟩
  else attr

def setFirst (attr : Seen) : List Seen → List Seen
  | []         => [attr]
  | a :: attrs => if a.type = attr.type then attr :: attrs else a :: setFirst attr attrs

-- The one that an event writes to.
def Event.target : Event → Option Nat
  | .addData k _ _ | .setData k _ _ | .addAttribute k _ _ _ | .addAll k _ | .addOnlyv k _ _ | .addExceptv k _ _
  | .setAll k _ | .clear k | .finish k | .prepareIn k _ | .commitIn k _ | .clearAttribute k => some k
  | .unref j                                                                                => some j
  | .builderInit | .copy _ | .ref _ | .init _ _ | .initCopy _ _                             => none

-- What an event does to what is seen. A set that is still referred to does not change.
structure Effect (s : State) (e : Event) (s' : State) : Prop where
  others     : ∀ j, j < s.holders.length → e.target ≠ some j → s'.view j = s.view j
  referenced : ∀ j data refs references, j < s.holders.length →
    s'.holders[j]? = some (.attributes data refs references) → 0 < references → s'.view j = s.view j
  added      : ∀ k type data, e = .addData k type data → s'.view k = (s.view k).map (· ++ [data.seen s.values type])
  copied     : ∀ k j i moved, e = .addAttribute k j i moved →
    s'.view k = (s.view k).map (· ++ ((s.slot j i).map fun attr => (see s.values attr).copy).toList)
  set        : ∀ k type data, e = .setData k type data →
    s'.view k = (s.view k).map (setFirst (data.seen s.values type))

-- The attributes that an event copies.
def Event.copied (s : State) (e : Event) : List Slot :=
  let slots (j : Nat) := ((s.holders[j]?).map Holder.slots).getD []
  match e with
  | .addAttribute _ j i _     => (s.slot j i).toList
  | .initCopy j i             => (s.slot j i).toList
  | .copy k                   => slots k
  | .addAll _ j               => slots j
  | .setAll _ j               => slots j
  | .addOnlyv _ j onlyTypes   => only onlyTypes (slots j)
  | .addExceptv _ j types     => except types (slots j)
  | _                         => []

-- The memory that an attribute is set from is not that of the value that goes away, an attribute that is added is
-- not in an array that moves, and the counters do not overflow.
structure Regular (s : State) (e : Event) : Prop where
  apart  : ∀ k type data array prepared attr v offset length, e = .setData k type data →
    s.holders[k]? = some (.builder array prepared) → array.find? (·.type = type) = some attr → attr.value = some v →
    data.memory = .inValue v offset length → data.invalid = false → s.count v ≠ 1
  moves  : ∀ k j i, e ≠ .addAttribute k j i true ∨ k ≠ j
  shares : ∀ v, s.count v + (e.copied s).countP (·.value = some v) < 0x80000000
  refs   : ∀ j data refs references, e = .ref j → s.holders[j]? = some (.attributes data refs references) →
    references < 0x100000000

-- Each counter is the number of attributes with the value, and a value is there as long as there is one.
structure Shared (s : State) : Prop where
  counted : ∀ v cell, s.values.cells v = some cell → cell.refs = s.count v
  freed   : ∀ v, (s.values.cells v).isSome ↔ 0 < s.count v

-- No freed memory is used, the counters stay right, and nothing else changes than the event says.
def Kept (s : State) (e : Event) : Prop :=
  after s e ≠ .aborted ∧ ∀ s', after s e = .ok s' → Shared s' ∧ Effect s e s'

end Builder
