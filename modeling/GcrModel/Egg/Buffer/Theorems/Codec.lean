import GcrModel.Egg.Buffer.Buffer
import Mathlib.Tactic.IntervalCases

namespace EggBuffer

open GLib

section Numbers

theorem or_eq_add {b k : Nat} (a : Nat) (h : b < 2 ^ k) : a * 2 ^ k ||| b = a * 2 ^ k + b := by
  rw [← Nat.shiftLeft_eq, ← Nat.shiftLeft_add_eq_or_of_lt h]

theorem decodeUint16_encode (val : UInt16) : decodeUint16 (encodeUint16 val) = val := by
  have hval := val.toNat_lt
  have hmod : val.toNat / 256 % 256 * 256 % 65536 = val.toNat / 256 % 256 * 2 ^ 8 := by omega
  have hlow := @or_eq_add (val.toNat % 256) 8 (val.toNat / 256 % 256) (by omega)
  apply UInt16.toNat.inj
  simp only [encodeUint16, decodeUint16]
  simp only [UInt16.toNat_or, UInt16.toNat_shiftLeft, UInt8.toNat_toUInt16, UInt16.toNat_toUInt8, UInt16.toNat_shiftRight]
  simp only [Nat.shiftLeft_eq, Nat.shiftRight_eq_div_pow]
  exact (congrArg (· ||| val.toNat % 256) hmod).trans (hlow.trans (by omega))

theorem or_bytes {a b c d : Nat} (ha : a < 256) (hb : b < 256) (hc : c < 256) (hd : d < 256) :
    a * 2 ^ 24 % 2 ^ 32 ||| b * 2 ^ 16 % 2 ^ 32 ||| c * 2 ^ 8 % 2 ^ 32 ||| d =
      a * 2 ^ 24 + b * 2 ^ 16 + c * 2 ^ 8 + d := by
  have h₁ := @or_eq_add (b * 2 ^ 16) 24 a (by omega)
  have h₂ := @or_eq_add (c * 2 ^ 8) 16 (a * 2 ^ 8 + b) (by omega)
  have h₃ := @or_eq_add d 8 (a * 2 ^ 16 + b * 2 ^ 8 + c) (by omega)
  rw [show a * 2 ^ 24 % 2 ^ 32 = a * 2 ^ 24 by omega, show b * 2 ^ 16 % 2 ^ 32 = b * 2 ^ 16 by omega,
    show c * 2 ^ 8 % 2 ^ 32 = c * 2 ^ 8 by omega, h₁, show a * 2 ^ 24 + b * 2 ^ 16 = (a * 2 ^ 8 + b) * 2 ^ 16 by omega, h₂,
    show (a * 2 ^ 8 + b) * 2 ^ 16 + c * 2 ^ 8 = (a * 2 ^ 16 + b * 2 ^ 8 + c) * 2 ^ 8 by omega, h₃]

theorem decodeUint32_encode (val : UInt32) : decodeUint32 (encodeUint32 val) = val := by
  have hval := val.toNat_lt
  have hbytes := @or_bytes (val.toNat / 2 ^ 24 % 2 ^ 8) (val.toNat / 2 ^ 16 % 2 ^ 8) (val.toNat / 2 ^ 8 % 2 ^ 8)
    (val.toNat % 2 ^ 8) (by omega) (by omega) (by omega) (by omega)
  apply UInt32.toNat.inj
  simp only [encodeUint32, decodeUint32]
  simp only [UInt32.toNat_or, UInt32.toNat_shiftLeft, UInt8.toNat_toUInt32, UInt32.toNat_toUInt8, UInt32.toNat_shiftRight]
  simp only [Nat.shiftLeft_eq, Nat.shiftRight_eq_div_pow]
  exact hbytes.trans (by omega)

theorem encodeUint32_decode {ptr : Bytes} (h : ptr.length = 4) : encodeUint32 (decodeUint32 ptr) = ptr := by
  match ptr, h with
  | [a, b, c, d], _ =>
    have ha := a.toNat_lt
    have hb := b.toNat_lt
    have hc := c.toNat_lt
    have hd := d.toNat_lt
    have hval : (decodeUint32 [a, b, c, d]).toNat = a.toNat * 2 ^ 24 + b.toNat * 2 ^ 16 + c.toNat * 2 ^ 8 + d.toNat := by
      simp only [decodeUint32, UInt32.toNat_or, UInt32.toNat_shiftLeft, UInt8.toNat_toUInt32]
      simp only [Nat.shiftLeft_eq]
      exact or_bytes ha hb hc hd
    generalize decodeUint32 [a, b, c, d] = val at hval
    simp only [encodeUint32, List.cons.injEq, and_true, ← UInt8.toNat_inj, UInt32.toNat_toUInt8, UInt32.toNat_shiftRight]
    simp only [Nat.shiftRight_eq_div_pow, hval, UInt32.reduceToNat, Nat.reduceMod, Nat.reducePow]
    omega

theorem uint64_join (val : UInt64) : (val >>> 32).toUInt32.toUInt64 <<< 32 ||| val.toUInt32.toUInt64 = val := by
  have hval := val.toNat_lt
  have hmod : val.toNat / 2 ^ 32 % 2 ^ 32 * 2 ^ 32 % 2 ^ 64 = val.toNat / 2 ^ 32 % 2 ^ 32 * 2 ^ 32 := by omega
  have hlow := @or_eq_add (val.toNat % 2 ^ 32) 32 (val.toNat / 2 ^ 32 % 2 ^ 32) (by omega)
  apply UInt64.toNat.inj
  simp only [UInt64.toNat_or, UInt64.toNat_shiftLeft, UInt32.toNat_toUInt64, UInt64.toNat_toUInt32, UInt64.toNat_shiftRight]
  simp only [Nat.shiftLeft_eq, Nat.shiftRight_eq_div_pow]
  exact (congrArg (· ||| val.toNat % 2 ^ 32) hmod).trans (hlow.trans (by omega))

end Numbers

namespace Buffer

variable {b b' : Buffer} {front val val' rest : Bytes} {offset n : Nat} {allocator : Option Allocator}

@[simp]
theorem length_bytes (b : Buffer) : b.bytes.length = b.len := by
  rw [bytes, List.length_take, Nat.min_eq_left b.le]

section Write

-- What is promised of a call that adds: it stays in the memory, and if it returns TRUE then the value is behind the rest.
def Adds (b : Buffer) (val : Bytes) (x : Option (Bool × Buffer)) : Prop :=
  ∃ ret b', x = some (ret, b') ∧ (ret → b'.bytes = b.bytes ++ val)

theorem adds_false (b b' : Buffer) (val : Bytes) : Adds b val (some (false, b')) :=
  ⟨false, b', rfl, nofun⟩

theorem Adds.andThen {x : Option (Bool × Buffer)} {f : Buffer → Option (Bool × Buffer)} (h : Adds b val x)
    (hf : ∀ b', Adds b' val' (f b')) : Adds b (val ++ val') (andThen x f) := by
  obtain ⟨ret, b', rfl, hadd⟩ := h
  cases ret with
  | false => exact adds_false b b' _
  | true  =>
    obtain ⟨ret, b'', heq, hadd'⟩ := hf b'
    refine ⟨ret, b'', heq, fun hret => ?_⟩
    rw [hadd' hret, hadd rfl, List.append_assoc]

theorem reserve_spec (allocator : Option Allocator) (b : Buffer) (len : Nat) :
    ∃ ret b', b.reserve allocator len = (ret, b') ∧ b'.bytes = b.bytes ∧ b'.len = b.len ∧ (ret → len ≤ b'.buf.length) := by
  rw [reserve]
  split
  case isTrue hlt => exact ⟨true, b, rfl, rfl, rfl, fun _ => Nat.le_of_lt hlt⟩
  case isFalse hle =>
    dsimp only
    split
    case h_1 => exact ⟨false, b, rfl, rfl, rfl, nofun⟩
    case h_2 =>
      split
      case h_1 => exact ⟨false, _, rfl, rfl, rfl, nofun⟩
      case h_2 =>
        refine ⟨true, _, rfl, ?_, rfl, fun _ => ?_⟩
        · rw [bytes, bytes, List.take_append_of_le_length b.le]
        · rw [List.length_append, List.length_map, List.length_range]
          split
          all_goals omega

theorem write_spec {pos : Nat} (h : pos + val.length ≤ b.buf.length) :
    ∃ b', b.write pos val = some b' ∧ b'.len = b.len ∧ b'.buf.length = b.buf.length ∧
      b'.buf.take (pos + val.length) = b.buf.take pos ++ val := by
  refine ⟨_, dif_pos h, rfl, ?_, ?_⟩
  · simp only [List.length_append, List.length_take, List.length_drop]
    omega
  · refine List.take_left' ?_
    rw [List.length_append, List.length_take, Nat.min_eq_left (by omega)]

theorem setLen_eq (h : n ≤ b.buf.length) : b.setLen n = some { b with len := n, le := h } :=
  dif_pos h

theorem append_spec (allocator : Option Allocator) (b : Buffer) (val : Bytes) : Adds b val (b.append allocator val) := by
  obtain ⟨ret, b', hreserve, hbytes, hlen, hret⟩ := reserve_spec allocator b (b.len + val.length)
  rw [append, hreserve]
  cases ret with
  | false => exact adds_false b b' val
  | true  =>
    obtain ⟨b'', hwrite, hlen', hbuf, htake⟩ := @write_spec b' val b'.len (hlen ▸ hret rfl)
    have hfits : b''.len + val.length ≤ b''.buf.length := by
      rw [hlen', hbuf, hlen]
      exact hret rfl
    dsimp only
    rw [hwrite, Option.bind_some, setLen_eq hfits]
    refine ⟨true, _, rfl, fun _ => ?_⟩
    rw [← hbytes, bytes.eq_def b', ← htake, ← hlen']
    rfl

theorem addByte_spec (allocator : Option Allocator) (b : Buffer) (val : UInt8) : Adds b [val] (b.addByte allocator val) :=
  append_spec allocator b [val]

theorem addNumber_spec (allocator : Option Allocator) (b : Buffer) (val : Bytes) : Adds b val (b.addNumber allocator val) := by
  obtain ⟨ret, b', hreserve, hbytes, hlen, hret⟩ := reserve_spec allocator b (b.len + val.length)
  rw [addNumber, hreserve]
  cases ret with
  | false => exact adds_false b b' val
  | true  =>
    have hfits : b'.len + val.length ≤ b'.buf.length := by
      rw [hlen]
      exact hret rfl
    dsimp only
    rw [setLen_eq hfits, Option.bind_some, set, if_neg (by dsimp only; omega)]
    dsimp only
    rw [Nat.add_sub_cancel]
    obtain ⟨b'', hwrite, hlen', _, htake⟩ := @write_spec { b' with len := b'.len + val.length, le := hfits } val b'.len hfits
    rw [hwrite]
    refine ⟨true, b'', rfl, fun _ => ?_⟩
    rw [← hbytes, bytes, hlen', htake]
    rfl

-- A byte array or a string that may be NULL.
def encodeArray : Option Bytes → Bytes
  | none     => encodeUint32 0xffffffff
  | some val => encodeUint32 (UInt32.ofNat val.length) ++ val

theorem addByteArray_spec (allocator : Option Allocator) (b : Buffer) (val : Option Bytes) :
    Adds b (encodeArray val) (b.addByteArray allocator val) := by
  cases val with
  | none     => exact addNumber_spec allocator b _
  | some val =>
    rw [addByteArray]
    split
    case isTrue  => exact adds_false b b _
    case isFalse => exact (addNumber_spec allocator b _).andThen fun b' => append_spec allocator b' val

theorem addString_spec (allocator : Option Allocator) (b : Buffer) (str : Option Bytes) :
    Adds b (encodeArray str) (b.addString allocator str) := by
  cases str with
  | none     => exact addNumber_spec allocator b _
  | some str => exact addByteArray_spec allocator b (some str)

theorem addStrings_spec (allocator : Option Allocator) (b : Buffer) (strs : List Bytes) :
    Adds b (strs.flatMap fun str => encodeArray (some str)) (addStrings allocator strs b) := by
  induction strs generalizing b with
  | nil           => exact ⟨true, b, rfl, fun _ => (List.append_nil _).symm⟩
  | cons str strs ih => exact (addString_spec allocator b (some str)).andThen ih

theorem stringsOf_append (strs : List Bytes) : stringsOf (strs.map some ++ [none]) = some strs := by
  induction strs with
  | nil           => rfl
  | cons str strs ih => rw [List.map_cons, List.cons_append, stringsOf, ih, Option.map_some]

def encodeStrings (strs : List Bytes) : Bytes :=
  encodeUint32 (UInt32.ofNat strs.length) ++ strs.flatMap fun str => encodeArray (some str)

theorem addStringv_spec (allocator : Option Allocator) (b : Buffer) (strs : List Bytes) :
    Adds b (encodeStrings strs) (b.addStringv allocator (some (strs.map some ++ [none]))) := by
  rw [addStringv, stringsOf_append, Option.bind_some]
  exact (addNumber_spec allocator b _).andThen fun b' => addStrings_spec allocator b' strs

end Write

section Read

theorem peek_eq (h : offset + n ≤ b.len) : b.peek offset n = some ((b.bytes.drop offset).take n) := by
  rw [peek, if_pos h, bytes, List.drop_take, List.take_take, Nat.min_eq_left (by omega)]

theorem getNumber_eq {α : Type} (n : Nat) (decode : Bytes → α) (b : Buffer) (offset : Nat) :
    getNumber n decode b offset =
      some (if offset + n ≤ b.len then some (decode ((b.bytes.drop offset).take n), offset + n) else none) := by
  rw [getNumber]
  by_cases h : offset + n ≤ b.len
  case pos => rw [if_neg (by omega), peek_eq h, if_pos h, Option.map_some]
  case neg => rw [if_pos (by omega), if_neg h]

-- What stands at an offset.
def At (b : Buffer) (offset : Nat) (val : Bytes) : Prop :=
  val <+: b.bytes.drop offset ∧ offset + val.length ≤ b.len

theorem At.left (h : At b offset (val ++ val')) : At b offset val := by
  obtain ⟨⟨rest, hrest⟩, hle⟩ := h
  rw [List.length_append] at hle
  exact ⟨⟨val' ++ rest, by rw [← List.append_assoc, hrest]⟩, by omega⟩

theorem At.right (h : At b offset (val ++ val')) : At b (offset + val.length) val' := by
  obtain ⟨⟨rest, hrest⟩, hle⟩ := h
  rw [List.length_append] at hle
  refine ⟨⟨rest, ?_⟩, by omega⟩
  rw [← List.drop_drop, ← hrest, List.append_assoc, List.drop_left]

theorem At.take (h : At b offset val) : (b.bytes.drop offset).take val.length = val := by
  obtain ⟨⟨rest, hrest⟩, _⟩ := h
  rw [← hrest, List.take_left]

theorem At.getNumber {α : Type} {decode : Bytes → α} (h : At b offset val) (hn : val.length = n) :
    Buffer.getNumber n decode b offset = some (some (decode val, offset + n)) := by
  rw [getNumber_eq, ← hn, if_pos h.2, h.take]

theorem length_encodeUint32 (val : UInt32) : (encodeUint32 val).length = 4 :=
  rfl

theorem At.getUint32 {val : UInt32} (h : At b offset (encodeUint32 val)) :
    b.getUint32 offset = some (some (val, offset + 4)) := by
  have hread := @At.getNumber b _ offset 4 _ decodeUint32 h (length_encodeUint32 val)
  rwa [decodeUint32_encode] at hread

theorem next_some {α β : Type} (val : α) (offset : Nat) (f : α → Nat → Option (Option β)) :
    next (some (some (val, offset))) f = f val offset :=
  rfl

theorem At.getUint64 {val : UInt64}
    (h : At b offset (encodeUint32 (val >>> 32).toUInt32 ++ encodeUint32 val.toUInt32)) :
    b.getUint64 offset = some (some (val, offset + 8)) := by
  have hlow := h.right
  rw [length_encodeUint32] at hlow
  rw [Buffer.getUint64, h.left.getUint32, next_some, hlow.getUint32, next_some, uint64_join]

-- A length below the limit is read as it is, and is not the mark of NULL.
theorem toNat_ofNat {n : Nat} (h : n < 0x7fffffff) : (UInt32.ofNat n).toNat = n :=
  UInt32.toNat_ofNat_of_lt' (Nat.lt_trans h (by decide))

theorem not_le_ofNat {n : Nat} (h : n < 0x7fffffff) : ¬0x7fffffff ≤ UInt32.ofNat n := by
  rw [UInt32.le_iff_toNat_le, toNat_ofNat h]
  exact Nat.not_le.mpr h

theorem ofNat_ne {n : Nat} (h : n < 0x7fffffff) : UInt32.ofNat n ≠ 0xffffffff := by
  intro heq
  have hle := not_le_ofNat h
  rw [heq] at hle
  exact hle (by decide)

theorem At.getByteArray {val : Option Bytes} (h : At b offset (encodeArray val)) (hval : ∀ v ∈ val, v.length < 0x7fffffff) :
    b.getByteArray offset = some (some (val, offset + (encodeArray val).length)) := by
  cases val with
  | none => rw [Buffer.getByteArray, At.getUint32 h, next_some, if_pos rfl]; rfl
  | some val =>
    have hlt := hval val rfl
    have hright := h.right
    rw [length_encodeUint32] at hright
    have hle := hright.2
    rw [Buffer.getByteArray, At.getUint32 h.left, next_some, if_neg (ofNat_ne hlt), if_neg (not_le_ofNat hlt), toNat_ofNat hlt,
      if_neg (by omega), peek_eq hle, hright.take, encodeArray, List.length_append, length_encodeUint32, ← Nat.add_assoc]
    rfl

-- A string is read like a byte array, and there must be memory for it.
theorem At.storeString {allocator : Nat → Bool} {str : Option Bytes} (h : At b offset (encodeArray str))
    (hstr : ∀ s ∈ str, s.length < 0x7fffffff ∧ 0 ∉ s) :
    b.storeString allocator offset = some (some (
      if str.all fun s => allocator (s.length + 1) then (str, some (offset + (encodeArray str).length)) else (none, none))) := by
  cases str with
  | none     => rw [Buffer.storeString, At.getUint32 h, next_some, if_pos rfl]; rfl
  | some str =>
    obtain ⟨hlt, hnul⟩ := hstr str rfl
    have hright := h.right
    rw [length_encodeUint32] at hright
    have hle := hright.2
    rw [Buffer.storeString, At.getUint32 h.left, next_some, if_neg (ofNat_ne hlt), if_neg (not_le_ofNat hlt), toNat_ofNat hlt,
      if_neg (by omega), peek_eq hle, hright.take, Option.map_some, if_neg hnul, encodeArray, List.length_append,
      length_encodeUint32, ← Nat.add_assoc, Option.all_some]
    split
    all_goals rfl

theorem store_append (done : List (Option Bytes)) (str str' : Option Bytes) (more : List (Option Bytes)) :
    store (done ++ str' :: more) done.length str = some (done ++ str :: more) := by
  rw [store, if_pos, List.set_append_right _ _ (Nat.le_refl _), Nat.sub_self, List.set_cons_zero]
  rw [List.length_append, List.length_cons]
  omega

-- An allocator of which there is always memory.
def Gives (allocator : Nat → Nat → Bool) : Prop :=
  ∀ call size, 0 < size → allocator call size

theorem At.getStrings {allocator : Nat → Nat → Bool} (hgives : Gives allocator) {strs : List Bytes} {done : List (Option Bytes)}
    (h : At b offset (strs.flatMap fun str => encodeArray (some str))) (hstrs : ∀ s ∈ strs, s.length < 0x7fffffff ∧ 0 ∉ s) :
    getStrings allocator b strs.length done.length offset (done ++ List.replicate (strs.length + 1) none) =
      some (some (done ++ (strs.map some ++ [none]), offset + (strs.flatMap fun str => encodeArray (some str)).length)) := by
  induction strs generalizing done offset with
  | nil           => rfl
  | cons str strs ih =>
    rw [List.flatMap_cons] at h
    have hstore := @At.storeString b offset (allocator (done.length + 1)) (some str) h.left
      fun s hs => by cases hs; exact hstrs str List.mem_cons_self
    rw [Option.all_some, if_pos (hgives _ _ (Nat.succ_pos _))] at hstore
    have hrest := @ih _ (done ++ [some str]) h.right fun s hs => hstrs s (List.mem_cons_of_mem _ hs)
    rw [List.length_append, List.length_singleton, List.append_assoc, List.append_assoc] at hrest
    rw [List.length_cons, Buffer.getStrings, hstore, Option.bind_some]
    dsimp only
    rw [List.replicate_succ, store_append, Option.bind_some, List.flatMap_cons, List.length_append, ← Nat.add_assoc]
    exact hrest

theorem At.getStringv {allocator : Nat → Nat → Bool} (hgives : Gives allocator) {strs : List Bytes}
    (h : At b offset (encodeStrings strs)) (hcount : strs.length < 0x7fffffff)
    (hstrs : ∀ s ∈ strs, s.length < 0x7fffffff ∧ 0 ∉ s) :
    b.getStringv allocator offset = some (some (strs.map some ++ [none], offset + (encodeStrings strs).length)) := by
  have hright := h.right
  rw [length_encodeUint32] at hright
  have hread := @At.getStrings b (offset + 4) allocator hgives strs [] hright hstrs
  have hslots : (UInt32.ofNat strs.length + 1).toNat = strs.length + 1 := by
    rw [UInt32.toNat_add, toNat_ofNat hcount]
    exact Nat.mod_eq_of_lt (by dsimp only [UInt32.reduceToNat]; omega)
  rw [Buffer.getStringv, At.getUint32 h.left, next_some, hslots]
  dsimp only
  rw [if_pos (hgives _ _ (by omega)), toNat_ofNat hcount, Nat.mul_div_cancel _ (by decide), encodeStrings, List.length_append,
    length_encodeUint32, ← Nat.add_assoc]
  exact hread

end Read

section Contained

-- Nothing outside is touched, and if there is a value then the next offset is not behind the buffer.
def Contained {α : Type} (b : Buffer) (x : Option (Option (α × Nat))) : Prop :=
  ∃ res, x = some res ∧ ∀ val offset, res = some (val, offset) → offset ≤ b.len

theorem contained_none {α : Type} (b : Buffer) : Contained b (some (none : Option (α × Nat))) :=
  ⟨none, rfl, nofun⟩

theorem contained_some {α : Type} {val : α} (h : offset ≤ b.len) : Contained b (some (some (val, offset))) :=
  ⟨_, rfl, fun _ _ heq => by cases heq; exact h⟩

theorem Contained.next {α β : Type} {x : Option (Option (α × Nat))} {f : α → Nat → Option (Option (β × Nat))}
    (h : Contained b x) (hf : ∀ val offset, offset ≤ b.len → Contained b (f val offset)) : Contained b (next x f) := by
  obtain ⟨res, rfl, hle⟩ := h
  match res with
  | none               => exact contained_none b
  | some (val, offset) => exact hf val offset (hle val offset rfl)

theorem getNumber_contained {α : Type} (n : Nat) (decode : Bytes → α) (b : Buffer) (offset : Nat) :
    Contained b (getNumber n decode b offset) := by
  rw [getNumber_eq]
  split
  case isTrue h  => exact contained_some h
  case isFalse _ => exact contained_none b

theorem getUint64_contained (b : Buffer) (offset : Nat) : Contained b (b.getUint64 offset) :=
  (getNumber_contained 4 decodeUint32 b offset).next fun _ offset _ =>
    (getNumber_contained 4 decodeUint32 b offset).next fun _ _ hle => contained_some hle

theorem getByteArray_contained (b : Buffer) (offset : Nat) : Contained b (b.getByteArray offset) := by
  refine (getNumber_contained 4 decodeUint32 b offset).next fun len offset hle => ?_
  split
  case isTrue => exact contained_some hle
  case isFalse =>
    split
    case isTrue => exact contained_none b
    case isFalse =>
      split
      case isTrue => exact contained_none b
      case isFalse hfits =>
        have hend : offset + len.toNat ≤ b.len := by omega
        rw [peek_eq hend]
        exact contained_some hend

-- At an offset there is a string, or the mark of NULL.
def Readable (b : Buffer) (offset : Nat) : Prop :=
  ∃ str : Option Bytes, (∀ s ∈ str, s.length < 0x7fffffff ∧ 0 ∉ s) ∧ At b offset (encodeArray str)

theorem at_take (h : offset + n ≤ b.len) : At b offset ((b.bytes.drop offset).take n) := by
  refine ⟨List.take_prefix n _, ?_⟩
  rw [List.length_take, List.length_drop, length_bytes]
  omega

theorem At.append (h : At b offset val) (h' : At b (offset + val.length) val') : At b offset (val ++ val') := by
  obtain ⟨⟨rest, hrest⟩, hle⟩ := h
  obtain ⟨⟨rest', hrest'⟩, hle'⟩ := h'
  rw [← List.drop_drop, ← hrest, List.drop_left] at hrest'
  refine ⟨⟨rest', ?_⟩, ?_⟩
  · rw [List.append_assoc, hrest', hrest]
  · rw [List.length_append]
    omega

theorem at_getUint32 {val : UInt32} {next : Nat} (h : b.getUint32 offset = some (some (val, next))) :
    At b offset (encodeUint32 val) ∧ next = offset + 4 := by
  rw [getUint32, getNumber_eq] at h
  split at h
  case isFalse => cases h
  case isTrue hle =>
    cases h
    have htake := at_take hle
    rw [encodeUint32_decode]
    · exact ⟨htake, rfl⟩
    · rw [List.length_take, List.length_drop, length_bytes]
      omega

-- A string is stored just where there is one.
theorem storeString_spec (allocator : Nat → Bool) (b : Buffer) (offset : Nat) :
    ∃ res, b.storeString allocator offset = some res ∧ (∀ str next, res = some (str, some next) → next ≤ b.len) ∧
      (res.isSome ↔ Readable b offset) := by
  by_cases hread : Readable b offset
  case pos =>
    obtain ⟨str, hstr, hat⟩ := hread
    refine ⟨_, hat.storeString hstr, ?_, iff_of_true rfl ⟨str, hstr, hat⟩⟩
    intro str' next heq
    split at heq
    case isTrue  => cases heq; exact hat.2
    case isFalse => cases heq
  case neg =>
    refine ⟨none, ?_, nofun, iff_of_false nofun hread⟩
    obtain ⟨res, hres, _⟩ := getNumber_contained 4 decodeUint32 b offset
    match res with
    | none             => rw [storeString, getUint32, hres]; rfl
    | some (len, next) =>
      obtain ⟨hat, rfl⟩ := at_getUint32 hres
      rw [storeString, getUint32, hres, next_some]
      split
      case isTrue hnull => exact absurd ⟨none, nofun, by rw [hnull] at hat; exact hat⟩ hread
      case isFalse =>
        split
        case isTrue => rfl
        case isFalse hlt =>
          split
          case isTrue => rfl
          case isFalse hfits =>
            have hend : offset + 4 + len.toNat ≤ b.len := by omega
            have hlen : ((b.bytes.drop (offset + 4)).take len.toNat).length = len.toNat := by
              rw [List.length_take, List.length_drop, length_bytes]
              omega
            rw [peek_eq hend, Option.map_some]
            split
            case isTrue => rfl
            case isFalse hnul =>
              refine absurd ⟨some ((b.bytes.drop (offset + 4)).take len.toNat), ?_, ?_⟩ hread
              · rintro _ ⟨⟩
                rw [hlen]
                exact ⟨by rw [UInt32.le_iff_toNat_le] at hlt; exact Nat.not_le.mp hlt, hnul⟩
              · rw [encodeArray, hlen, UInt32.ofNat_toNat]
                exact hat.append (at_take hend)

theorem getString_contained (allocator : Nat → Bool) (b : Buffer) (offset : Nat) : Contained b (b.getString allocator offset) := by
  obtain ⟨res, hres, hle, _⟩ := storeString_spec allocator b offset
  rw [getString, hres, Option.map_some]
  match res, hle with
  | none,                  _   => exact contained_none b
  | some (_, none),        _   => exact contained_none b
  | some (str, some next), hle => exact contained_some (hle str next rfl)

theorem store_eq {strv : List (Option Bytes)} {i : Nat} (h : i < strv.length) (str : Option Bytes) :
    store strv i str = some (strv.set i str) :=
  if_pos h

theorem freeStrings_contained {strv : List (Option Bytes)} {i : Nat} (h : i ≤ strv.length) : Contained b (freeStrings strv i) := by
  rw [freeStrings, if_pos h]
  exact contained_none b

-- There is a place in the array for each string that is left.
theorem getStrings_contained {strv : List (Option Bytes)} {i : Nat} (allocator : Nat → Nat → Bool)
    (hfits : i + n ≤ strv.length) (hle : offset ≤ b.len) : Contained b (getStrings allocator b n i offset strv) := by
  induction n generalizing i offset strv with
  | zero => exact contained_some hle
  | succ n ih =>
    obtain ⟨res, hres, hnext, _⟩ := storeString_spec (allocator (i + 1)) b offset
    rw [getStrings, hres, Option.bind_some]
    match res, hnext with
    | none, _ => exact freeStrings_contained (by omega)
    | some (str, none), _ =>
      dsimp only
      rw [store_eq (by omega), Option.bind_some]
      exact freeStrings_contained (by rw [List.length_set]; omega)
    | some (str, some next), hnext =>
      dsimp only
      rw [store_eq (by omega), Option.bind_some]
      exact ih (by rw [List.length_set]; omega) (hnext str next rfl)

-- In an array without places, nothing can be stored.
theorem getStrings_nil (allocator : Nat → Nat → Bool) (b : Buffer) (offset n : Nat) :
    Contained b (getStrings allocator b (n + 1) 0 offset []) ↔ ¬Readable b offset := by
  obtain ⟨res, hres, _, hread⟩ := storeString_spec (allocator (0 + 1)) b offset
  rw [getStrings, hres, Option.bind_some, ← hread]
  match res with
  | none               => exact iff_of_true (contained_none b) nofun
  | some (_, none)     => exact iff_of_false (fun ⟨_, h, _⟩ => by cases h) (not_not.mpr rfl)
  | some (_, some _)   => exact iff_of_false (fun ⟨_, h, _⟩ => by cases h) (not_not.mpr rfl)

-- The count is such that its array has no places, there is memory for that, and a string follows.
structure Overruns (allocator : Nat → Nat → Bool) (b : Buffer) (offset : Nat) : Prop where
  count    : At b offset (encodeUint32 0xffffffff)
  memory   : allocator 0 0
  readable : Readable b (offset + 4)

theorem getStringv_contained_iff (allocator : Nat → Nat → Bool) (b : Buffer) (offset : Nat) :
    Contained b (b.getStringv allocator offset) ↔ ¬Overruns allocator b offset := by
  obtain ⟨res, hres, hle⟩ := getNumber_contained 4 decodeUint32 b offset
  match res with
  | none =>
    rw [getStringv, getUint32, hres]
    refine iff_of_true (contained_none b) fun h => ?_
    cases (At.getUint32 h.count).symm.trans hres
  | some (n, next) =>
    obtain ⟨hat, rfl⟩ := at_getUint32 hres
    rw [getStringv, getUint32, hres, next_some]
    dsimp only
    rw [Nat.mul_div_cancel _ (by decide)]
    by_cases hn : n = 0xffffffff
    case pos =>
      subst hn
      have hmany : (0xffffffff : UInt32).toNat = 4294967294 + 1 := rfl
      have hzero : ((0xffffffff : UInt32) + 1).toNat = 0 := rfl
      rw [hzero, hmany, List.replicate_zero]
      split
      case isTrue hmemory => exact (getStrings_nil allocator b _ _).trans ⟨fun h h' => h h'.readable, fun h h' => h ⟨hat, hmemory, h'⟩⟩
      case isFalse hmemory => exact iff_of_true (contained_none b) fun h => hmemory h.memory
    case neg =>
      have hslots : (n + 1).toNat = n.toNat + 1 := by
        have hlt := n.toNat_lt
        have hne : n.toNat ≠ 4294967295 := fun heq => hn (UInt32.toNat.inj heq)
        rw [UInt32.toNat_add]
        exact Nat.mod_eq_of_lt (by dsimp only [UInt32.reduceToNat]; omega)
      have hnot : ¬Overruns allocator b offset := fun h => hn (by cases (At.getUint32 h.count).symm.trans hres; rfl)
      refine iff_of_true ?_ hnot
      split
      case isTrue  => exact getStrings_contained allocator (by rw [List.length_replicate]; omega) (hle n _ rfl)
      case isFalse => exact contained_none b

end Contained

section Codec

inductive Value
  | byte (val : UInt8)
  | uint16 (val : UInt16)
  | uint32 (val : UInt32)
  | uint64 (val : UInt64)
  | byteArray (val : Option Bytes)
  | string (str : Option Bytes)
  | stringv (strv : List (Option Bytes))
  deriving DecidableEq, Repr

inductive Kind
  | byte
  | uint16
  | uint32
  | uint64
  | byteArray
  | string
  | stringv
  deriving DecidableEq, Repr

def Value.kind : Value → Kind
  | byte _      => .byte
  | uint16 _    => .uint16
  | uint32 _    => .uint32
  | uint64 _    => .uint64
  | byteArray _ => .byteArray
  | string _    => .string
  | stringv _   => .stringv

-- Strings have no NUL, sizes are below the limit, and an array of strings ends with NULL.
def IsString (str : Bytes) : Prop :=
  str.length < 0x7fffffff ∧ 0 ∉ str

def Value.Fits : Value → Prop
  | byteArray val => ∀ v ∈ val, v.length < 0x7fffffff
  | string str    => ∀ s ∈ str, IsString s
  | stringv strv  => ∃ strs : List Bytes, strv = strs.map some ++ [none] ∧ strs.length < 0x7fffffff ∧ ∀ s ∈ strs, IsString s
  | _             => True

def Value.add (allocator : Option Allocator) (b : Buffer) : Value → Option (Bool × Buffer)
  | byte val      => b.addByte allocator val
  | uint16 val    => b.addUint16 allocator val
  | uint32 val    => b.addUint32 allocator val
  | uint64 val    => b.addUint64 allocator val
  | byteArray val => b.addByteArray allocator val
  | string str    => b.addString allocator str
  | stringv strv  => b.addStringv allocator (some strv)

def valueOf {α : Type} (f : α → Value) (x : Option (Option (α × Nat))) : Option (Option (Value × Nat)) :=
  x.map fun res => res.map fun (val, next) => (f val, next)

def Kind.get (allocator : Nat → Nat → Bool) (b : Buffer) (offset : Nat) : Kind → Option (Option (Value × Nat))
  | byte      => valueOf .byte (b.getByte offset)
  | uint16    => valueOf .uint16 (b.getUint16 offset)
  | uint32    => valueOf .uint32 (b.getUint32 offset)
  | uint64    => valueOf .uint64 (b.getUint64 offset)
  | byteArray => valueOf .byteArray (b.getByteArray offset)
  | string    => valueOf .string (b.getString (allocator 0) offset)
  | stringv   => valueOf .stringv (b.getStringv allocator offset)

def addAll (allocator : Option Allocator) : List Value → Buffer → Option (Bool × Buffer)
  | [],      b => some (true, b)
  | v :: vs, b => andThen (v.add allocator b) (addAll allocator vs)

-- Each value is read where the one before ends.
def getAll (allocator : Nat → Nat → Bool) (b : Buffer) : List Kind → Nat → Option (Option (List Value × Nat))
  | [],      offset => some (some ([], offset))
  | k :: ks, offset =>
    next (k.get allocator b offset) fun v offset =>
      next (getAll allocator b ks offset) fun vs offset => some (some (v :: vs, offset))

def Value.encode : Value → Bytes
  | byte val      => [val]
  | uint16 val    => encodeUint16 val
  | uint32 val    => encodeUint32 val
  | uint64 val    => encodeUint32 (val >>> 32).toUInt32 ++ encodeUint32 val.toUInt32
  | byteArray val => encodeArray val
  | string str    => encodeArray str
  | stringv strv  => encodeStrings ((stringsOf strv).getD [])

variable {v : Value} {vs : List Value}

theorem Value.add_spec (h : v.Fits) (allocator : Option Allocator) (b : Buffer) : Adds b v.encode (v.add allocator b) := by
  cases v with
  | byte val      => exact addByte_spec allocator b val
  | uint16 val    => exact addNumber_spec allocator b _
  | uint32 val    => exact addNumber_spec allocator b _
  | uint64 val    => exact (addNumber_spec allocator b _).andThen fun b' => addNumber_spec allocator b' _
  | byteArray val => exact addByteArray_spec allocator b val
  | string str    => exact addString_spec allocator b str
  | stringv strv  =>
    obtain ⟨strs, rfl, _⟩ := h
    rw [encode, stringsOf_append, Option.getD_some]
    exact addStringv_spec allocator b strs

theorem Value.get_spec {allocator : Nat → Nat → Bool} (hgives : Gives allocator) (h : v.Fits) (hat : At b offset v.encode) :
    v.kind.get allocator b offset = some (some (v, offset + v.encode.length)) := by
  cases v with
  | byte val =>
    have hread := @At.getNumber b _ offset 1 _ (·.headD 0) hat rfl
    rw [kind, Kind.get, getByte, hread]
    rfl
  | uint16 val =>
    have hread := @At.getNumber b _ offset 2 _ decodeUint16 hat rfl
    rw [kind, Kind.get, getUint16, hread, encode, decodeUint16_encode]
    rfl
  | uint32 val =>
    rw [kind, Kind.get, At.getUint32 hat]
    rfl
  | uint64 val =>
    rw [kind, Kind.get, At.getUint64 hat]
    rfl
  | byteArray val =>
    rw [kind, Kind.get, At.getByteArray hat h]
    rfl
  | string str =>
    have hall : str.all (fun s => allocator 0 (s.length + 1)) := by
      cases str with
      | none     => rfl
      | some str => exact hgives _ _ (Nat.succ_pos _)
    rw [kind, Kind.get, getString, At.storeString hat h, if_pos hall]
    rfl
  | stringv strv =>
    obtain ⟨strs, rfl, hcount, hstrs⟩ := h
    rw [encode, stringsOf_append, Option.getD_some] at hat ⊢
    rw [kind, Kind.get, At.getStringv hgives hat hcount hstrs]
    rfl

theorem addAll_spec (h : ∀ v ∈ vs, v.Fits) (allocator : Option Allocator) (b : Buffer) :
    Adds b (vs.flatMap Value.encode) (addAll allocator vs b) := by
  induction vs generalizing b with
  | nil         => exact ⟨true, b, rfl, fun _ => (List.append_nil _).symm⟩
  | cons v vs ih =>
    obtain ⟨hv, hvs⟩ := List.forall_mem_cons.mp h
    exact (v.add_spec hv allocator b).andThen (ih hvs)

theorem getAll_spec {allocator : Nat → Nat → Bool} (hgives : Gives allocator) (h : ∀ v ∈ vs, v.Fits)
    (hat : At b offset (vs.flatMap Value.encode)) :
    getAll allocator b (vs.map Value.kind) offset = some (some (vs, offset + (vs.flatMap Value.encode).length)) := by
  induction vs generalizing offset with
  | nil         => rfl
  | cons v vs ih =>
    obtain ⟨hv, hvs⟩ := List.forall_mem_cons.mp h
    rw [List.flatMap_cons] at hat
    rw [List.map_cons, getAll, v.get_spec hgives hv hat.left, next_some, ih hvs hat.right, next_some, List.flatMap_cons,
      List.length_append, Nat.add_assoc]

-- What was written to an empty buffer is read again, up to its end.
theorem getAll_of_addAll {allocator : Option Allocator} {allocator' : Nat → Nat → Bool} (hgives : Gives allocator')
    (h : ∀ v ∈ vs, v.Fits) (hempty : b.len = 0) (hadd : addAll allocator vs b = some (true, b')) :
    getAll allocator' b' (vs.map Value.kind) 0 = some (some (vs, b'.len)) := by
  obtain ⟨ret, b'', heq, hbytes⟩ := addAll_spec h allocator b
  cases hadd.symm.trans heq
  have hnil : b.bytes = [] := List.eq_nil_of_length_eq_zero (by rw [length_bytes, hempty])
  have hall := hbytes rfl
  rw [hnil, List.nil_append] at hall
  have hlen : (vs.flatMap Value.encode).length = b'.len := by rw [← hall, length_bytes]
  have hat : At b' 0 (vs.flatMap Value.encode) := ⟨⟨[], by rw [List.append_nil, List.drop_zero, hall]⟩, by omega⟩
  rw [getAll_spec hgives h hat, Nat.zero_add, hlen]

theorem Contained.valueOf {α : Type} {x : Option (Option (α × Nat))} {f : α → Value} :
    Contained b (Buffer.valueOf f x) ↔ Contained b x := by
  match x with
  | none                   => exact iff_of_false (fun ⟨_, h, _⟩ => by cases h) (fun ⟨_, h, _⟩ => by cases h)
  | some none              => exact iff_of_true (contained_none b) (contained_none b)
  | some (some (val, next)) =>
    constructor
    · rintro ⟨_, ⟨⟩, hle⟩
      exact contained_some (hle _ _ rfl)
    · rintro ⟨_, ⟨⟩, hle⟩
      exact contained_some (hle _ _ rfl)

theorem Kind.get_contained_iff (kind : Kind) (allocator : Nat → Nat → Bool) (b : Buffer) (offset : Nat) :
    Contained b (kind.get allocator b offset) ↔ ¬(kind = .stringv ∧ Overruns allocator b offset) := by
  have hother (hkind : kind ≠ .stringv) (h : Contained b (kind.get allocator b offset)) :
      Contained b (kind.get allocator b offset) ↔ ¬(kind = .stringv ∧ Overruns allocator b offset) :=
    iff_of_true h fun hboth => hkind hboth.1
  cases kind with
  | byte      => exact hother nofun ((Contained.valueOf).mpr (getNumber_contained 1 _ b offset))
  | uint16    => exact hother nofun ((Contained.valueOf).mpr (getNumber_contained 2 _ b offset))
  | uint32    => exact hother nofun ((Contained.valueOf).mpr (getNumber_contained 4 _ b offset))
  | uint64    => exact hother nofun ((Contained.valueOf).mpr (getUint64_contained b offset))
  | byteArray => exact hother nofun ((Contained.valueOf).mpr (getByteArray_contained b offset))
  | string    => exact hother nofun ((Contained.valueOf).mpr (getString_contained _ b offset))
  | stringv   =>
    rw [get, Contained.valueOf, getStringv_contained_iff, and_iff_right rfl]

-- What is written is read again, and a call that reads stays in the buffer and in its array, but for that count.
theorem buffer_codec_iff (allocator : Nat → Nat → Bool) :
    (∀ (allocator' : Option Allocator) (vs : List Value) (b b' : Buffer), Gives allocator →
      (∀ v ∈ vs, v.Fits) → b.len = 0 → addAll allocator' vs b = some (true, b') →
        getAll allocator b' (vs.map Value.kind) 0 = some (some (vs, b'.len))) ∧
    ∀ (kind : Kind) (b : Buffer) (offset : Nat),
      Contained b (kind.get allocator b offset) ↔ ¬(kind = .stringv ∧ Overruns allocator b offset) :=
  ⟨fun _ _ _ _ hgives h hempty hadd => getAll_of_addAll hgives h hempty hadd, fun kind => kind.get_contained_iff allocator⟩

theorem buffer_codec_iff_string :
    let allocator : Option Allocator := some fun _ _ => some fun _ => 0
    let vs : List Value := [.byte 7, .string (some [65]), .stringv [some [66], some [67], none]]
    ∃ b', addAll allocator vs ⟨[], 0, 0, Nat.le_refl 0⟩ = some (true, b') ∧
      getAll (fun _ _ => true) b' (vs.map Value.kind) 0 = some (some (vs, b'.len)) := by
  intro allocator vs
  have hgives : Gives fun _ _ => true := fun _ _ _ => rfl
  have hfits : ∀ v ∈ vs, v.Fits := by
    intro v hv
    simp only [vs, List.mem_cons, List.not_mem_nil, or_false] at hv
    rcases hv with rfl | rfl | rfl
    · exact trivial
    · rintro _ ⟨⟩
      exact ⟨by decide, by decide⟩
    · exact ⟨[[66], [67]], rfl, by decide, by simp [IsString]⟩
  exact ⟨_, rfl, (buffer_codec_iff fun _ _ => true).1 allocator vs ⟨[], 0, 0, Nat.le_refl 0⟩ _ hgives hfits rfl rfl⟩

-- A count of 0xffffffff, and NULL as the first string: it is stored in an array of no bytes.
theorem not_buffer_contained : ¬∀ (kind : Kind) (allocator : Nat → Nat → Bool) (b : Buffer) (offset : Nat),
    Contained b (kind.get allocator b offset) := by
  intro h
  have hat : ∀ offset ≤ 4, At ⟨List.replicate 8 255, 8, 0, by decide⟩ offset (encodeUint32 0xffffffff) := by
    intro offset hle
    refine ⟨?_, Nat.add_le_add_right hle 4⟩
    interval_cases offset
    all_goals decide
  have hover : Overruns (fun _ _ => true) ⟨List.replicate 8 255, 8, 0, by decide⟩ 0 :=
    ⟨hat 0 (by decide), rfl, none, nofun, hat 4 (by decide)⟩
  exact (Kind.get_contained_iff .stringv _ _ 0).mp (h .stringv (fun _ _ => true) _ 0) ⟨rfl, hover⟩

end Codec

end Buffer

end EggBuffer
