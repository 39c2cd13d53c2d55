import GcrModel.Gcr.Openpgp.Packets

-- Where the packets and the subpackets begin and end, as a format of byte strings.
namespace Openpgp

open GLib

abbrev Format := StateT Bytes Option

namespace Format

def byte : Format UInt8
  | []        => none
  | c :: text => some (c, text)

def bytes (length : Nat) : Format Bytes := fun text =>
  if text.length < length then none else some (text.take length, text.drop length)

def uint (width : Nat) : Format Nat := do
  let buf ← bytes width
  pure (bigEndian buf)

def remaining : Format Nat := fun text =>
  some (text.length, text)

def newLength : Format Nat := do
  let c ← byte
  if c < 192 then pure c.toNat
  else if c ≤ 223 then do
    let c1 ← byte
    pure ((c.toNat - 192) * 256 + c1.toNat + 192)
  else if c = 255 then uint 4
  else failure

def oldLength (ctb : UInt8) : Format Nat :=
  if ctb.toNat % 4 = 0 then do
    let c ← byte
    pure c.toNat
  else if ctb.toNat % 4 = 1 then uint 2
  else if ctb.toNat % 4 = 2 then uint 4
  else remaining

-- The type and the length of a packet, which is there completely.
def header : Format (UInt8 × Nat) := do
  let ctb ← byte
  if ctb < 128 then failure
  else do
    let newCtb := ctb.toNat / 64 % 2 = 1
    let length ← if newCtb then newLength else oldLength ctb
    let rest ← remaining
    if rest < length then failure else pure (if newCtb then ctb % 64 else ctb % 64 / 4, length)

def packet : Format (UInt8 × Bytes) := do
  let (pktType, length) ← header
  let body ← bytes length
  pure (pktType, body)

theorem run_remaining_bind {α : Type} (f : Nat → Format α) (text : Bytes) :
    (remaining >>= f).run text = (f text.length).run text :=
  rfl

-- The body of a packet follows its header.
theorem le_of_header {text text' : Bytes} {p : UInt8 × Nat} (h : header.run text = some (p, text')) :
    p.2 ≤ text'.length := by
  have hcomplete {pktType : UInt8} {length : Nat} {before : Bytes} (h : StateT.run (do
      let rest ← remaining
      if rest < length then failure else pure (pktType, length) : Format (UInt8 × Nat)) before = some (p, text')) :
      p.2 ≤ text'.length := by
    rw [run_remaining_bind] at h
    split at h
    case isTrue  => cases h
    case isFalse =>
      cases h
      omega
  rw [header, StateT.run_bind] at h
  obtain ⟨⟨ctb, before⟩, _, h⟩ := Option.bind_eq_some_iff.mp h
  dsimp only at h
  split at h
  case isTrue  => cases h
  case isFalse =>
    split at h
    all_goals
      rw [StateT.run_bind] at h
      obtain ⟨⟨length, before⟩, _, h⟩ := Option.bind_eq_some_iff.mp h
      exact hcomplete h

theorem run_packet_none {text : Bytes} (h : header.run text = none) : packet.run text = none := by
  rw [packet, StateT.run_bind, h]
  rfl

theorem run_bytes_le {text : Bytes} {n : Nat} (h : n ≤ text.length) :
    (bytes n).run text = some (text.take n, text.drop n) :=
  if_neg (Nat.not_lt.mpr h)

theorem run_bytes {text : Bytes} {n : Nat} (h : text.length = n) (u : Bytes) : (bytes n).run (text ++ u) = some (text, u) := by
  have hlt : ¬(text ++ u).length < n := by
    rw [List.length_append]
    omega
  subst h
  change (if (text ++ u).length < text.length then none else some ((text ++ u).take text.length, (text ++ u).drop text.length)) = _
  rw [if_neg hlt, List.take_left, List.drop_left]

theorem run_packet_some {text text' : Bytes} {pktType : UInt8} {length : Nat}
    (h : header.run text = some ((pktType, length), text')) :
    packet.run text = some ((pktType, text'.take length), text'.drop length) := by
  have hbytes : (bytes length).run text' = some (text'.take length, text'.drop length) := run_bytes_le (le_of_header h)
  rw [packet, StateT.run_bind, h]
  change ((bytes length >>= fun body => pure (pktType, body) : Format (UInt8 × Bytes)).run text') = _
  rw [StateT.run_bind, hbytes]
  rfl

-- At least `n` bytes are read.
def Consumes {α : Type} (n : Nat) (f : Format α) : Prop :=
  ∀ text a text', f.run text = some (a, text') → text'.length + n ≤ text.length

section

variable {α β : Type} {f f' : Format α} {g : α → Format β} {n k : Nat} {a : α}

theorem Consumes.pure : Consumes 0 (Pure.pure a : Format α) := by
  intro text b text' h
  cases h
  exact Nat.le_refl _

theorem Consumes.failure : Consumes n (Alternative.failure : Format α) := by
  intro text b text' h
  cases h

theorem Consumes.bind (hf : Consumes n f) (hg : ∀ a, Consumes k (g a)) : Consumes (n + k) (f >>= g) := by
  intro text b text' h
  rw [StateT.run_bind] at h
  obtain ⟨⟨a, middle⟩, hmiddle, h⟩ := Option.bind_eq_some_iff.mp h
  have := hf text a middle hmiddle
  have := hg a middle b text' h
  omega

theorem Consumes.ite {c : Prop} [Decidable c] (h : Consumes n f) (h' : Consumes n f') :
    Consumes n (if c then f else f') := by
  split
  case isTrue  => exact h
  case isFalse => exact h'

theorem Consumes.weaken (h : Consumes n f) (hk : k ≤ n) : Consumes k f :=
  fun text a text' hrun => Nat.le_trans (Nat.add_le_add_left hk _) (h text a text' hrun)

end

theorem consumes_byte : Consumes 1 byte := by
  intro text c text' h
  cases text with
  | nil      => cases h
  | cons _ _ =>
    cases h
    exact Nat.le_refl _

theorem consumes_bytes (n : Nat) : Consumes n (bytes n) := by
  intro text buf text' h
  change (if text.length < n then none else some (text.take n, text.drop n)) = some (buf, text') at h
  split at h
  case isTrue  => cases h
  case isFalse =>
    cases h
    rw [List.length_drop]
    omega

theorem consumes_uint (n : Nat) : Consumes n (uint n) :=
  (consumes_bytes n).bind fun _ => .pure

theorem consumes_newLength : Consumes 1 newLength := by
  apply (consumes_byte).bind (k := 0)
  intro c
  apply Consumes.ite .pure
  apply Consumes.ite
  · exact ((consumes_byte).bind fun _ => .pure).weaken (Nat.zero_le _)
  · exact Consumes.ite ((consumes_uint 4).weaken (Nat.zero_le _)) .failure

theorem consumes_remaining : Consumes 0 remaining := by
  intro text n text' h
  cases h
  exact Nat.le_refl _

theorem consumes_oldLength (ctb : UInt8) : Consumes 0 (oldLength ctb) := by
  apply Consumes.ite
  · exact ((consumes_byte).bind fun _ => .pure).weaken (Nat.zero_le _)
  apply Consumes.ite ((consumes_uint 2).weaken (Nat.zero_le _))
  exact Consumes.ite ((consumes_uint 4).weaken (Nat.zero_le _)) consumes_remaining

theorem consumes_header : Consumes 1 header := by
  have hrest (pktType : UInt8) (length : Nat) : Consumes 0
      (do let rest ← remaining; if rest < length then failure else pure (pktType, length) : Format (UInt8 × Nat)) :=
    (consumes_remaining).bind fun _ => Consumes.ite .failure .pure
  apply (consumes_byte).bind (k := 0)
  intro ctb
  apply Consumes.ite .failure
  apply Consumes.ite
  · exact ((consumes_newLength).bind fun _ => hrest _ _).weaken (Nat.zero_le _)
  · exact (consumes_oldLength ctb).bind fun _ => hrest _ _

theorem consumes_packet : Consumes 1 packet :=
  (consumes_header).bind fun _ => ((consumes_bytes _).bind fun _ => .pure).weaken (Nat.zero_le _)

-- The packets up to the end or to the first header that cannot be read.
def packets (text : Bytes) : List (UInt8 × Bytes) :=
  match _h : packet.run text with
  | none             => []
  | some (pkt, text') => pkt :: packets text'
termination_by text.length
decreasing_by exact consumes_packet text pkt text' _h

theorem packets_none {text : Bytes} (h : packet.run text = none) : packets text = [] := by
  rw [packets]
  split
  case h_1 => rfl
  case h_2 h' => cases h.symm.trans h'

theorem packets_some {text text' : Bytes} {pkt : UInt8 × Bytes} (h : packet.run text = some (pkt, text')) :
    packets text = pkt :: packets text' := by
  rw [packets]
  split
  case h_1 h' => cases h.symm.trans h'
  case h_2 h' =>
    cases h.symm.trans h'
    rfl

-- The subpackets of a user attribute up to the end or to the first one with no length or no type. The length
-- counts the type, and behind a length of zero the type is read again as a length.
inductive SubpacketsFit (attributes : Bool) : Bytes → Prop
  | noLength {text} (h : newLength.run text = none) : SubpacketsFit attributes text
  | noType {text length} (h : newLength.run text = some (length, [])) : SubpacketsFit attributes text
  | next {text length text'} (h : newLength.run text = some (length, text')) (type : text' ≠ [])
    (nonempty : attributes → 2 ≤ length) (fits : length ≤ text'.length)
    (rest : SubpacketsFit attributes (text'.drop length)) : SubpacketsFit attributes text

-- A user id is not empty, and neither is a user attribute, whose subpackets fit.
structure PacketFits (flags : Flags) (pkt : UInt8 × Bytes) : Prop where
  userId        : pkt.1 = 13 → pkt.2 ≠ []
  userAttribute : pkt.1 = 17 → pkt.2 ≠ [] ∧ SubpacketsFit flags.attributes pkt.2

end Format

end Openpgp
