import GcrModel.Gcr.Openpgp.Theorems.Attributes
import GcrModel.Gcr.Openpgp.Theorems.Signatures

namespace Openpgp

open GLib Format
open Scan (Meets Gives Exactly)

variable {hashes : Hashes} {now : Nat → UInt64} {flags : Flags} {data body : Bytes} {pktType : UInt8}
  {closure : Closure} {block : Option Nat} {beg stop : Nat} {rs : List Record}

def Closure.Shaped (closure : Closure) : Prop :=
  AllShaped closure.records

-- The block that is emitted in front of `stop` has begun before.
def Begun (data : Bytes) (block : Option Nat) (stop : Nat) : Prop :=
  ∀ beg, block = some beg → beg ≤ stop ∧ stop ≤ data.length

theorem Begun.mono {stop' : Nat} (h : Begun data block stop) (hle : stop ≤ stop') (hstop : stop' ≤ data.length) :
    Begun data block stop' :=
  fun beg hbeg => ⟨Nat.le_trans (h beg hbeg).1 hle, hstop⟩

-- What the parsers of keys and signatures do with the body of a packet.
theorem exactly_of_stays {x : Parse Unit} (hs : AllShaped rs)
    (h : Stays body.length x) : Exactly True (x ⟨0, rs⟩) fun r => AllShaped r.2.records := by
  have hwithin : Within body.length ⟨0, rs⟩ := ⟨Nat.le_refl _, Nat.zero_le _, Nat.zero_le _, hs⟩
  apply (Exactly.of_meets h hwithin).mono
  rintro ⟨_ | a, s⟩ ⟨hsome, hnone⟩
  · exact hnone rfl
  · exact (hsome a rfl).shaped

theorem parseOpenpgpPacket_exactly (hashes : Hashes) (flags : Flags) (body : Bytes) (pktType : UInt8)
    (hs : AllShaped rs) : Exactly (PacketFits flags (pktType, body)) (parseOpenpgpPacket hashes flags body body.length pktType ⟨0, rs⟩)
      fun r => AllShaped r.2.records := by
  have hother {x : Parse Unit} (h13 : pktType ≠ 13) (h17 : pktType ≠ 17)
      (h : Exactly True (x ⟨0, rs⟩) fun r => AllShaped r.2.records) :
      Exactly (PacketFits flags (pktType, body)) (x ⟨0, rs⟩) fun r => AllShaped r.2.records :=
    h.congr (iff_true_intro ⟨fun h => absurd h h13, fun h => absurd h h17⟩)
  have h : body.length ≤ body.length := Nat.le_refl _
  rw [parseOpenpgpPacket]
  split
  case isTrue htype =>
    subst htype
    exact hother (by decide) (by decide) (exactly_of_stays hs (parsePublicKeyOrSubkey_meets h (by decide) _))
  split
  case isTrue htype =>
    subst htype
    exact hother (by decide) (by decide) (exactly_of_stays hs (parsePublicKeyOrSubkey_meets h (by decide) _))
  split
  case isTrue htype =>
    subst htype
    apply (parseUserId_exactly (s := ⟨0, rs⟩) hashes hs (Nat.zero_le _)).congr
    have hne : (13 : UInt8) ≠ 17 := by decide
    rw [List.length_pos_iff]
    constructor
    · exact fun hfits => hfits.userId rfl
    · exact fun hbody => ⟨fun _ => hbody, fun h => absurd h hne⟩
  split
  case isTrue htype =>
    subst htype
    apply (parseUserAttribute_exactly (s := ⟨0, rs⟩) hashes hs rfl).congr
    have hne : (17 : UInt8) ≠ 13 := by decide
    constructor
    · exact fun hfits => hfits.userAttribute rfl
    · exact fun hbody => ⟨fun h => absurd h hne, fun _ => hbody⟩
  split
  case isTrue htype =>
    subst htype
    exact hother (by decide) (by decide) (exactly_of_stays hs (parseSignature_meets h))
  split
  case isTrue htype =>
    subst htype
    exact hother (by decide) (by decide) (exactly_of_stays hs (parseSecretKeyOrSubkey_meets h))
  split
  case isTrue htype =>
    subst htype
    exact hother (by decide) (by decide) (exactly_of_stays hs (parseSecretKeyOrSubkey_meets h))
  case isFalse h6 h14 h13 h17 h2 h5 h7 =>
    exact hother h13 h17 (.of_gives ⟨_, rfl, hs⟩)

theorem parsePacket_exactly (hashes : Hashes) (flags : Flags) (pktType : UInt8) (body : Bytes) (hs : closure.Shaped) :
    Exactly (flags.noRecords ∨ PacketFits flags (pktType, body)) (parsePacket hashes flags closure pktType body)
      Closure.Shaped := by
  rw [parsePacket]
  split
  case isTrue h =>
    apply Exactly.congr (.of_gives (.pure hs))
    exact iff_true_intro (.inl h)
  case isFalse h =>
    have hpacket := (parseOpenpgpPacket_exactly hashes flags body pktType hs).bind fun r hr =>
      Exactly.of_gives (.pure (a := ({ closure with records := r.2.records } : Closure)) (p := Closure.Shaped) hr)
    apply hpacket.congr
    simp [h]

theorem normalize_gives (hs : closure.Shaped) (cursor : Nat) :
    Gives (normalize now flags cursor closure) Closure.Shaped := by
  apply Gives.ite
  · intro _
    apply (normalizeKeyRecords_gives hs (now cursor)).bind
    exact fun _ hs' => .pure hs'
  · exact fun _ => .pure hs

-- A block begins in front of the cursor.
theorem maybeEmitOpenpgpBlock_gives (hs : closure.Shaped) (hblock : Begun data block stop) :
    Gives (maybeEmitOpenpgpBlock data closure block stop) Closure.Shaped := by
  cases block with
  | none   => exact .pure hs
  | some b =>
    obtain ⟨hb, hstop⟩ := hblock b rfl
    apply Gives.ite
    · exact fun _ => .pure hs
    intro hne
    apply Gives.ite
    · intro hle
      exact absurd (Nat.le_antisymm hb hle) hne
    intro _
    apply (slice_gives hb hstop).bind
    exact fun _ _ => .pure fun _ hr => absurd hr List.not_mem_nil

theorem finish_gives (hs : closure.Shaped) (hblock : Begun data block stop) :
    Gives (finish now flags data closure block stop) fun _ => True := by
  apply (normalize_gives hs stop).bind
  intro closure hs
  apply (maybeEmitOpenpgpBlock_gives hs hblock).mono
  exact fun _ _ => trivial

theorem startPacket_gives (now : Nat → UInt64) (flags : Flags) (pktType : UInt8) (hs : closure.Shaped) (hblock : Begun data block beg) (hbeg : beg ≤ data.length) :
    Gives (startPacket now flags data closure block beg pktType) fun r => r.1.Shaped ∧ Begun data r.2 beg := by
  have hemit {closure : Closure} (hs : closure.Shaped) : Gives (do
      let closure ← maybeEmitOpenpgpBlock data closure block beg
      pure (closure, some beg)) fun r => r.1.Shaped ∧ Begun data r.2 beg := by
    apply (maybeEmitOpenpgpBlock_gives hs hblock).bind
    intro closure hs
    apply Gives.pure
    refine ⟨hs, ?_⟩
    rintro _ ⟨⟩
    exact ⟨Nat.le_refl _, hbeg⟩
  rw [startPacket]
  dsimp only
  split
  case isTrue =>
    apply (normalize_gives hs beg).bind
    intro closure hs
    apply Gives.ite
    · exact fun _ => hemit hs
    · exact fun _ => .pure ⟨hs, hblock⟩
  case isFalse =>
    apply Gives.ite
    · exact fun _ => hemit hs
    · exact fun _ => .pure ⟨hs, hblock⟩

theorem readOpenpgpPacket_some {length : Nat} {text' : Bytes} (hbeg : beg ≤ data.length)
    (hheader : header.run (data.drop beg) = some ((pktType, length), text')) :
    ∃ s, readOpenpgpPacket data data.length ⟨beg, []⟩ = .ok (some (pktType, length), s) ∧ beg < s.cursor ∧
      s.cursor + length ≤ data.length ∧ data.drop s.cursor = text' := by
  have h : data.length ≤ data.length := Nat.le_refl _
  have before : Before data data.length [] (data.drop beg) ⟨beg, []⟩ := ⟨hbeg, by rw [List.take_length], rfl⟩
  obtain ⟨s, hread, after⟩ := (reads_header h).run_some before hheader
  have hle := le_of_header hheader
  have hconsumes := consumes_header _ _ _ hheader
  have hlen := after.length h
  have hcursor := after.le
  rw [List.length_drop] at hconsumes
  refine ⟨s, hread, ?_, ?_, ?_⟩
  · omega
  · dsimp only at hle
    omega
  · rw [← after.text, List.take_length]

theorem readOpenpgpPacket_none (hbeg : beg ≤ data.length) (hheader : header.run (data.drop beg) = none) :
    ∃ s, readOpenpgpPacket data data.length ⟨beg, []⟩ = .ok (none, s) := by
  have before : Before data data.length [] (data.drop beg) ⟨beg, []⟩ := ⟨hbeg, by rw [List.take_length], rfl⟩
  obtain ⟨⟨_, s⟩, hread, rfl, _⟩ := (reads_header (Nat.le_refl _)).run_none before hheader
  exact ⟨s, hread⟩

-- The packets from `beg` on, which are safe when they fit. The fuel is more than the bytes that are left.
theorem parseFrom_exactly {fuel : Nat} (hs : closure.Shaped) (hblock : Begun data block beg) (hbeg : beg ≤ data.length)
    (hfuel : data.length < beg + fuel) :
    Exactly (flags.noRecords ∨ ∀ pkt ∈ packets (data.drop beg), PacketFits flags pkt)
      (parseFrom hashes now flags data fuel beg block closure) fun _ => True := by
  induction fuel generalizing beg block closure with
  | zero      => exact absurd hbeg (Nat.not_le.mpr hfuel)
  | succ fuel ih =>
    rw [parseFrom]
    split
    case isTrue hend =>
      have hnone : packets (data.drop beg) = [] := by
        rw [hend, List.drop_length]
        exact packets_none rfl
      apply (Exactly.of_gives (finish_gives hs hblock)).congr
      simp [hnone]
    case isFalse =>
      cases hheader : header.run (data.drop beg) with
      | none =>
        obtain ⟨s, hread⟩ := readOpenpgpPacket_none hbeg hheader
        have hfinish {closure : Closure} (hs : closure.Shaped) :
            Gives (finish now flags data closure none s.cursor) fun _ => True :=
          finish_gives hs fun _ h => absurd h (Option.some_ne_none _).symm
        rw [hread, Scan.ok_bind, packets_none (run_packet_none hheader)]
        apply Exactly.congr (.of_gives _)
        · simp
        · apply Gives.ite
          · intro _
            apply (maybeEmitOpenpgpBlock_gives hs hblock).bind
            exact fun _ => hfinish
          · exact fun _ => hfinish hs
      | some p =>
        obtain ⟨⟨pktType, length⟩, text'⟩ := p
        obtain ⟨s, hread, hlt, hstop, rfl⟩ := readOpenpgpPacket_some hbeg hheader
        have hslice := slice_eq (m := data) (Nat.le_add_right s.cursor length) hstop
        have hstart := startPacket_gives now flags pktType hs hblock hbeg
        rw [hread, Scan.ok_bind]
        dsimp only
        rw [hslice, Scan.ok_bind, Nat.add_sub_cancel_left, packets_some (run_packet_some hheader), List.drop_drop]
        have hexactly := (Exactly.of_gives hstart).bind fun start hstart =>
          (parsePacket_exactly hashes flags pktType ((data.drop s.cursor).take length) hstart.1).bind fun closure hs =>
          ih hs (hstart.2.mono (by omega) hstop) hstop (by omega)
        apply hexactly.congr
        rw [List.forall_mem_cons, true_and, or_and_left]

-- The parser terminates with no read outside of a packet, no missing string and no failing assertion exactly when
-- the user ids and the attributes fit, or when the packets are only framed.
theorem openpgpParse_ok_iff (hashes : Hashes) (now : Nat → UInt64) (flags : Flags) (data : Bytes) :
    (∃ blocks, openpgpParse hashes now flags data = .ok blocks) ↔
      flags.noRecords ∨ ∀ pkt ∈ packets data, PacketFits flags pkt := by
  have hshaped : Closure.Shaped {} := fun _ hr => absurd hr List.not_mem_nil
  have hbegun : Begun data none 0 := fun _ h => absurd h (Option.some_ne_none _).symm
  have hparse : Exactly (flags.noRecords ∨ ∀ pkt ∈ packets data, PacketFits flags pkt)
      (parseFrom hashes now flags data (data.length + 1) 0 none {}) fun _ => True :=
    parseFrom_exactly hshaped hbegun (Nat.zero_le _) (by omega)
  have hblocks := hparse.bind fun closure _ =>
    Exactly.of_gives (.pure (a := closure.blocks) (p := fun _ => True) trivial)
  rw [and_true] at hblocks
  exact hblocks.ok_iff

def zeroDigest : Digest where
  bytes  := List.replicate 20 0
  length := List.length_replicate

-- The user id is empty, and its end is not behind its beginning.
theorem not_ok_emptyUserId : ¬∃ blocks, openpgpParse ⟨fun _ => zeroDigest, fun _ => zeroDigest⟩ (fun _ => 0)
    ⟨false, false, false, false⟩ [180, 0] = .ok blocks := by
  have herror : openpgpParse ⟨fun _ => zeroDigest, fun _ => zeroDigest⟩ (fun _ => 0) ⟨false, false, false, false⟩
      [180, 0] = .error .assertion := by
    rfl
  rintro ⟨blocks, h⟩
  cases herror.symm.trans h

end Openpgp
