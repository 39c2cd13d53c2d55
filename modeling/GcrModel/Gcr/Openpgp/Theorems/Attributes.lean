import GcrModel.Gcr.Openpgp.Theorems.Keys

namespace Openpgp

open GLib Format
open Scan (Meets Gives Exactly)

variable {m text text' : Bytes} {stop fuel count length : Nat} {s s' : State} {rs : List Record} {flags : Flags}
  {attributes : Bool}

theorem hashUserIdOrAttribute_exactly (hashes : Hashes) (m : Bytes) (beg stop : Nat) :
    Exactly (beg < stop ∧ stop ≤ m.length) (hashUserIdOrAttribute hashes m beg stop)
      fun _ => beg < stop ∧ stop ≤ m.length where
  gives := by
    rintro ⟨hlt, hle⟩
    rw [hashUserIdOrAttribute, if_neg (Nat.not_le.mpr hlt)]
    apply (slice_gives (Nat.le_of_lt hlt) hle).bind
    exact fun _ _ => .pure ⟨hlt, hle⟩
  error := by
    intro h
    rw [hashUserIdOrAttribute]
    split
    case isTrue      => exact ⟨_, rfl⟩
    case isFalse hlt =>
      have hslice : ¬(beg ≤ stop ∧ stop ≤ m.length) := fun hle => h ⟨Nat.lt_of_not_le hlt, hle.2⟩
      rw [slice, if_neg hslice]
      exact ⟨_, rfl⟩

theorem addRecord_seek {r : Record} (hr : Shaped r) (hs : AllShaped s.records) (stop : Nat) :
    Exactly True ((do addRecord r; seek stop : Parse Unit) s)
      fun r => ∃ u, r.1 = some u ∧ r.2.cursor = stop ∧ AllShaped r.2.records := by
  apply Exactly.of_gives
  refine ⟨_, rfl, (), rfl, rfl, ?_⟩
  exact List.forall_mem_append.mpr ⟨hs, List.forall_mem_singleton.mpr hr⟩

theorem parseUserId_exactly (hashes : Hashes) (hs : AllShaped s.records) (hle : s.cursor ≤ m.length) :
    Exactly (s.cursor < m.length) (parseUserId hashes m m.length s) fun r => AllShaped r.2.records := by
  rw [parseUserId, cursor_bind, if_neg (Nat.not_lt.mpr hle)]
  have hslice := slice_gives hle (Nat.le_refl m.length)
  have hexactly := Exactly.lift_bind (.of_gives hslice) fun string _ =>
    Exactly.lift_bind (hashUserIdOrAttribute_exactly hashes m s.cursor m.length) fun fingerprint _ =>
    Exactly.lift_bind (.of_gives (uidRecord_gives fingerprint (.of string))) fun _ hrecord =>
    addRecord_seek hrecord hs m.length
  apply (hexactly.mono _).congr
  · simp
  · rintro _ ⟨_, _, _, hs'⟩
    exact hs'

theorem parseUserAttributePacket_exactly (hashes : Hashes) (m : Bytes) (stop : Nat) (subpktType : UInt8) (hs : AllShaped s.records) :
    Exactly (s.cursor < stop ∧ stop ≤ m.length) (parseUserAttributePacket hashes m stop subpktType s)
      fun r => ∃ u, r.1 = some u ∧ r.2.cursor = stop ∧ AllShaped r.2.records := by
  rw [parseUserAttributePacket, cursor_bind]
  have hexactly := Exactly.lift_bind (.of_gives (xa1Record_gives (stop - s.cursor) subpktType)) fun record hrecord =>
    Exactly.lift_bind (hashUserIdOrAttribute_exactly hashes m s.cursor stop) fun fingerprint hle =>
    Exactly.lift_bind (.of_gives (slice_gives (Nat.le_of_lt hle.1) hle.2)) fun data _ =>
    Exactly.lift_bind (.of_gives (xa1Record_fill hrecord fingerprint data)) fun _ hrecord =>
    addRecord_seek hrecord hs stop
  apply hexactly.congr
  simp

theorem subpacketsFit_iff (h : newLength.run text = some (length, text')) (hne : text' ≠ []) :
    SubpacketsFit attributes text ↔
      (attributes → 2 ≤ length) ∧ length ≤ text'.length ∧ SubpacketsFit attributes (text'.drop length) := by
  constructor
  case mp =>
    rintro (hnone | hempty | ⟨h', _, hnonempty, hfits, hrest⟩)
    · cases h.symm.trans hnone
    · cases h.symm.trans hempty
      exact absurd rfl hne
    · cases h.symm.trans h'
      exact ⟨hnonempty, hfits, hrest⟩
  case mpr =>
    rintro ⟨hnonempty, hfits, hrest⟩
    exact .next h hne hnonempty hfits hrest

-- The cursor has gone on by `length` bytes.
theorem Before.next (b : Before m stop rs text s) (h : stop ≤ m.length) (hle : length ≤ text.length)
    (hcursor : s'.cursor = s.cursor + length) : Before m stop s'.records (text.drop length) s' where
  le      := by
    have := b.length h
    have := b.le
    omega
  text    := by rw [hcursor, ← List.drop_drop, b.text]
  records := rfl

-- Behind the end of the packet the loop reads on.
theorem parseUserAttributes_error (hashes : Hashes) (hlt : m.length < s.cursor) :
    ∃ e, parseUserAttributes hashes flags m m.length fuel count s = .error e := by
  cases fuel with
  | zero      => exact ⟨.fuel, rfl⟩
  | succ fuel =>
    have hread : readNewLength m m.length s = .error .outOfBounds := by
      apply Scan.bind_error
      simp only [readByte, if_neg (Nat.ne_of_gt hlt), List.getElem?_eq_none (Nat.le_of_lt hlt)]
    rw [parseUserAttributes, cursor_bind, if_neg (Nat.ne_of_gt hlt), Scan.bind_error hread]
    exact ⟨_, rfl⟩

section

variable {hashes : Hashes} {c : UInt8} (b : Before m m.length rs text s)

include b

theorem Before.at_end_iff : s.cursor = m.length ↔ text = [] := by
  have hlen := b.length (Nat.le_refl _)
  have hle := b.le
  rw [← List.length_eq_zero_iff]
  omega

theorem parseUserAttributes_noLength (htext : text ≠ []) (hlength : newLength.run text = none) :
    ∃ s', parseUserAttributes hashes flags m m.length (fuel + 1) count s = .ok (none, s') ∧ s'.records = rs := by
  obtain ⟨⟨_, s₁⟩, hread, rfl, hrecords⟩ := (reads_newLength (Nat.le_refl _)).run_none b hlength
  rw [parseUserAttributes, cursor_bind, if_neg (mt b.at_end_iff.mp htext), Scan.bind_none hread]
  exact ⟨s₁, rfl, hrecords⟩

theorem parseUserAttributes_noType (hlength : newLength.run text = some (length, [])) :
    ∃ s', parseUserAttributes hashes flags m m.length (fuel + 1) count s = .ok (none, s') ∧ s'.records = rs := by
  have htext : text ≠ [] := by rintro rfl; cases hlength
  obtain ⟨s₁, hread, b₁⟩ := (reads_newLength (Nat.le_refl _)).run_some b hlength
  obtain ⟨⟨_, s₂⟩, hread₁, rfl, hrecords⟩ := (reads_byte (Nat.le_refl _)).run_none b₁ rfl
  rw [parseUserAttributes, cursor_bind, if_neg (mt b.at_end_iff.mp htext), Scan.bind_some hread, Scan.bind_none hread₁]
  exact ⟨s₂, rfl, hrecords⟩

-- The cursor is at the type when the length is read.
theorem parseUserAttributes_next (hashes : Hashes) (flags : Flags) (fuel count : Nat)
    (hlength : newLength.run text = some (length, c :: text')) :
    ∃ s', Before m m.length rs (c :: text') s' ∧ s.cursor < s'.cursor ∧
      parseUserAttributes hashes flags m m.length (fuel + 1) count s =
        (do
          if flags.attributes then parseUserAttributePacket hashes m (s'.cursor + length) c
          else seek (s'.cursor + length)
          parseUserAttributes hashes flags m m.length fuel (count + 1)) ⟨s'.cursor + 1, rs⟩ := by
  have htext : text ≠ [] := by rintro rfl; cases hlength
  obtain ⟨s₁, hread, b₁⟩ := (reads_newLength (Nat.le_refl _)).run_some b hlength
  obtain ⟨⟨position, _⟩, hread₁, b₂⟩ := (reads_byte (Nat.le_refl _)).run_some b₁ rfl
  have hconsumes := consumes_newLength _ _ _ hlength
  have hlen := b.length (Nat.le_refl _)
  have hlen₁ := b₁.length (Nat.le_refl _)
  have hlen₂ := b₂.length (Nat.le_refl _)
  have hle := b.le
  have hle₁ := b₁.le
  have hle₂ := b₂.le
  have hrecords := b₂.records
  simp only [List.length_cons] at hconsumes hlen₁ hlen₂ hle₂ hrecords
  have hposition : position = s₁.cursor + 1 := by omega
  have hend : s₁.cursor + 1 + length - 1 = s₁.cursor + length := by omega
  subst hposition hrecords
  refine ⟨s₁, b₁, by omega, ?_⟩
  rw [parseUserAttributes, cursor_bind, if_neg (mt b.at_end_iff.mp htext), Scan.bind_some hread, Scan.bind_some hread₁,
    cursor_bind]
  dsimp only
  rw [hend]

end

-- The induction is on the fuel, which is more than the bytes that are left.
theorem parseUserAttributes_exactly (hashes : Hashes) (b : Before m m.length rs text s) (hrs : AllShaped rs)
    (hfuel : m.length < s.cursor + fuel) :
    Exactly (SubpacketsFit flags.attributes text) (parseUserAttributes hashes flags m m.length fuel count s)
      fun r => AllShaped r.2.records := by
  induction fuel generalizing s text rs count with
  | zero      => exact absurd b.le (Nat.not_le.mpr hfuel)
  | succ fuel ih =>
    by_cases htext : text = []
    case pos =>
      rw [parseUserAttributes, cursor_bind, if_pos (b.at_end_iff.mpr htext)]
      apply Exactly.congr (.of_gives ⟨_, rfl, b.records ▸ hrs⟩)
      exact iff_true_intro (htext ▸ .noLength rfl)
    case neg =>
      cases hlength : newLength.run text with
      | none =>
        obtain ⟨s₁, hrun, hrecords⟩ := parseUserAttributes_noLength b htext hlength
        rw [hrun]
        apply Exactly.congr (.of_gives ⟨_, rfl, hrecords ▸ hrs⟩)
        exact iff_true_intro (.noLength hlength)
      | some p =>
        obtain ⟨length, _ | ⟨subpktType, text'⟩⟩ := p
        · obtain ⟨s₁, hrun, hrecords⟩ := parseUserAttributes_noType b hlength
          rw [hrun]
          apply Exactly.congr (.of_gives ⟨_, rfl, hrecords ▸ hrs⟩)
          exact iff_true_intro (.noType hlength)
        · obtain ⟨s₁, b₁, hlt, hrun⟩ := parseUserAttributes_next b hashes flags fuel count hlength
          rw [hrun, subpacketsFit_iff hlength (List.cons_ne_nil _ _)]
          have hlen₁ := b₁.length (Nat.le_refl _)
          have hle₁ := b₁.le
          simp only [List.length_cons] at hlen₁
          -- The next round begins so many bytes behind the length.
          have hnext {s₃ : State} (hcursor : s₃.cursor = s₁.cursor + length) (hle : length ≤ text'.length + 1)
              (hs₃ : AllShaped s₃.records) : Exactly
                (SubpacketsFit flags.attributes ((subpktType :: text').drop length))
                (parseUserAttributes hashes flags m m.length fuel (count + 1) s₃) fun r => AllShaped r.2.records :=
            ih (b₁.next (Nat.le_refl _) hle hcursor) hs₃ (by omega)
          split
          case isTrue hattributes =>
            have hpacket := parseUserAttributePacket_exactly (s := ⟨s₁.cursor + 1, rs⟩) hashes m (s₁.cursor + length)
              subpktType hrs
            have hbind := hpacket.scan_bind (p := fun _ s' => s'.cursor = s₁.cursor + length ∧ AllShaped s'.records)
              fun hc _ s₃ hs₃ => hnext hs₃.1 (by omega) hs₃.2
            apply hbind.congr
            rw [← and_assoc]
            apply and_congr_left'
            simp only [hattributes, forall_const, List.length_cons]
            omega
          case isFalse hattributes =>
            have hseek : (seek (s₁.cursor + length) : Parse Unit) ⟨s₁.cursor + 1, rs⟩ =
                .ok (some (), ⟨s₁.cursor + length, rs⟩) :=
              rfl
            rw [Scan.bind_some hseek]
            by_cases hle : length ≤ text'.length + 1
            case pos =>
              apply (hnext rfl hle hrs).congr
              simp [hattributes, hle]
            case neg =>
              constructor
              · exact fun hc => absurd hc.2.1 hle
              · exact fun _ => parseUserAttributes_error hashes (by dsimp only; omega)

-- An empty attribute has no subpackets that could be wrong, but it is hashed.
theorem parseUserAttribute_exactly (hashes : Hashes) (hs : AllShaped s.records) (hcursor : s.cursor = 0) :
    Exactly (m ≠ [] ∧ SubpacketsFit flags.attributes m) (parseUserAttribute hashes flags m m.length s)
      fun r => AllShaped r.2.records := by
  rw [parseUserAttribute, cursor_bind, hcursor]
  by_cases hm : m = []
  case pos =>
    have hlen : m.length = 0 := List.length_eq_zero_iff.mpr hm
    have hloop : parseUserAttributes hashes flags m m.length (m.length + 1) 0 s = .ok (some 0, s) := by
      rw [parseUserAttributes, cursor_bind, if_pos (hcursor.trans hlen.symm)]
      rfl
    constructor
    · exact fun hc => absurd hm hc.1
    · intro _
      obtain ⟨e, he⟩ := (hashUserIdOrAttribute_exactly hashes m 0 m.length).error (by omega)
      rw [Scan.bind_some hloop]
      exact ⟨e, Scan.bind_error (Scan.lift_error he)⟩
  case neg =>
    have hlt : 0 < m.length := List.length_pos_iff.mpr hm
    have htext : (m.take m.length).drop s.cursor = m := by rw [hcursor, List.drop_zero, List.take_length]
    have hbefore : Before m m.length s.records m s := ⟨by omega, htext, rfl⟩
    have hloop : Exactly (SubpacketsFit flags.attributes m)
        (parseUserAttributes hashes flags m m.length (m.length + 1) 0 s) fun r => AllShaped r.2.records :=
      parseUserAttributes_exactly hashes hbefore hs (by omega)
    apply (hloop.scan_bind_gives (p := fun s => AllShaped s.records) _ fun _ => id).congr
    · exact and_iff_right hm
    · intro count s' hs'
      obtain ⟨fingerprint, hhash, _⟩ := (hashUserIdOrAttribute_exactly hashes m 0 m.length).gives ⟨hlt, Nat.le_refl _⟩
      rw [Scan.bind_some (Scan.lift_ok hhash), cursor_bind]
      obtain ⟨record, hrecord, hshaped⟩ := uatRecord_gives fingerprint count (s'.cursor - 0)
      rw [Scan.bind_some (Scan.lift_ok hrecord)]
      exact ⟨_, rfl, List.forall_mem_append.mpr ⟨hs', List.forall_mem_singleton.mpr hshaped⟩⟩

end Openpgp
