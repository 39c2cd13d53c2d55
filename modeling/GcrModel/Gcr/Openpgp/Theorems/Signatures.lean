import GcrModel.Gcr.Openpgp.Theorems.Keys

namespace Openpgp

open GLib
open Scan (Meets Gives)

variable {m : Bytes} {stop stop' n lo hi : Nat} {s : State} {set : Record → Nat → Record} {column : Nat}
  {record : Record} {subpkt : SigSubpacket} {records : List Record} {flags : Flags}

theorem Between.mono (b : Between stop lo hi s) (hle : stop ≤ stop') : Between stop' lo hi s :=
  ⟨b.lower, b.upper, Nat.le_trans b.within hle, b.shaped⟩

-- What a signature collects: its record and the record of a key that may revoke it.
structure SigShaped (sig : Record × SigSubpacket) : Prop where
  record     : IsRecord schemaSig sigMax sig.1
  revocation : ∀ r, sig.2.revocation = some r → Shaped r

theorem IsRecord.put (h : IsRecord schemaSig sigMax record) (hset : IsSetter set) (hpos : 0 < column)
    (hlt : column < sigMax) : Gives (Openpgp.put record column set) (IsRecord schemaSig sigMax) := by
  apply (put_gives hset hpos (by rwa [h.length])).mono
  exact fun _ => h.sameShape

theorem IsRecord.shapedSig (h : IsRecord schemaSig sigMax record) : Shaped record :=
  h.shaped (by decide) (by decide)

theorem meets_records {P R : State → Prop} : Meets P Openpgp.records (fun rs s => rs = s.records ∧ P s) R :=
  fun _ hs => ⟨rfl, hs⟩

theorem setRecords_meets (hrs : AllShaped records) : Stays stop (setRecords records) :=
  Meets.modify fun _ b => ⟨b.lower, b.upper, b.within, hrs⟩

theorem fillInRecords_meets (hsig : SigShaped (record, subpkt)) (sigType keyAlgo : UInt8) :
    Stays stop (fillInRecords flags sigType keyAlgo record subpkt) := by
  apply Meets.bind meets_records
  intro before
  apply Meets.assume (c := AllShaped before)
  · rintro s ⟨rfl, b⟩
    exact b.shaped
  intro hbefore
  apply Meets.lift_bind (fillIn_gives hbefore hsig.record sigType subpkt)
  intro after hafter
  apply Meets.bind ((setRecords_meets hafter).pre fun _ => And.right)
  intro _
  apply Meets.ite
  · intro _
    apply Meets.lift_bind (putAll_gives _)
    · exact fun _ hr => addRecord_meets (hr.shaped hsig.record.shapedSig)
    · rw [hsig.record.length]
      apply Fill.cons (isSetter_setUint _) (by decide) (by decide)
      exact .cons (isSetter_takeRaw _) (by decide) (by decide) .nil
  · exact fun _ => .pure fun _ => id

section

variable (h : stop ≤ m.length)

include h

theorem readByte_within : Stays stop (readByte m stop) :=
  (readByte_meets h).post fun _ _ => Between.toWithin

theorem readBytes_within : Stays stop (readBytes m stop n) :=
  (readBytes_meets h).post fun _ _ hs => hs.2.toWithin

theorem readUint32_within : Stays stop (readUint32 m stop) :=
  (readUint32_meets h).post fun _ _ => Between.toWithin

theorem readUint16_within : Stays stop (readUint16 m stop) :=
  (readUint16_meets h).post fun _ _ hs => hs.2.toWithin

theorem skipMpis_within : Stays stop (skipMpis m stop n) :=
  (skipMpis_meets h n).post fun _ _ => Between.toWithin

theorem readNewLength_meets :
    Meets (Between stop lo hi) (readNewLength m stop) (fun _ => Between stop (lo + 1) (hi + 5)) Keeps := by
  apply Meets.bind (readByte_meets h)
  intro c
  apply Meets.ite
  · exact fun _ => .pure fun _ b => b.weaken (by omega) (by omega)
  intro _
  apply Meets.ite
  · intro _
    apply Meets.bind (readByte_meets h)
    exact fun _ => .pure fun _ b => b.weaken (by omega) (by omega)
  intro _
  apply Meets.ite
  · exact fun _ => (readUint32_meets h).post fun _ _ b => b.weaken (by omega) (by omega)
  · exact fun _ => .fail fun _ b => b.shaped

theorem skipSignatureMpis_meets (algo : UInt8) : Stays stop (skipSignatureMpis m stop algo) := by
  apply Meets.ite
  · exact fun _ => skipMpis_within h
  intro _
  apply Meets.ite
  · exact fun _ => skipMpis_within h
  · exact fun _ => .fail fun _ b => b.shaped

theorem parseV3Signature_meets : Stays stop (parseV3Signature flags m stop) := by
  apply Meets.bind (readByte_within h)
  intro sigLen
  apply Meets.ite
  · exact fun _ => .fail fun _ b => b.shaped
  intro _
  apply Meets.bind (readByte_within h)
  intro sigType
  apply Meets.bind (readUint32_within h)
  intro sigTime
  apply Meets.bind (readBytes_within h)
  intro keyid
  apply Meets.bind (readByte_within h)
  intro keyAlgo
  apply Meets.bind (readByte_within h)
  intro _
  apply Meets.bind (readUint16_within h)
  intro _
  apply Meets.bind (skipSignatureMpis_meets h keyAlgo)
  intro _
  apply Meets.ite
  · intro _
    apply Meets.lift_bind (putAll_new _ (by decide) _)
    · exact fun _ hr => addRecord_meets hr.shapedSig
    · apply Fill.cons (isSetter_setUint _) (by decide) (by decide)
      apply Fill.cons (isSetter_takeRaw _) (by decide) (by decide)
      apply Fill.cons (isSetter_setUlong _) (by decide) (by decide)
      exact .cons (isSetter_takeRaw _) (by decide) (by decide) .nil
  · exact fun _ => .pure fun _ => id

theorem parseV4SignatureRevocation_meets :
    Meets (Within stop) (parseV4SignatureRevocation m stop) (fun r s => Shaped r ∧ Within stop s) Keeps := by
  apply Meets.bind (readByte_within h)
  intro klass
  apply Meets.bind (readByte_within h)
  intro algo
  apply Meets.bind (readBytes_within h)
  intro fingerprint
  apply Meets.lift (putAll_new _ (by decide) _)
  · exact fun _ hr _ hs => ⟨hr.shaped (by decide) (by decide), hs⟩
  · apply Fill.cons (isSetter_setUint _) (by decide) (by decide)
    apply Fill.cons (isSetter_takeRaw _) (by decide) (by decide)
    exact .cons (isSetter_takeRaw _) (by decide) (by decide) .nil

theorem parseV4SignatureSubpacket_meets (hsig : SigShaped (record, subpkt)) (subType : UInt8) :
    Meets (Within stop) (parseV4SignatureSubpacket m stop subType record subpkt)
      (fun sig s => SigShaped sig ∧ Within stop s) Keeps := by
  have hput {value : UInt64} {column : Nat} (hpos : 0 < column) (hlt : column < sigMax) : Meets (Within stop)
      (do let record ← Scan.lift (put record column (·.setUlong · value)); pure (record, subpkt))
      (fun sig s => SigShaped sig ∧ Within stop s) Keeps := by
    apply Meets.lift_bind (hsig.record.put (isSetter_setUlong _) hpos hlt)
    exact fun _ hr => .pure fun _ hs => ⟨⟨hr, hsig.revocation⟩, hs⟩
  unfold parseV4SignatureSubpacket
  dsimp only
  split
  case h_1 => exact .bind (readUint32_within h) fun _ => hput (by decide) (by decide)
  case h_2 =>
    apply Meets.bind (readBytes_within h)
    intro keyid
    apply Meets.lift_bind (hsig.record.put (isSetter_takeRaw _) (by decide) (by decide))
    exact fun _ hr => .pure fun _ hs => ⟨⟨hr, hsig.revocation⟩, hs⟩
  case h_3 => exact .bind (readUint32_within h) fun _ => .pure fun _ hs => ⟨⟨hsig.record, hsig.revocation⟩, hs⟩
  case h_4 => exact .bind (readUint32_within h) fun _ => hput (by decide) (by decide)
  case h_5 =>
    apply Meets.bind (readByte_within h)
    intro byte
    apply Meets.ite
    · exact fun _ => .fail fun _ b => b.shaped
    · exact fun _ => .pure fun _ hs => ⟨⟨hsig.record, hsig.revocation⟩, hs⟩
  case h_6 =>
    apply Meets.bind (readByte_within h)
    intro byte
    apply Meets.ite
    · exact fun _ => .fail fun _ b => b.shaped
    · exact fun _ => .pure fun _ hs => ⟨⟨hsig.record, hsig.revocation⟩, hs⟩
  case h_7 =>
    apply Meets.bind (readByte_within h)
    intro byte
    apply Meets.bind (seek_meets (Nat.le_refl _))
    exact fun _ => .pure fun _ hs => ⟨⟨hsig.record, hsig.revocation⟩, hs⟩
  case h_8 =>
    apply Meets.bind meets_cursor
    intro position
    apply Meets.assume fun s hs => hs.1 ▸ hs.2.within
    intro hle
    apply Meets.lift_bind (slice_gives hle h)
    intro value _
    apply Meets.lift_bind (hsig.record.put (isSetter_setString _) (by decide) (by decide))
    exact fun _ hr => .pure fun _ hs => ⟨⟨hr, hsig.revocation⟩, hs.2⟩
  case h_9 =>
    apply Meets.bind (parseV4SignatureRevocation_meets h)
    intro revocation
    apply Meets.pure
    rintro s ⟨hr, hs⟩
    refine ⟨⟨hsig.record, ?_⟩, hs⟩
    rintro _ ⟨⟩
    exact hr
  case h_10 =>
    apply Meets.ite
    · intro _
      apply Meets.bind (seek_meets (Nat.le_refl _))
      exact fun _ => .pure fun _ hs => ⟨hsig, hs⟩
    · exact fun _ => .fail fun _ b => b.shaped

-- Each round goes on by two bytes, those of the length and of the type.
theorem parseV4SignatureSubpackets_meets (fuel : Nat) (hsig : SigShaped (record, subpkt)) :
    Meets (fun s => Within stop s ∧ stop < s.cursor + fuel) (parseV4SignatureSubpackets m stop fuel record subpkt)
      (fun sig s => SigShaped sig ∧ Within stop s) Keeps := by
  induction fuel generalizing record subpkt with
  | zero =>
    apply Meets.assume (c := False)
    · rintro s ⟨b, hlt⟩
      exact Nat.not_lt.mpr b.within hlt
    · exact False.elim
  | succ fuel ih =>
    apply Meets.bind meets_cursor
    intro start
    apply Meets.assume (c := stop < start + (fuel + 1))
    · rintro s ⟨rfl, _, hlt⟩
      exact hlt
    intro hfuel
    apply Meets.pre (P := Between stop start start)
    case hP =>
      rintro s ⟨rfl, b, _⟩
      exact b.self
    apply Meets.ite
    · exact fun _ => .pure fun _ b => ⟨hsig, b.toWithin⟩
    intro _
    apply Meets.bind (readNewLength_meets h)
    intro length
    apply Meets.bind (readByte_meets h)
    intro subType
    apply Meets.ite
    · exact fun _ => .fail fun _ b => b.shaped
    intro _
    apply Meets.bind meets_cursor
    intro position
    apply Meets.assume (c := start + 2 ≤ position)
    · rintro s ⟨rfl, b⟩
      exact b.lower
    intro hposition
    apply Meets.ite
    · exact fun _ => .fail fun _ hs => hs.2.shaped
    intro hstop
    have hle : position + (length - 1) ≤ stop := Nat.le_of_not_lt hstop
    apply Meets.bind ((parseV4SignatureSubpacket_meets (Nat.le_trans hle h) hsig subType).pre _)
    · rintro ⟨record, subpkt⟩
      apply Meets.bind meets_cursor
      intro after
      apply Meets.ite
      · exact fun _ => .fail fun _ hs => hs.2.2.shaped
      intro hafter
      apply Meets.assume fun _ hs => hs.2.1
      intro hsig
      apply (ih hsig).pre
      rintro s ⟨rfl, _, b⟩
      refine ⟨⟨Nat.zero_le _, ?_, ?_, b.shaped⟩, ?_⟩
      all_goals omega
    · rintro s ⟨rfl, b⟩
      exact ⟨Nat.zero_le _, Nat.le_add_right _ _, Nat.le_add_right _ _, b.shaped⟩

-- The subpackets that take the next `n` bytes.
theorem subpackets_meets {position : Nat} (hle : position + n ≤ stop) (hsig : SigShaped (record, subpkt)) :
    Meets (fun s => position = s.cursor ∧ Within stop s)
      (parseV4SignatureSubpackets m (position + n) (n + 1) record subpkt)
      (fun sig s => SigShaped sig ∧ Within stop s) Keeps := by
  apply (parseV4SignatureSubpackets_meets (Nat.le_trans hle h) (n + 1) hsig).mono _ _ (fun _ => id)
  · rintro s ⟨rfl, b⟩
    exact ⟨⟨Nat.zero_le _, Nat.le_add_right _ _, Nat.le_add_right _ _, b.shaped⟩, by omega⟩
  · rintro sig s ⟨hsig, b⟩
    exact ⟨hsig, (b.mono hle).toWithin⟩

theorem parseV4Signature_meets : Stays stop (parseV4Signature flags m stop) := by
  apply Meets.bind (readByte_within h)
  intro sigType
  apply Meets.bind (readByte_within h)
  intro keyAlgo
  apply Meets.bind (readByte_within h)
  intro _
  apply Meets.bind (readUint16_within h)
  intro hashedLen
  apply Meets.bind meets_cursor
  intro position
  apply Meets.ite
  · exact fun _ => .fail fun _ hs => hs.2.shaped
  intro hstop
  have hnew : SigShaped (Record.new schemaSig sigMax Record.colon (by decide), {}) := ⟨.new (by decide) (by decide), by simp⟩
  apply Meets.bind (subpackets_meets h (Nat.le_of_not_lt hstop) hnew)
  rintro ⟨record, subpkt⟩
  apply Meets.assume fun _ => And.left
  intro hsig
  apply Meets.bind ((readUint16_within h).pre fun _ => And.right)
  intro unhashedLen
  apply Meets.bind meets_cursor
  intro position
  apply Meets.ite
  · exact fun _ => .fail fun _ hs => hs.2.shaped
  intro hstop
  apply Meets.bind (subpackets_meets h (Nat.le_of_not_lt hstop) hsig)
  rintro ⟨record, subpkt⟩
  apply Meets.assume fun _ => And.left
  intro hsig
  apply Meets.bind ((readUint16_within h).pre fun _ => And.right)
  intro _
  apply Meets.bind (skipSignatureMpis_meets h keyAlgo)
  intro _
  cases hrevocation : subpkt.revocation with
  | none            => exact fillInRecords_meets hsig _ _
  | some revocation =>
    apply Meets.bind (addRecord_meets (hsig.revocation revocation hrevocation))
    exact fun _ => fillInRecords_meets hsig _ _

theorem parseSignature_meets : Stays stop (parseSignature flags m stop) := by
  apply Meets.bind (readByte_within h)
  intro version
  apply Meets.ite
  · exact fun _ => parseV3Signature_meets h
  intro _
  apply Meets.ite
  · exact fun _ => parseV4Signature_meets h
  · exact fun _ => .fail fun _ b => b.shaped

end

end Openpgp
