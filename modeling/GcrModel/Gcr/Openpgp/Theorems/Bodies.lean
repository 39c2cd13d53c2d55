import GcrModel.Gcr.Openpgp.Bodies
import GcrModel.Gcr.Openpgp.Theorems.Keys

-- What the parsers of keys and signatures read, and what they do with the array behind that.
namespace Openpgp

open GLib
open Scan (Follows Refines)

-- The text in front of the cursor, whatever the records are.
structure Left (m : Bytes) (stop : Nat) (text : Bytes) (s : State) : Prop where
  le   : s.cursor ≤ stop
  text : (m.take stop).drop s.cursor = text

variable {m text : Bytes} {stop n data : Nat} {rs : List Record} {s : State} {flags : Flags} {hashes : Hashes}
  {schema : CString}

theorem Before.left (b : Before m stop rs text s) : Left m stop text s :=
  ⟨b.le, b.text⟩

theorem Left.nil_iff (l : Left m stop text s) (h : stop ≤ m.length) : text = [] ↔ s.cursor = stop := by
  have hle := l.le
  rw [← l.text, List.drop_eq_nil_iff, List.length_take, Nat.min_eq_left h]
  exact ⟨Nat.le_antisymm hle, Nat.le_of_eq ∘ Eq.symm⟩

abbrev Kept (rs : List Record) (s : State) : Prop :=
  s.records = rs

-- The results are the same.
abbrev Same (m : Bytes) (stop : Nat) (rs : List Record) {α : Type} (a c : α) (text : Bytes) (s : State) : Prop :=
  a = c ∧ Before m stop rs text s

section

variable {α γ : Type} {B : Bytes → State → Prop} {E : α → γ → Bytes → State → Prop} {R : State → Prop}
  {f : Nat → Parse α} {g : Format γ}

theorem follows_fail : Follows (Before m stop rs) E (Kept rs) (Scan.fail : Parse α) failure :=
  .fail fun _ _ b => b.records

theorem follows_pure {a : α} : Follows (Before m stop rs) (Same m stop rs) R (pure a : Parse α) (pure a) :=
  .pure fun _ _ b => ⟨rfl, b⟩

end

theorem follows_rest : Follows (Before m stop rs) (fun _ _ => Before m stop rs) (Kept rs) (seek stop) Format.rest := by
  rintro text s _ b ⟨⟩
  exact ⟨text, [], rfl, Nat.le_refl _, List.drop_take_self, b.records⟩

-- Setting a column of the record is the only way to go on.
theorem follows_put {record : Record} {column : Nat} {set : Record → Nat → Record} {subpkt : SigSubpacket} :
    Follows (Before m stop rs) (Same m stop rs) (Kept rs)
      (do let record ← Scan.lift (put record column set); pure (record, subpkt)) (pure (set record column, subpkt)) := by
  apply Follows.lift_bind
  intro record' hput
  rw [put] at hput
  split at hput
  case isTrue =>
    cases hput
    exact follows_pure
  case isFalse => cases hput

theorem follows_addRecord (record : Record) {R : State → Prop} :
    Follows (Before m stop rs) (fun _ (_ : PUnit) => Before m stop (rs ++ [record])) R (addRecord record) (pure ⟨⟩) := by
  rintro text s _ b ⟨⟩
  exact ⟨⟨⟩, text, rfl, b.le, b.text, congrArg (· ++ [record]) b.records⟩

-- The array is what a signature of version 4 makes of `rs`.
abbrev Changes (m : Bytes) (stop : Nat) (flags : Flags) (rs : List Record) (_ : Unit) (sig : V4Signature) (text : Bytes)
    (s : State) : Prop :=
  Left m stop text s ∧ sig.apply flags rs = .ok s.records

-- What is done with the array behind the record of the revocation key.
theorem follows_fillIn {before : List Record} (sig : V4Signature) (h : before = rs ++ sig.subpkt.revocation.toList) :
    Follows (Before m stop before) (Changes m stop flags rs) (Kept rs) (do
        let before ← records
        let after ← Scan.lift (fillIn before sig.sigType sig.record sig.subpkt)
        setRecords after
        if flags.signatures then do
          let record ← Scan.lift <| putAll sig.record
            [(sigAlgo, (·.setUint · sig.keyAlgo.toUInt32)),
              (sigClass, (·.takeRaw · (.of (Hex.hexByte false sig.sigType ++ ascii [if sig.subpkt.exportable then 'x' else 'l']))))]
          addRecord record
        else
          pure ()) (pure sig) := by
  subst h
  rintro text ⟨position, _⟩ r ⟨hle, htext, rfl⟩ hr
  change (Scan.lift (fillIn (rs ++ sig.subpkt.revocation.toList) sig.sigType sig.record sig.subpkt) >>= fun after => _) _ =
    .ok r at hr
  cases hfill : fillIn (rs ++ sig.subpkt.revocation.toList) sig.sigType sig.record sig.subpkt with
  | error e =>
    rw [Scan.bind_error (Scan.lift_error hfill)] at hr
    cases hr
  | ok after =>
    have hset : (setRecords after : Parse Unit) ⟨position, rs ++ sig.subpkt.revocation.toList⟩ =
        .ok (some (), ⟨position, after⟩) :=
      rfl
    rw [Scan.bind_some (Scan.lift_ok hfill), Scan.bind_some hset] at hr
    split at hr
    case isTrue hsignatures =>
      generalize hadd : putAll sig.record _ = added at hr
      cases added with
      | error e      => cases hr
      | ok record =>
        cases hr
        have happly : sig.apply flags rs = .ok (after ++ [record]) := by
          rw [V4Signature.apply, V4Signature.sigRecords, hfill, if_pos hsignatures, hadd]
          rfl
        exact ⟨sig, text, rfl, ⟨hle, htext⟩, happly⟩
    case isFalse hsignatures =>
      cases hr
      have happly : sig.apply flags rs = .ok (after ++ []) := by
        rw [V4Signature.apply, V4Signature.sigRecords, hfill, if_neg hsignatures]
        rfl
      exact ⟨sig, text, rfl, ⟨hle, htext⟩, happly.trans (by rw [List.append_nil])⟩

-- The loop ends where the subpackets do.
theorem subpackets_end (fuel : Nat) {record : Record} {subpkt : SigSubpacket} {sig : Record × SigSubpacket} {s' : State}
    (hr : parseV4SignatureSubpackets m stop fuel record subpkt s = .ok (some sig, s')) : s'.cursor = stop := by
  induction fuel generalizing record subpkt s with
  | zero      => cases hr
  | succ fuel ih =>
    rw [parseV4SignatureSubpackets, cursor_bind] at hr
    split at hr
    case isTrue hend =>
      cases hr
      exact hend
    case isFalse =>
      obtain ⟨length, s₁, _, hr⟩ := Scan.bind_eq_some hr
      obtain ⟨subType, s₂, _, hr⟩ := Scan.bind_eq_some hr
      split at hr
      case isTrue => cases hr
      rw [cursor_bind] at hr
      dsimp only at hr
      split at hr
      case isTrue => cases hr
      obtain ⟨⟨record', subpkt'⟩, s₃, _, hr⟩ := Scan.bind_eq_some hr
      dsimp only at hr
      rw [cursor_bind] at hr
      split at hr
      case isTrue  => cases hr
      case isFalse => exact ih hr

theorem subpacketBody_other {subType : UInt8} (sig : Record × SigSubpacket) (h2 : subType.toNat % 64 ≠ 2)
    (h16 : subType.toNat % 64 ≠ 16) (h9 : subType.toNat % 64 ≠ 9) (h3 : subType.toNat % 64 ≠ 3) (h4 : subType.toNat % 64 ≠ 4)
    (h25 : subType.toNat % 64 ≠ 25) (h27 : subType.toNat % 64 ≠ 27) (h28 : subType.toNat % 64 ≠ 28)
    (h12 : subType.toNat % 64 ≠ 12) : Format.subpacketBody subType sig =
      if subType.toNat % 64 ∈ Format.ignoredTypes ∨ ¬128 ≤ subType then do let _ ← Format.rest; pure sig else failure := by
  unfold Format.subpacketBody
  split
  case h_10 => rfl
  all_goals contradiction

section

variable (h : stop ≤ m.length)

include h

theorem reads_mpi : Reads m stop rs (readMpi m stop) Format.mpi := by
  apply Refines.bind (reads_uint16 h)
  intro bits
  apply Refines.ite
  · exact fun _ => reads_fail
  · exact fun _ => Refines.bind (reads_bytes h) fun _ => Refines.pure _

theorem reads_mpis (n : Nat) : Reads m stop rs (skipMpis m stop n) (Format.mpis n) := by
  induction n with
  | zero      => exact Refines.pure _
  | succ n ih => exact Refines.bind (reads_mpi h) fun _ => ih

theorem reads_signatureMpis (algo : UInt8) :
    Reads m stop rs (skipSignatureMpis m stop algo) (Format.signatureMpis algo) := by
  apply Refines.ite
  · exact fun _ => reads_mpis h 1
  intro _
  apply Refines.ite
  · exact fun _ => reads_mpis h 2
  · exact fun _ => reads_fail

theorem follows_peek {α γ : Type} {E : α → γ → Bytes → State → Prop} {f : Bytes → Parse α} {g : Bytes → Format γ}
    (hf : ∀ value, Follows (Before m stop rs) E (Kept rs) (f value) (g value)) : Follows (Before m stop rs) E (Kept rs)
    (do let cursor ← cursor; let value ← Scan.lift (slice m cursor stop); f value) (Format.peek >>= g) := by
  intro text s r b hr
  have htext : (m.drop s.cursor).take (stop - s.cursor) = text := by rw [← b.text, List.drop_take]
  have hslice := slice_eq b.le h
  rw [htext] at hslice
  change (Scan.lift (slice m s.cursor stop) >>= f) s = .ok r at hr
  rw [Scan.bind_some (Scan.lift_ok hslice)] at hr
  exact hf text text s r b hr

-- A record that the setters fill has all their columns.
theorem follows_revocation :
    Follows (Before m stop rs) (Same m stop rs) (Kept rs) (parseV4SignatureRevocation m stop) Format.revocation := by
  apply Follows.read (reads_byte h)
  intro klass
  apply Follows.read (reads_byte h)
  intro algo
  apply Follows.read (reads_bytes h)
  intro fingerprint
  exact follows_pure

theorem follows_subpacketBody (subType : UInt8) (record : Record) (subpkt : SigSubpacket) :
    Follows (Before m stop rs) (Same m stop rs) (Kept rs)
      (parseV4SignatureSubpacket m stop subType record subpkt) (Format.subpacketBody subType (record, subpkt)) := by
  unfold parseV4SignatureSubpacket
  dsimp only
  split
  case h_1 htype =>
    rw [Format.subpacketBody, htype]
    exact .read (reads_uint32 h) fun time => follows_put
  case h_2 htype =>
    rw [Format.subpacketBody, htype]
    exact .read (reads_bytes h) fun keyid => follows_put
  case h_3 htype =>
    rw [Format.subpacketBody, htype]
    exact .read (reads_uint32 h) fun time => follows_pure
  case h_4 htype =>
    rw [Format.subpacketBody, htype]
    exact .read (reads_uint32 h) fun time => follows_put
  case h_5 htype =>
    rw [Format.subpacketBody, htype]
    exact .read (reads_byte h) fun c => .ite (fun _ => follows_fail) fun _ => follows_pure
  case h_6 htype =>
    rw [Format.subpacketBody, htype]
    exact .read (reads_byte h) fun c => .ite (fun _ => follows_fail) fun _ => follows_pure
  case h_7 htype =>
    rw [Format.subpacketBody, htype]
    exact .read (reads_byte h) fun c => follows_rest.bind fun _ _ => follows_pure
  case h_8 htype =>
    rw [Format.subpacketBody, htype]
    exact follows_peek h fun value => follows_put
  case h_9 htype =>
    rw [Format.subpacketBody, htype]
    apply (follows_revocation h).bind
    rintro revocation _
    apply Follows.assume fun _ _ => And.left
    rintro rfl
    exact .pure fun _ _ hs => ⟨rfl, hs.2⟩
  case h_10 h2 h16 h9 h3 h4 h25 h27 h28 h12 =>
    rw [subpacketBody_other _ h2 h16 h9 h3 h4 h25 h27 h28 h12]
    apply Follows.ite
    · exact fun _ => follows_rest.bind fun _ _ => follows_pure
    · exact fun _ => follows_fail

section

variable {α β γ δ : Type} {E : α → γ → Prop} {F : β → δ → Bytes → State → Prop} {x : Nat → Parse α} {f : α → Parse β}
  {g : Format γ} {k : γ → Format δ}

theorem Before.inner (b : Before m stop rs text s) (hn : n ≤ text.length) :
    Before m (s.cursor + n) rs (text.take n) s where
  le      := Nat.le_add_right _ _
  text    := by
    have hlen := b.length h
    have hle := b.le
    rw [← b.text, List.take_drop, List.take_take, Nat.min_eq_left (by omega)]
  records := b.records

-- What is read of the next `n` bytes, all of which have to be read.
theorem inner_run (hx : ∀ stop', stop' ≤ m.length → Follows (Before m stop' rs)
      (fun a c text s => E a c ∧ Before m stop' rs text s) (Kept rs) (x stop') g)
    (b : Before m stop rs text s) (hn : n ≤ text.length) {r : Option α × State} (hr : x (s.cursor + n) s = .ok r) :
    (∃ a c s', r = (some a, s') ∧ s'.cursor = s.cursor + n ∧ (Format.inner n g).run text = some (c, text.drop n) ∧ E a c ∧
      Before m stop rs (text.drop n) s') ∨
    ((∀ a, r.1 = some a → r.2.cursor ≠ s.cursor + n) ∧ (Format.inner n g).run text = none ∧ r.2.records = rs) := by
  have hlen := b.length h
  have hle := b.le
  have hstop : s.cursor + n ≤ m.length := by omega
  have hx := hx _ hstop _ s r (b.inner h hn) hr
  obtain ⟨_ | a, s'⟩ := r
  · obtain ⟨hnone, hrecords⟩ := hx
    have hinner : (Format.inner n g).run text = none := Format.run_inner_none hn (by simp [hnone])
    exact .inr ⟨by simp, hinner, hrecords⟩
  · obtain ⟨c, text', hsome, he, b'⟩ := hx
    by_cases hnil : text' = []
    case pos =>
      have hcursor : s'.cursor = s.cursor + n := (b'.left.nil_iff hstop).mp hnil
      have hinner : (Format.inner n g).run text = some (c, text.drop n) := Format.run_inner_some hn (hnil ▸ hsome)
      have houter : Before m stop rs (text.drop n) s' :=
        ⟨by omega, by rw [hcursor, ← List.drop_drop, b.text], b'.records⟩
      exact .inl ⟨a, c, s', rfl, hcursor, hinner, he, houter⟩
    case neg =>
      have hcursor : s'.cursor ≠ s.cursor + n := fun h => hnil ((b'.left.nil_iff hstop).mpr h)
      have hinner : (Format.inner n g).run text = none := Format.run_inner_none hn (by simp [hsome, hnil])
      exact .inr ⟨fun _ _ => hcursor, hinner, b'.records⟩

-- The end of the bytes is checked behind what is read.
theorem follows_inner (hx : ∀ stop', stop' ≤ m.length → Follows (Before m stop' rs)
      (fun a c text s => E a c ∧ Before m stop' rs text s) (Kept rs) (x stop') g)
    (hf : ∀ a c, E a c → Follows (Before m stop rs) F (Kept rs) (f a) (k c)) :
    Follows (Before m stop rs) F (Kept rs)
      (do
        let position ← cursor
        if stop < position + n then Scan.fail
        else do
          let a ← x (position + n)
          let after ← cursor
          if after ≠ position + n then Scan.fail else f a) (Format.inner n g >>= k) := by
  intro text s r b hr
  have hlen := b.length h
  have hle := b.le
  rw [cursor_bind] at hr
  split at hr
  case isTrue hlt =>
    cases hr
    have hinner : (Format.inner n g).run text = none := Format.run_inner_short (by omega)
    exact ⟨by rw [StateT.run_bind, hinner]; rfl, b.records⟩
  case isFalse hlt =>
    cases hrun : x (s.cursor + n) s with
    | error e =>
      rw [Scan.bind_error hrun] at hr
      cases hr
    | ok r' =>
      rcases inner_run h hx b (by omega) hrun with ⟨a, c, s', rfl, hcursor, hinner, he, b'⟩ | ⟨hother, hinner, hrecords⟩
      · rw [Scan.bind_some hrun, cursor_bind, if_neg (not_not_intro hcursor)] at hr
        have hrest := hf a c he _ s' r b' hr
        rw [StateT.run_bind, hinner]
        exact hrest
      · have hnone : (Format.inner n g >>= k).run text = none := by
          rw [StateT.run_bind, hinner]
          rfl
        obtain ⟨_ | a, s'⟩ := r'
        · rw [Scan.bind_none hrun] at hr
          cases hr
          exact ⟨hnone, hrecords⟩
        · rw [Scan.bind_some hrun, cursor_bind, if_pos (hother a rfl)] at hr
          cases hr
          exact ⟨hnone, hrecords⟩

-- What goes on to the end itself needs no check.
theorem follows_area (hx : ∀ stop', stop' ≤ m.length → Follows (Before m stop' rs)
      (fun a c text s => E a c ∧ Before m stop' rs text s) (Kept rs) (x stop') g)
    (hend : ∀ stop' s a s', x stop' s = .ok (some a, s') → s'.cursor = stop')
    (hf : ∀ a c, E a c → Follows (Before m stop rs) F (Kept rs) (f a) (k c)) :
    Follows (Before m stop rs) F (Kept rs)
      (do
        let position ← cursor
        if stop < position + n then Scan.fail
        else do
          let a ← x (position + n)
          f a) (Format.inner n g >>= k) := by
  intro text s r b hr
  apply follows_inner h hx hf text s r b
  rw [cursor_bind] at hr ⊢
  split at hr
  case isTrue hlt => rwa [if_pos hlt]
  case isFalse hlt =>
    rw [if_neg hlt]
    cases hrun : x (s.cursor + n) s with
    | error e => rwa [Scan.bind_error hrun] at hr ⊢
    | ok r'   =>
      obtain ⟨_ | a, s'⟩ := r'
      · rwa [Scan.bind_none hrun] at hr ⊢
      · rw [Scan.bind_some hrun] at hr ⊢
        rwa [cursor_bind, if_neg (not_not_intro (hend _ _ _ _ hrun))]

end

theorem follows_subpackets (fuel : Nat) (record : Record) (subpkt : SigSubpacket) :
    Follows (Before m stop rs) (Same m stop rs) (Kept rs) (parseV4SignatureSubpackets m stop fuel record subpkt)
      (Format.subpackets (record, subpkt)) := by
  induction fuel generalizing record subpkt with
  | zero =>
    rintro text s r b ⟨⟩
  | succ fuel ih =>
    intro text s r b hr
    rw [parseV4SignatureSubpackets, cursor_bind] at hr
    split at hr
    case isTrue hend =>
      cases hr
      have htext : text = [] := (b.left.nil_iff h).mpr hend
      subst htext
      exact ⟨_, [], Format.run_subpackets_nil _, rfl, b⟩
    case isFalse hend =>
      have htext : text ≠ [] := fun htext => hend ((b.left.nil_iff h).mp htext)
      rw [Format.run_subpackets _ htext, Format.subpacket_bind]
      refine Follows.read (reads_newLength h) ?_ text s r b hr
      intro length
      apply Follows.read (reads_byte h)
      intro subType
      apply Follows.ite
      · exact fun _ => follows_fail
      intro _
      refine follows_inner h (fun stop' hstop => follows_subpacketBody hstop subType record subpkt) ?_
      rintro ⟨record', subpkt'⟩ _ rfl
      exact ih record' subpkt'

theorem follows_v4Signature : Follows (Before m stop rs) (Changes m stop flags rs) (Kept rs)
    (parseV4Signature flags m stop) Format.v4Signature := by
  apply Follows.read (reads_byte h)
  intro sigType
  apply Follows.read (reads_byte h)
  intro keyAlgo
  apply Follows.read (reads_byte h)
  intro _
  apply Follows.read (reads_uint16 h)
  intro hashedLen
  apply follows_area h (fun stop' hstop => follows_subpackets hstop _ _ _) fun stop' s a s' hr => subpackets_end _ hr
  rintro ⟨record, subpkt⟩ _ rfl
  apply Follows.read (reads_uint16 h)
  intro unhashedLen
  apply follows_area h (fun stop' hstop => follows_subpackets hstop _ _ _) fun stop' s a s' hr => subpackets_end _ hr
  rintro ⟨record, subpkt⟩ _ rfl
  apply Follows.read (reads_uint16 h)
  intro _
  apply Follows.read (reads_signatureMpis h keyAlgo)
  rintro ⟨⟩
  cases hrevocation : subpkt.revocation with
  | none            =>
    have hbefore : rs = rs ++ subpkt.revocation.toList := by rw [hrevocation]; exact (List.append_nil rs).symm
    exact follows_fillIn ⟨sigType, keyAlgo, record, subpkt⟩ hbefore
  | some revocation =>
    have hbefore : rs ++ [revocation] = rs ++ subpkt.revocation.toList := by rw [hrevocation]; rfl
    have hadd : Follows (Before m stop rs) (Changes m stop flags rs) (Kept rs) _ _ :=
      (follows_addRecord revocation).bind fun _ _ => follows_fillIn ⟨sigType, keyAlgo, record, subpkt⟩ hbefore
    exact hadd

end

end Openpgp
