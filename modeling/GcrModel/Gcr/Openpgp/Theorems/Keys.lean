import GcrModel.Gcr.Openpgp.Theorems.Records

namespace Openpgp

open GLib
open Scan (Meets Refines)

-- The text in front of the cursor is left. The records do not change.
structure Before (m : Bytes) (stop : Nat) (records : List Record) (text : Bytes) (s : State) : Prop where
  le      : s.cursor ≤ stop
  text    : (m.take stop).drop s.cursor = text
  records : s.records = records

abbrev Reads (m : Bytes) (stop : Nat) (records : List Record) {α : Type} (x : Parse α) (f : Format α) : Prop :=
  Refines (Before m stop records) (fun s => s.records = records) x f

variable {m text : Bytes} {stop n lo hi : Nat} {rs : List Record} {s : State} {α : Type} {x : Parse α}
  {f : Format α}

theorem Before.length (b : Before m stop rs text s) (h : stop ≤ m.length) : text.length = stop - s.cursor := by
  rw [← b.text, List.length_drop, List.length_take, Nat.min_eq_left h]

theorem Before.drop (b : Before m stop rs text s) (h : stop ≤ m.length) (hn : n ≤ text.length) :
    Before m stop rs (text.drop n) { s with cursor := s.cursor + n } where
  le      := by have := b.length h; have := b.le; dsimp only; omega
  text    := by rw [← b.text, List.drop_drop]
  records := b.records

theorem Before.take (b : Before m stop rs text s) (h : stop ≤ m.length) (hn : n ≤ text.length) :
    (m.drop s.cursor).take n = text.take n := by
  have hlen := b.length h
  rw [← b.text, List.drop_take, List.take_take, Nat.min_eq_left (by omega)]

theorem cursor_bind {α : Type} (f : Nat → Parse α) (s : State) : (cursor >>= f) s = f s.cursor s :=
  rfl

theorem meets_cursor {P R : State → Prop} : Meets P cursor (fun c s => c = s.cursor ∧ P s) R :=
  fun _ hs => ⟨rfl, hs⟩

theorem reads_byte (h : stop ≤ m.length) : Reads m stop rs (readByte m stop) Format.byte := by
  intro text s b
  have hlen := b.length h
  cases text with
  | nil =>
    have hat : s.cursor = stop := Nat.le_antisymm b.le (Nat.le_of_sub_eq_zero hlen.symm)
    simp only [readByte, if_pos hat]
    exact ⟨rfl, b.records⟩
  | cons c text =>
    have hlt : s.cursor < stop := by simp only [List.length_cons] at hlen; omega
    have hget : m[s.cursor]? = some c := by
      have hc : ((m.take stop).drop s.cursor)[0]? = some c := by rw [b.text, List.getElem?_cons_zero]
      rwa [List.getElem?_drop, Nat.add_zero, List.getElem?_take_of_lt hlt] at hc
    simp only [readByte, if_neg (Nat.ne_of_lt hlt), hget]
    have b' := b.drop h (n := 1) (by simp)
    exact ⟨text, rfl, b'⟩

theorem reads_bytes (h : stop ≤ m.length) : Reads m stop rs (readBytes m stop n) (Format.bytes n) := by
  intro text s b
  have hlen := b.length h
  have hle := b.le
  by_cases hn : text.length < n
  case pos =>
    have hstop : stop < s.cursor + n := by omega
    simp only [readBytes, if_pos hstop]
    exact ⟨if_pos hn, b.records⟩
  case neg =>
    have hn := Nat.le_of_not_lt hn
    have hstop : ¬stop < s.cursor + n := by omega
    have hm : ¬m.length < s.cursor + n := by omega
    simp only [readBytes, if_neg hstop, if_neg hm, b.take h hn]
    exact ⟨text.drop n, if_neg (Nat.not_lt.mpr hn), b.drop h hn⟩

theorem reads_fail : Reads m stop rs (Scan.fail : Parse α) failure :=
  Refines.fail fun _ _ b => b.records

theorem reads_uint32 (h : stop ≤ m.length) : Reads m stop rs (readUint32 m stop) (Format.uint 4) :=
  Refines.bind (reads_bytes h) fun _ => Refines.pure _

theorem reads_uint16 (h : stop ≤ m.length) : Reads m stop rs (readUint16 m stop) (Format.uint 2) :=
  Refines.bind (reads_bytes h) fun _ => Refines.pure _

theorem reads_remaining (h : stop ≤ m.length) :
    Reads m stop rs (do let cursor ← cursor; pure (stop - cursor)) Format.remaining := by
  intro text s b
  exact ⟨text, by rw [← b.length h]; rfl, b⟩

theorem reads_newLength (h : stop ≤ m.length) : Reads m stop rs (readNewLength m stop) Format.newLength := by
  apply Refines.bind (reads_byte h)
  intro c
  apply Refines.ite
  · exact fun _ => Refines.pure _
  intro _
  apply Refines.ite
  · exact fun _ => Refines.bind (reads_byte h) fun _ => Refines.pure _
  intro _
  apply Refines.ite
  · exact fun _ => reads_uint32 h
  · exact fun _ => reads_fail

theorem reads_oldLength (h : stop ≤ m.length) (ctb : UInt8) :
    Reads m stop rs (readOldLength m stop ctb) (Format.oldLength ctb) := by
  apply Refines.ite
  · exact fun _ => Refines.bind (reads_byte h) fun _ => Refines.pure _
  intro _
  apply Refines.ite
  · exact fun _ => reads_uint16 h
  intro _
  apply Refines.ite
  · exact fun _ => reads_uint32 h
  · exact fun _ => reads_remaining h

-- The types have six bits, and the test on them always succeeds.
theorem not_lt_pktType (ctb : UInt8) (newCtb : Prop) [Decidable newCtb] :
    ¬63 < if newCtb then ctb % 64 else ctb % 64 / 4 := by
  have hmod : (ctb % 64).toNat < 64 := by
    rw [UInt8.toNat_mod]
    exact Nat.mod_lt _ (by decide)
  have hdiv : (ctb % 64 / 4).toNat ≤ (ctb % 64).toNat := by
    rw [UInt8.toNat_div]
    exact Nat.div_le_self _ _
  have h63 : (63 : UInt8).toNat = 63 := rfl
  rw [UInt8.lt_iff_toNat_lt, h63]
  split
  all_goals omega

-- The body is there completely.
theorem reads_complete (h : stop ≤ m.length) (pktType : UInt8) (length : Nat) :
    Reads m stop rs
      (do let cursor ← cursor; if stop < cursor + length then Scan.fail else pure (pktType, length))
      (do let rest ← Format.remaining; if rest < length then failure else pure (pktType, length)) := by
  intro text
  apply Meets.bind meets_cursor
  intro cursor
  apply Meets.ite
  · intro hstop
    apply Meets.fail
    rintro s ⟨rfl, b⟩
    have hlen := b.length h
    have hle := b.le
    have hlt : text.length < length := by omega
    rw [Format.run_remaining_bind, if_pos hlt]
    exact ⟨rfl, b.records⟩
  · intro hstop
    apply Meets.pure
    rintro s ⟨rfl, b⟩
    have hlen := b.length h
    have hle := b.le
    have hlt : ¬text.length < length := by omega
    rw [Format.run_remaining_bind, if_neg hlt]
    exact ⟨text, rfl, b⟩

theorem reads_header (h : stop ≤ m.length) : Reads m stop rs (readOpenpgpPacket m stop) Format.header := by
  apply Refines.bind (reads_byte h)
  intro ctb
  apply Refines.ite
  · exact fun _ => reads_fail
  intro _
  dsimp only
  rw [if_neg (not_lt_pktType ctb _)]
  apply Refines.ite
  · exact fun _ => Refines.bind (reads_newLength h) fun length => reads_complete h _ length
  · exact fun _ => Refines.bind (reads_oldLength h ctb) fun length => reads_complete h _ length

end Openpgp

namespace Openpgp

open GLib
open Scan (Meets Gives)

-- The cursor is from `lo` to `hi` and not behind the end of the body.
structure Between (stop lo hi : Nat) (s : State) : Prop where
  lower  : lo ≤ s.cursor
  upper  : s.cursor ≤ hi
  within : s.cursor ≤ stop
  shaped : AllShaped s.records

abbrev Within (stop : Nat) : State → Prop :=
  Between stop 0 stop

def Keeps (s : State) : Prop :=
  AllShaped s.records

-- The cursor stays in the body.
abbrev Stays (stop : Nat) {α : Type} (x : Parse α) : Prop :=
  Meets (Within stop) x (fun _ => Within stop) Keeps

variable {m buf : Bytes} {stop n lo hi lo' hi' data c : Nat} {s : State} {r : Record} {schema : CString}
  {nColumns : Nat} {hashes : Hashes}

theorem Between.weaken (b : Between stop lo hi s) (hlo : lo' ≤ lo) (hhi : hi ≤ hi') : Between stop lo' hi' s :=
  ⟨Nat.le_trans hlo b.lower, Nat.le_trans b.upper hhi, b.within, b.shaped⟩

theorem Between.toWithin (b : Between stop lo hi s) : Within stop s :=
  ⟨Nat.zero_le _, b.within, b.within, b.shaped⟩

theorem Between.self (b : Between stop lo hi s) : Between stop s.cursor s.cursor s :=
  ⟨Nat.le_refl _, Nat.le_refl _, b.within, b.shaped⟩

theorem foldl_bigEndian_lt (n : Nat) (buf : Bytes) :
    buf.foldl (fun n c => n * 256 + c.toNat) n < (n + 1) * 256 ^ buf.length := by
  induction buf generalizing n with
  | nil => simp
  | cons c buf ih =>
    have hc := c.toNat_lt
    have hle : n * 256 + c.toNat + 1 ≤ (n + 1) * 256 := by omega
    calc
      (c :: buf).foldl (fun n c => n * 256 + c.toNat) n < (n * 256 + c.toNat + 1) * 256 ^ buf.length := ih _
      _ ≤ (n + 1) * 256 * 256 ^ buf.length := Nat.mul_le_mul_right _ hle
      _ = (n + 1) * 256 ^ (c :: buf).length := by rw [List.length_cons, Nat.pow_succ', Nat.mul_assoc]

theorem bigEndian_lt_pow (buf : Bytes) : bigEndian buf < 256 ^ buf.length :=
  Nat.lt_of_lt_of_eq (foldl_bigEndian_lt 0 buf) (Nat.one_mul _)

theorem bigEndian_lt (h : buf.length = 2) : bigEndian buf < 65536 := by
  have hlt := bigEndian_lt_pow buf
  rwa [h] at hlt

theorem addRecord_meets (hr : Shaped r) : Meets (Between stop lo hi) (addRecord r) (fun _ => Between stop lo hi) Keeps := by
  apply Meets.modify
  intro s b
  refine ⟨b.lower, b.upper, b.within, ?_⟩
  intro r' hr'
  rcases List.mem_append.mp hr' with hr' | hr'
  · exact b.shaped r' hr'
  · exact List.mem_singleton.mp hr' ▸ hr

theorem seek_meets (hc : c ≤ stop) : Meets (Between stop lo hi) (seek c) (fun _ => Within stop) Keeps :=
  Meets.modify fun _ b => ⟨Nat.zero_le _, hc, hc, b.shaped⟩

theorem slice_eq {beg : Nat} (hle : beg ≤ stop) (h : stop ≤ m.length) :
    slice m beg stop = .ok ((m.drop beg).take (stop - beg)) :=
  if_pos ⟨hle, h⟩

theorem slice_gives {beg : Nat} (hle : beg ≤ stop) (h : stop ≤ m.length) :
    Gives (slice m beg stop) fun buf => buf.length = stop - beg := by
  refine ⟨_, slice_eq hle h, ?_⟩
  dsimp only
  rw [List.length_take, List.length_drop]
  omega

theorem hashV4Keyid_gives (hlt : data < stop) (hmax : stop - data < 65535) (h : stop ≤ m.length) :
    Gives (hashV4Keyid hashes m data stop) fun _ => True := by
  rw [hashV4Keyid, if_neg (Nat.not_le.mpr hlt), if_neg (Nat.not_le.mpr hmax)]
  apply (slice_gives (Nat.le_of_lt hlt) h).bind
  intro key _
  apply Gives.bind (slice_gives (by decide) (Nat.le_of_eq (Digest.length _).symm))
  exact fun _ _ => .pure trivial

section

variable (h : stop ≤ m.length)

include h

theorem readByte_meets : Meets (Between stop lo hi) (readByte m stop) (fun _ => Between stop (lo + 1) (hi + 1)) Keeps := by
  intro s b
  by_cases hat : s.cursor = stop
  case pos =>
    simp only [readByte, if_pos hat]
    exact b.shaped
  case neg =>
    have hlt : s.cursor < stop := Nat.lt_of_le_of_ne b.within hat
    have hget := List.getElem?_eq_getElem (Nat.lt_of_lt_of_le hlt h)
    simp only [readByte, if_neg hat, hget]
    exact ⟨Nat.succ_le_succ b.lower, Nat.succ_le_succ b.upper, hlt, b.shaped⟩

theorem readBytes_meets : Meets (Between stop lo hi) (readBytes m stop n)
    (fun buf s => buf.length = n ∧ Between stop (lo + n) (hi + n) s) Keeps := by
  intro s b
  by_cases hlt : stop < s.cursor + n
  case pos =>
    simp only [readBytes, if_pos hlt]
    exact b.shaped
  case neg =>
    have hm : ¬m.length < s.cursor + n := by omega
    simp only [readBytes, if_neg hlt, if_neg hm]
    refine ⟨?_, Nat.add_le_add_right b.lower n, Nat.add_le_add_right b.upper n, Nat.le_of_not_lt hlt, b.shaped⟩
    rw [List.length_take, List.length_drop]
    omega

theorem readUint32_meets :
    Meets (Between stop lo hi) (readUint32 m stop) (fun _ => Between stop (lo + 4) (hi + 4)) Keeps := by
  apply Meets.bind (readBytes_meets h)
  exact fun _ => .pure fun _ hs => hs.2

theorem readUint16_meets : Meets (Between stop lo hi) (readUint16 m stop)
    (fun n s => n < 65536 ∧ Between stop (lo + 2) (hi + 2) s) Keeps := by
  apply Meets.bind (readBytes_meets h)
  intro buf
  apply Meets.pure
  rintro s ⟨hlen, b⟩
  exact ⟨bigEndian_lt hlen, b⟩

-- A number has at most 8192 bytes.
theorem readMpi_meets : Meets (Between stop lo hi) (readMpi m stop)
    (fun mpi s => mpi.2.length = (mpi.1 + 7) / 8 ∧ Between stop (lo + 3) (hi + 8194) s) Keeps := by
  apply Meets.bind (readUint16_meets h)
  intro bits
  apply Meets.ite
  · exact fun _ => .fail fun _ hs => hs.2.shaped
  intro hpos
  apply Meets.bind (Q := fun value s => value.length = (bits + 7) / 8 ∧ Between stop (lo + 3) (hi + 8194) s)
  · apply Meets.assume fun _ => And.left
    intro hbits
    apply (readBytes_meets h).mono (fun _ => And.right) _ (fun _ => id)
    rintro value s ⟨hlen, b⟩
    exact ⟨hlen, b.weaken (by omega) (by omega)⟩
  · exact fun value => .pure fun _ => id

theorem skipMpis_meets (n : Nat) : Meets (Between stop lo hi) (skipMpis m stop n)
    (fun _ => Between stop lo (hi + n * 8194)) Keeps := by
  induction n generalizing lo hi with
  | zero => exact .pure fun _ b => b.weaken (Nat.le_refl _) (by omega)
  | succ n ih =>
    apply Meets.bind (readMpi_meets h)
    intro _
    apply ih.mono (fun _ => And.right) _ (fun _ => id)
    exact fun _ _ b => b.weaken (Nat.le_add_right _ _) (by omega)

-- The number is long enough for its last 8 bytes.
theorem parseV3RsaBitsAndKeyid_meets :
    Meets (Between stop lo hi) (parseV3RsaBitsAndKeyid m stop) (fun _ => Within stop) Keeps := by
  apply Meets.bind (readMpi_meets h)
  rintro ⟨bits, value⟩
  apply Meets.ite
  · exact fun _ => .fail fun _ hs => hs.2.shaped
  intro hlt
  apply Meets.assume fun _ => And.left
  intro hlen
  apply Meets.lift_bind (slice_gives (by omega) (Nat.le_of_eq hlen.symm))
  exact fun _ _ => .pure fun _ hs => hs.2.toWithin

theorem parseV4AlgoBits_meets (algo : UInt8) : Meets (Between stop lo hi) (parseV4AlgoBits m stop algo)
    (fun _ => Between stop (lo + 1) (hi + 32776)) Keeps := by
  rw [parseV4AlgoBits]
  dsimp only
  split
  case h_1 => exact .fail fun _ b => b.shaped
  case h_2 n hothers =>
    have hn : n ≤ 3 := by
      split at hothers
      · cases hothers; decide
      split at hothers
      · cases hothers; decide
      split at hothers
      · cases hothers; decide
      · cases hothers
    apply Meets.bind (readMpi_meets h)
    intro mpi
    apply Meets.bind ((skipMpis_meets h n).pre fun _ => And.right)
    exact fun _ => .pure fun _ b => b.weaken (by omega) (by omega)

-- The key is hashed up to the cursor, which is not too far.
theorem parseKeyid_meets (version algo : UInt8) : Meets (Between stop (data + 1) (data + 10))
    (parseKeyid hashes m stop version algo data) (fun _ => Within stop) Keeps := by
  apply Meets.ite
  · intro _
    apply Meets.bind (parseV3RsaBitsAndKeyid_meets h)
    exact fun _ => .pure fun _ => id
  intro _
  apply Meets.bind (parseV4AlgoBits_meets h algo)
  intro bits
  apply Meets.bind meets_cursor
  intro position
  apply Meets.assume (c := data < position ∧ position - data < 65535 ∧ position ≤ m.length)
  · rintro s ⟨rfl, b⟩
    have hlower := b.lower
    have hupper := b.upper
    have hwithin := b.within
    omega
  rintro ⟨hlt, hmax, hle⟩
  apply Meets.lift_bind (hashV4Keyid_gives hlt hmax hle)
  exact fun _ _ => .pure fun _ hs => hs.2.toWithin

theorem addKeyRecords_meets (hashes : Hashes) (schema : CString) (data : Nat) (hmin : pubMax ≤ nColumns)
    (hmax : nColumns ≤ maxColumns) (version : UInt8) (timestamp ndays : Nat) : Meets (Between stop data (data + 9)) (do
      let algo ← readByte m stop
      let (bits, keyid, fingerprint) ← parseKeyid hashes m stop version algo data
      let record ← Scan.lift (keyRecord schema nColumns hmax bits algo keyid timestamp ndays)
      addRecord record
      match fingerprint with
      | some fingerprint =>
        if schema = schemaPub ∨ schema = schemaSec then do
          let record ← Scan.lift (fprRecord fingerprint)
          addRecord record
        else
          pure ()
      | none => pure ()) (fun _ => Within stop) Keeps := by
  apply Meets.bind (readByte_meets h)
  intro algo
  apply Meets.bind (parseKeyid_meets h version algo)
  rintro ⟨bits, keyid, fingerprint⟩
  apply Meets.lift_bind (keyRecord_gives hmax hmin)
  intro record hrecord
  apply Meets.bind (addRecord_meets hrecord)
  intro _
  cases fingerprint with
  | none => exact .pure fun _ => id
  | some fingerprint =>
    apply Meets.ite
    · intro _
      apply Meets.lift_bind (fprRecord_gives fingerprint)
      exact fun _ hfpr => addRecord_meets hfpr
    · exact fun _ => .pure fun _ => id

theorem parsePublicKeyOrSubkey_meets (hmin : pubMax ≤ nColumns) (hmax : nColumns ≤ maxColumns) :
    Stays stop (parsePublicKeyOrSubkey hashes m stop schema nColumns hmax) := by
  apply Meets.bind meets_cursor
  intro data
  apply Meets.pre (P := Between stop data data)
  case hP =>
    rintro s ⟨rfl, b⟩
    exact b.self
  apply Meets.bind (readByte_meets h)
  intro version
  apply Meets.ite
  · exact fun _ => .fail fun _ b => b.shaped
  intro _
  apply Meets.bind (readUint32_meets h)
  intro timestamp
  have hrest := addKeyRecords_meets h hashes schema data hmin hmax version timestamp
  apply Meets.ite
  · intro _
    apply Meets.bind (readUint16_meets h)
    exact fun _ => (hrest _).pre fun _ hs => hs.2.weaken (by omega) (by omega)
  · exact fun _ => (hrest _).pre fun _ b => b.weaken (by omega) (by omega)

theorem parseSecretKeyOrSubkey_meets : Stays stop (parseSecretKeyOrSubkey hashes m stop schema) := by
  apply Meets.bind (parsePublicKeyOrSubkey_meets h (by decide) _)
  exact fun _ => seek_meets (Nat.le_refl _)

end

end Openpgp
