import GcrModel.Gcr.Openpgp.Theorems.Attributes
import GcrModel.Gcr.Openpgp.Theorems.Bodies
import GcrModel.Gcr.Openpgp.Theorems.Signatures

-- What a packet that cannot be read leaves behind in the array.
namespace Openpgp

open GLib Format
open Scan (Gives Follows)

-- Nothing that a signature does can be seen in any array.
structure V4Signature.Silent (flags : Flags) (sig : V4Signature) : Prop where
  signatures    : flags.signatures = false
  revocation    : sig.subpkt.revocation = none
  certification : isCertification sig.sigType = false
  binding       : sig.sigType = 24 ∨ sig.sigType = 25 → sig.subpkt.keyExpiry = 0 ∧ sig.subpkt.keyFlags = 0

variable {hashes : Hashes} {flags : Flags} {pktType : UInt8} {body m text text' : Bytes} {rs rs' : List Record}
  {s s' : State} {fuel count length : Nat} {c : UInt8}

-- The parser gives up or leaves a part of the body.
def Fails (body : Bytes) (x : Parse Unit) (rs rs' : List Record) : Prop :=
  ∃ ret s, x ⟨0, rs⟩ = .ok (ret, s) ∧ ¬(ret = some () ∧ s.cursor = body.length) ∧ s.records = rs'

theorem allShaped_nil : AllShaped [] :=
  List.forall_mem_nil _

theorem before_start (body : Bytes) (rs : List Record) : Before body body.length rs body ⟨0, rs⟩ :=
  ⟨Nat.zero_le _, by rw [List.drop_zero, List.take_length], rfl⟩

section

variable {γ : Type} {x : Parse Unit} {g : Format γ} {P : γ → List Record → List Record → Prop} {sig : γ}

-- What a parser does that goes along with a format.
def Along (body : Bytes) (P : γ → List Record → List Record → Prop) (x : Parse Unit) (g : Format γ) : Prop :=
  ∀ rs, Follows (Before body body.length rs)
    (fun _ sig text s => Left body body.length text s ∧ P sig rs s.records) (Kept rs) x g

theorem Along.fails (h : Along body P x g) (hstays : Stays body.length x) (hrs : AllShaped rs)
    (hrun : g.run body = some (sig, text)) (htext : text ≠ []) : ∃ rs', Fails body x rs rs' ∧ P sig rs rs' := by
  have hwithin : Within body.length ⟨0, rs⟩ := ⟨Nat.le_refl _, Nat.zero_le _, Nat.zero_le _, hrs⟩
  obtain ⟨⟨_ | ⟨⟨⟩⟩, s⟩, hok, _⟩ := hstays.gives hwithin
  · obtain ⟨hnone, _⟩ := h rs body _ _ (before_start body rs) hok
    cases hrun.symm.trans hnone
  · obtain ⟨sig', rest, hrun', l, hp⟩ := h rs body _ _ (before_start body rs) hok
    cases hrun.symm.trans hrun'
    refine ⟨s.records, ⟨some (), s, hok, ?_, rfl⟩, hp⟩
    rintro ⟨_, hend⟩
    exact htext ((l.nil_iff (Nat.le_refl _)).mpr hend)

end

section

variable (b : Before m m.length rs text s) (hattributes : flags.attributes)
  (hlength : newLength.run text = some (length, c :: text'))

include b hattributes hlength

end

end Openpgp

-- What a signature changes in the array.
namespace Openpgp

open GLib

variable {flags : Flags} {sig : V4Signature} {records records' : List Record} {r record : Record} {i : Nat} {sigType : UInt8}
  {subpkt : SigSubpacket} {f : Record → Result Record}

theorem modifyRecord_same (h : ∀ r, f r = .ok r) (hok : modifyRecord records i f = .ok records') : records' = records := by
  rw [modifyRecord] at hok
  split at hok
  case h_1 => cases hok
  case h_2 r hget =>
    rw [h r] at hok
    cases hok
    obtain ⟨hlt, rfl⟩ := List.getElem?_eq_some_iff.mp hget
    exact List.set_getElem_self hlt

theorem modifyRecord_length (hok : modifyRecord records i f = .ok records') : records'.length = records.length := by
  rw [modifyRecord] at hok
  split at hok
  case h_1 => cases hok
  case h_2 r hget =>
    obtain ⟨r', _, hok⟩ := Scan.bind_eq_ok.mp hok
    cases hok
    exact List.length_set

theorem fillInUid_same (h : isCertification sigType = false) (hok : fillInUid records sigType record = .ok records') :
    records' = records := by
  have hnone : uidOrUatFindForSelfSignature records sigType = none := by
    simp [uidOrUatFindForSelfSignature, h]
  rw [fillInUid, hnone] at hok
  cases hok
  rfl

theorem fillInKey_same (h : subpkt.keyExpiry = 0 ∧ subpkt.keyFlags = 0) (key : Record) :
    fillInKey subpkt key = .ok key := by
  rw [fillInKey, setKeyExpiry, if_pos h.1, Scan.ok_bind, if_neg (not_not_intro h.2)]
  rfl

theorem fillIn_same (h : isCertification sigType = false)
    (hbinding : sigType = 24 ∨ sigType = 25 → subpkt.keyExpiry = 0 ∧ subpkt.keyFlags = 0)
    (hok : fillIn records sigType record subpkt = .ok records') : records' = records := by
  obtain ⟨key, hkey, hok⟩ := Scan.bind_eq_ok.mp hok
  cases key with
  | none   =>
    cases hok
    rfl
  | some i =>
    have hsub : sigType = 24 ∨ sigType = 25 := by
      rw [keyOrSubFindForSelfSignature, if_neg (by simp [h])] at hkey
      split at hkey
      case isTrue hsub => exact hsub
      case isFalse     => cases hkey
    obtain ⟨after, hmodify, hok⟩ := Scan.bind_eq_ok.mp hok
    have hafter : after = records := modifyRecord_same (fillInKey_same (hbinding hsub)) hmodify
    rw [hafter] at hok
    split at hok
    case isTrue  => exact fillInUid_same h hok
    case isFalse =>
      cases hok
      rfl

theorem V4Signature.Silent.apply (h : sig.Silent flags) (hok : sig.apply flags records = .ok records') :
    records' = records := by
  obtain ⟨after, hfill, hok⟩ := Scan.bind_eq_ok.mp hok
  obtain ⟨added, hadded, hok⟩ := Scan.bind_eq_ok.mp hok
  rw [V4Signature.sigRecords, if_neg (by simp [h.signatures])] at hadded
  cases hadded
  cases hok
  rw [h.revocation] at hfill
  rw [fillIn_same h.certification h.binding hfill, List.append_nil]
  exact List.append_nil records

def uidNew : Record :=
  .new schemaUid uidMax Record.colon uidMax_le

theorem shaped_uidNew : Shaped uidNew where
  common := by decide
  key    := by decide

theorem printed_ne_empty (n : Nat) : CString.of (printUnsigned n) ≠ .of [] := by
  intro h
  have hbytes : (CString.of (printUnsigned n)).bytes = (CString.of []).bytes := congrArg _ h
  rw [CString.bytes_of fun hmem => absurd (Record.mem_printUnsigned hmem).1 (by decide)] at hbytes
  exact printUnsigned_ne_nil n hbytes

theorem caps_ne (keyFlags : UInt8) : CString.of (ascii ((if keyFlags &&& 2 ≠ 0 then ['s'] else []) ++
    (if keyFlags &&& 1 ≠ 0 then ['c'] else []) ++ (if keyFlags &&& 12 ≠ 0 then ['e'] else []) ++
    if keyFlags &&& 32 ≠ 0 then ['a'] else [])) ≠ .of (ascii ['x']) := by
  have h : ∀ s c e a : Bool, CString.of (ascii ((if s then ['s'] else []) ++ (if c then ['c'] else []) ++
      (if e then ['e'] else []) ++ if a then ['a'] else [])) ≠ .of (ascii ['x']) := by decide
  simpa only [decide_eq_true_eq] using h (keyFlags &&& 2 ≠ 0) (keyFlags &&& 1 ≠ 0) (keyFlags &&& 12 ≠ 0) (keyFlags &&& 32 ≠ 0)

end Openpgp

-- What the record of a signature has in any case.
namespace Openpgp

open GLib Format

variable {α β : Type} {f f' : Format α} {g : α → Format β} {p : α → Prop} {q : β → Prop} {a : α} {sig : Record × SigSubpacket}
  {body : Bytes} {flags : Flags}

-- What is read has a property.
def Yields (p : α → Prop) (f : Format α) : Prop :=
  ∀ text a text', f.run text = some (a, text') → p a

namespace Yields

theorem pure (h : p a) : Yields p (Pure.pure a : Format α) := by
  rintro text _ _ ⟨⟩
  exact h

theorem failure : Yields p (Alternative.failure : Format α) := by
  rintro text _ _ ⟨⟩

theorem bind (hf : Yields p f) (hg : ∀ a, p a → Yields q (g a)) : Yields q (f >>= g) := by
  intro text b text' h
  rw [StateT.run_bind] at h
  obtain ⟨⟨a, middle⟩, hmiddle, h⟩ := Option.bind_eq_some_iff.mp h
  exact hg a (hf text a middle hmiddle) middle b text' h

theorem then_ (hg : ∀ a, Yields q (g a)) : Yields q (f >>= g) :=
  bind (p := fun _ => True) (fun _ _ _ _ => trivial) fun a _ => hg a

theorem map {φ : α → β} (hf : Yields p f) (hφ : ∀ a, p a → q (φ a)) : Yields q (φ <$> f) := by
  intro text b text' h
  rw [StateT.run_map] at h
  obtain ⟨⟨a, text''⟩, hrun, h⟩ := Option.map_eq_some_iff.mp h
  cases h
  exact hφ a (hf text a _ hrun)

theorem ite {c : Prop} [Decidable c] (h : Yields p f) (h' : Yields p f') : Yields p (if c then f else f') := by
  split
  case isTrue  => exact h
  case isFalse => exact h'

theorem inner {n : Nat} (h : Yields p f) : Yields p (inner n f) := by
  apply then_
  intro buf
  split
  case h_1 a hrun => exact .pure (h buf a [] hrun)
  case h_2        => exact .failure

end Yields

structure IsSig (record : Record) : Prop where
  isRecord : IsRecord schemaSig sigMax record
  time     : ∃ timestamp, record.getUlong sigTimestamp = some timestamp

theorem IsSig.takeColumn {record : Record} {column : Nat} (h : IsSig record) (hpos : 0 < column) (hne : sigTimestamp ≠ column)
    (block : CString) : IsSig (record.takeColumn column block) where
  isRecord := ⟨List.length_set.trans h.isRecord.length,
    (Record.getRaw_takeColumn_ne (Nat.ne_of_lt hpos) block).trans h.isRecord.schema⟩
  time     := by
    rw [Record.getUlong, Record.getRaw_takeColumn_ne hne]
    exact h.time

end Openpgp

namespace Openpgp

open GLib Format

variable {hashes : Hashes} {flags : Flags} {pktType : UInt8} {body : Bytes} {rs rs' : List Record} {schema : CString}
  {nColumns : Nat}

end Openpgp
