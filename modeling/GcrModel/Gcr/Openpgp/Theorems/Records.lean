import GcrModel.Gcr.Openpgp.Openpgp
import GcrModel.Gcr.Record.Theorems.Columns

namespace Openpgp

open GLib
open Scan (Gives)

-- The setters store a text in the column and change nothing else.
def IsSetter (set : Record → Nat → Record) : Prop :=
  ∀ r column, ∃ block, set r column = r.takeColumn column block

-- The texts go to columns that a record of `n` columns has, and none replaces the schema.
def Fill (n : Nat) (sets : List (Nat × (Record → Nat → Record))) : Prop :=
  ∀ set ∈ sets, IsSetter set.2 ∧ 0 < set.1 ∧ set.1 < n

structure SameShape (r r' : Record) : Prop where
  length : r'.columns.length = r.columns.length
  schema : r'.getSchema = r.getSchema

-- Each record has the columns that the setters use, also for the records that are changed later.
structure Shaped (r : Record) : Prop where
  common : uidMax ≤ r.columns.length
  key    : r.getSchema = some schemaPub ∨ r.getSchema = some schemaSub → pubMax ≤ r.columns.length

def AllShaped (records : List Record) : Prop :=
  ∀ r ∈ records, Shaped r

variable {r r' r'' : Record} {records records' : List Record} {column i nColumns bits timestamp ndays : Nat}
  {set : Record → Nat → Record} {sets : List (Nat × (Record → Nat → Record))} {schema keyid : CString}
  {delimiter algo : UInt8} {f : Record → Result Record}

namespace SameShape

theorem refl (r : Record) : SameShape r r :=
  ⟨rfl, rfl⟩

theorem trans (h : SameShape r r') (h' : SameShape r' r'') : SameShape r r'' :=
  ⟨h'.length.trans h.length, h'.schema.trans h.schema⟩

theorem shaped (h : SameShape r r') (hr : Shaped r) : Shaped r' where
  common := h.length ▸ hr.common
  key    := by rw [h.schema, h.length]; exact hr.key

end SameShape

namespace Fill

variable {n k : Nat} {sets' : List (Nat × (Record → Nat → Record))}

theorem nil : Fill n [] := by
  simp [Fill]

theorem cons (hset : IsSetter set) (hpos : 0 < column) (hlt : column < n) (h : Fill n sets) :
    Fill n ((column, set) :: sets) :=
  List.forall_mem_cons.mpr ⟨⟨hset, hpos, hlt⟩, h⟩

theorem append (h : Fill n sets) (h' : Fill n sets') : Fill n (sets ++ sets') :=
  List.forall_mem_append.mpr ⟨h, h'⟩

theorem ite {c : Prop} [Decidable c] (h : Fill n sets) : Fill n (if c then sets else []) := by
  split
  case isTrue  => exact h
  case isFalse => exact nil

theorem mono (h : Fill n sets) (hle : n ≤ k) : Fill k sets :=
  fun set hmem => (h set hmem).imp_right (And.imp_right (Nat.lt_of_lt_of_le · hle))

end Fill

theorem isSetter_setUint (value : UInt32) : IsSetter (·.setUint · value) :=
  fun _ _ => ⟨_, rfl⟩

theorem isSetter_setUlong (value : UInt64) : IsSetter (·.setUlong · value) :=
  fun _ _ => ⟨_, rfl⟩

theorem isSetter_takeRaw (value : CString) : IsSetter (·.takeRaw · value) :=
  fun _ _ => ⟨_, rfl⟩

theorem isSetter_setRaw (value : CString) : IsSetter (·.setRaw · value) :=
  fun _ _ => ⟨_, rfl⟩

theorem isSetter_setString (value : CString) : IsSetter (·.setString · value) :=
  fun _ _ => ⟨_, rfl⟩

theorem isSetter_setBase64 (data : Bytes) : IsSetter (·.setBase64 · data) :=
  fun _ _ => ⟨_, rfl⟩

theorem isSetter_setChar (c : UInt8) : IsSetter (·.setChar · c) :=
  fun _ _ => ⟨_, rfl⟩

theorem put_gives (hset : IsSetter set) (hpos : 0 < column) (hlt : column < r.columns.length) :
    Gives (put r column set) (SameShape r) := by
  obtain ⟨block, hblock⟩ := hset r column
  refine ⟨set r column, if_pos hlt, ?_, ?_⟩
  · rw [hblock]
    exact List.length_set
  · rw [hblock]
    exact Record.getRaw_takeColumn_ne (Nat.ne_of_lt hpos) block

theorem putAll_gives (h : Fill r.columns.length sets) : Gives (putAll r sets) (SameShape r) := by
  apply Gives.foldlM _ (SameShape.refl r)
  intro set hmem r' hr'
  obtain ⟨hset, hpos, hlt⟩ := h set hmem
  apply (put_gives hset hpos (hr'.length ▸ hlt)).mono
  exact fun _ => hr'.trans

-- A record of the columns and the schema that it was made with.
structure IsRecord (schema : CString) (nColumns : Nat) (r : Record) : Prop where
  length : r.columns.length = nColumns
  schema : r.getSchema = some schema

namespace IsRecord

theorem new (h : nColumns ≤ maxColumns) (hpos : 0 < nColumns) :
    IsRecord schema nColumns (.new schema nColumns delimiter h) where
  length := by simp [Record.new]
  schema := by simp [Record.new, Record.getSchema, Record.getRaw, hpos]

theorem sameShape (h : IsRecord schema nColumns r) (hr : SameShape r r') : IsRecord schema nColumns r' :=
  ⟨hr.length.trans h.length, hr.schema.trans h.schema⟩

theorem shaped (h : IsRecord schema nColumns r) (hlen : uidMax ≤ nColumns)
    (hkey : schema = schemaPub ∨ schema = schemaSub → pubMax ≤ nColumns) : Shaped r where
  common := h.length ▸ hlen
  key    := by simpa only [h.schema, h.length, Option.some.injEq] using hkey

end IsRecord

theorem putAll_new (h : nColumns ≤ maxColumns) (hpos : 0 < nColumns) (hsets : Fill nColumns sets) :
    Gives (putAll (.new schema nColumns delimiter h) sets) (IsRecord schema nColumns) := by
  have hnew : IsRecord schema nColumns (.new schema nColumns delimiter h) := .new h hpos
  rw [← hnew.length] at hsets
  apply (putAll_gives hsets).mono
  exact fun _ => hnew.sameShape

theorem keyRecord_gives (h : nColumns ≤ maxColumns) (hmin : pubMax ≤ nColumns) :
    Gives (keyRecord schema nColumns h bits algo keyid timestamp ndays) Shaped := by
  have hpos : 0 < nColumns := Nat.lt_of_lt_of_le (by decide) hmin
  apply (putAll_new h hpos (Fill.mono (n := pubMax) ?_ hmin)).mono
  · exact fun _ hr => hr.shaped (Nat.le_trans (by decide) hmin) fun _ => hmin
  apply Fill.append
  · apply Fill.append
    · apply Fill.cons (isSetter_setUint _) (by decide) (by decide)
      apply Fill.cons (isSetter_setUint _) (by decide) (by decide)
      apply Fill.cons (isSetter_takeRaw _) (by decide) (by decide)
      exact .cons (isSetter_setUlong _) (by decide) (by decide) .nil
    · exact .ite (.cons (isSetter_setRaw _) (by decide) (by decide) .nil)
  · exact .ite (.cons (isSetter_setUlong _) (by decide) (by decide) .nil)

theorem fprRecord_gives (fingerprint : CString) : Gives (fprRecord fingerprint) Shaped := by
  apply (putAll_new _ (by decide) ?_).mono
  · exact fun _ hr => hr.shaped (by decide) (by decide)
  · exact .cons (isSetter_takeRaw _) (by decide) (by decide) .nil

theorem uidRecord_gives (fingerprint string : CString) : Gives (uidRecord fingerprint string) Shaped := by
  apply (putAll_new _ (by decide) ?_).mono
  · exact fun _ hr => hr.shaped (by decide) (by decide)
  · apply Fill.cons (isSetter_takeRaw _) (by decide) (by decide)
    exact .cons (isSetter_setString _) (by decide) (by decide) .nil

theorem uatRecord_gives (fingerprint : CString) (count size : Nat) : Gives (uatRecord fingerprint count size) Shaped := by
  apply (putAll_new _ (by decide) ?_).mono
  · exact fun _ hr => hr.shaped (by decide) (by decide)
  · apply Fill.cons (isSetter_takeRaw _) (by decide) (by decide)
    exact .cons (isSetter_takeRaw _) (by decide) (by decide) .nil

theorem xa1Record_gives (length : Nat) (subpktType : UInt8) :
    Gives (xa1Record length subpktType) (IsRecord schemaXa1 xa1Max) := by
  apply putAll_new _ (by decide)
  apply Fill.cons (isSetter_setUint _) (by decide) (by decide)
  exact .cons (isSetter_setUint _) (by decide) (by decide) .nil

theorem xa1Record_fill (hr : IsRecord schemaXa1 xa1Max r) (fingerprint : CString) (data : Bytes) :
    Gives (putAll r [(xa1Fingerprint, (·.takeRaw · fingerprint)), (xa1Data, (·.setBase64 · data))]) Shaped := by
  apply (putAll_gives _).mono
  · exact fun _ hr' => hr'.shaped (hr.shaped (by decide) (by decide))
  · rw [hr.length]
    apply Fill.cons (isSetter_takeRaw _) (by decide) (by decide)
    exact .cons (isSetter_setBase64 _) (by decide) (by decide) .nil

-- What a change of one record leaves as it is.
theorem modifyRecord_gives (h : AllShaped records) (hi : i < records.length)
    (hf : ∀ r, records[i]? = some r → Gives (f r) (SameShape r)) :
    Gives (modifyRecord records i f) fun records' => AllShaped records' ∧ records'.length = records.length := by
  have hget : records[i]? = some records[i] := List.getElem?_eq_getElem hi
  rw [modifyRecord, hget]
  apply (hf _ hget).bind
  intro r' hr'
  refine .pure ⟨?_, List.length_set⟩
  intro r hr
  rcases List.mem_or_eq_of_mem_set hr with hr | rfl
  · exact h r hr
  · exact hr'.shaped (h _ (List.getElem_mem hi))

theorem setKeyExpiry_gives (subpkt : SigSubpacket) (hr : Shaped r) : Gives (setKeyExpiry subpkt r) (SameShape r) := by
  apply Gives.ite
  · exact fun _ => .pure (.refl r)
  intro _
  split
  case h_1 => exact put_gives (isSetter_setUlong _) (by decide) (Nat.lt_of_lt_of_le (by decide) hr.common)
  case h_2 => exact .pure (.refl r)

-- The keys that a signature can be about.
def IsKey (r : Record) : Prop :=
  r.getSchema = some schemaPub ∨ r.getSchema = some schemaSec ∨ r.getSchema = some schemaSub

theorem pubOrSubSetKeyCaps_gives (hr : Shaped r) (hkey : IsKey r) (keyFlags : UInt8) :
    Gives (pubOrSubSetKeyCaps r keyFlags) (SameShape r) := by
  apply Gives.ite
  · exact fun _ => .pure (.refl r)
  intro hsec
  have hpub : r.getSchema = some schemaPub ∨ r.getSchema = some schemaSub := by
    rcases hkey with h | h | h
    · exact .inl h
    · exact absurd (.inl h) hsec
    · exact .inr h
  exact put_gives (isSetter_takeRaw _) (by decide) (hr.key hpub)

theorem fillInKey_gives (subpkt : SigSubpacket) (hr : Shaped r) (hkey : IsKey r) :
    Gives (fillInKey subpkt r) (SameShape r) := by
  apply (setKeyExpiry_gives subpkt hr).bind
  intro r' hr'
  apply Gives.ite
  · intro _
    have hkey' : IsKey r' := by rwa [IsKey, hr'.schema]
    apply (pubOrSubSetKeyCaps_gives (hr'.shaped hr) hkey' _).mono
    exact fun _ => hr'.trans
  · exact fun _ => .pure hr'

-- The index is that of a key.
def Found (records : List Record) (key : Option Nat) : Prop :=
  ∀ i, key = some i → ∃ r, records[i]? = some r ∧ IsKey r

theorem found_none : Found records none := by
  rintro i ⟨⟩

-- The keyid of the signature is never missing, since each record of a signature has that column.
theorem findPrimaryKey_gives (keyid : CString) (n : Nat) (hn : n ≤ records.length) :
    Gives (findPrimaryKey records (some keyid) n) (Found records) := by
  induction n with
  | zero => exact .pure found_none
  | succ n ih =>
    have hget : records[n]? = some records[n] := List.getElem?_eq_getElem hn
    rw [findPrimaryKey, hget]
    dsimp only
    apply Gives.ite
    · intro hschema
      cases hraw : records[n].getRaw keyKeyid with
      | none       => exact .pure found_none
      | some check =>
        apply Gives.pure
        intro i hi
        split at hi
        case isTrue =>
          cases hi
          refine ⟨_, hget, ?_⟩
          rcases hschema with h | h
          · exact .inl h
          · exact .inr (.inl h)
        case isFalse => cases hi
    · exact fun _ => ih (Nat.le_of_succ_le hn)

theorem getLast?_bind_some {p : Record → Prop} [DecidablePred p]
    (h : (records.getLast?.bind fun r => if p r then some (records.length - 1) else none) = some i) :
    ∃ r, records[i]? = some r ∧ p r := by
  obtain ⟨r, hr, hif⟩ := Option.bind_eq_some_iff.mp h
  split at hif
  case isTrue hp =>
    cases hif
    exact ⟨r, by rw [← List.getLast?_eq_getElem?, hr], hp⟩
  case isFalse => cases hif

theorem keyOrSubFindForSelfSignature_gives (sigType : UInt8) (keyid : CString) :
    Gives (keyOrSubFindForSelfSignature records sigType (some keyid)) (Found records) := by
  apply Gives.ite
  · exact fun _ => findPrimaryKey_gives keyid _ (Nat.le_refl _)
  intro _
  apply Gives.ite
  · intro _
    apply Gives.pure
    intro i hi
    obtain ⟨r, hr, hschema⟩ := getLast?_bind_some hi
    exact ⟨r, hr, .inr (.inr hschema)⟩
  · exact fun _ => .pure found_none

theorem fillInUid_gives (h : AllShaped records) (sigType : UInt8) (r : Record) :
    Gives (fillInUid records sigType r) fun records' => AllShaped records' := by
  rw [fillInUid]
  split
  case h_1 i timestamp hfind _ =>
    obtain ⟨uid, huid, _⟩ := getLast?_bind_some hfind
    obtain ⟨hi, _⟩ := List.getElem?_eq_some_iff.mp huid
    apply (modifyRecord_gives h hi _).mono
    · exact fun _ => And.left
    · intro r hr
      have hr : Shaped r := h r (List.mem_of_getElem? hr)
      exact put_gives (isSetter_setUlong _) (by decide) (Nat.lt_of_lt_of_le (by decide) hr.common)
  case h_2 => exact .pure h

theorem fillIn_gives (h : AllShaped records) (hr : IsRecord schemaSig sigMax r) (sigType : UInt8)
    (subpkt : SigSubpacket) : Gives (fillIn records sigType r subpkt) AllShaped := by
  have hkeyid : ∃ keyid, r.getRaw sigKeyid = some keyid :=
    ⟨_, List.getElem?_eq_getElem (by rw [hr.length]; decide)⟩
  obtain ⟨keyid, hkeyid⟩ := hkeyid
  rw [fillIn, hkeyid]
  apply (keyOrSubFindForSelfSignature_gives sigType keyid).bind
  intro key hkey
  cases key with
  | none   => exact .pure h
  | some i =>
    obtain ⟨k, hget, hkey⟩ := hkey i rfl
    obtain ⟨hi, _⟩ := List.getElem?_eq_some_iff.mp hget
    have hmodify : Gives (modifyRecord records i (fillInKey subpkt))
        fun records' => AllShaped records' ∧ records'.length = records.length := by
      apply modifyRecord_gives h hi
      intro k' hk'
      cases hget.symm.trans hk'
      exact fillInKey_gives subpkt (h k (List.mem_of_getElem? hget)) hkey
    apply hmodify.bind
    rintro records' ⟨h', _⟩
    apply Gives.ite
    · exact fun _ => fillInUid_gives h' sigType r
    · exact fun _ => .pure h'

theorem addCapabilities_gives (hr : Shaped r) (string : Bytes) : Gives (addCapabilities string r) fun _ => True := by
  apply Gives.ite
  · intro hschema
    have hlt : pubCaps < r.columns.length := hr.key hschema
    have hcaps : r.getRaw pubCaps = some r.columns[pubCaps] := List.getElem?_eq_getElem hlt
    rw [hcaps]
    exact .pure trivial
  · exact fun _ => .pure trivial

theorem normalizeCapabilities_gives (h : AllShaped records) (hget : records[0]? = some r)
    (hschema : r.getSchema = some schemaPub) :
    Gives (normalizeCapabilities records) fun records' => AllShaped records' ∧ records'.length = records.length := by
  obtain ⟨hpos, _⟩ := List.getElem?_eq_some_iff.mp hget
  have hr : Shaped r := h r (List.mem_of_getElem? hget)
  apply Gives.bind (Gives.foldlM (q := fun _ => True) (fun r hr _ _ => addCapabilities_gives (h r hr) _) trivial)
  intro string _
  apply modifyRecord_gives h hpos
  intro r' hr'
  cases hget.symm.trans hr'
  exact put_gives (isSetter_takeRaw _) (by decide) (hr.key (.inl hschema))

theorem setDefaultTrust_gives (hr : Shaped r) (c : UInt8) (force : Bool) :
    Gives (setDefaultTrust c force r) Shaped := by
  apply Gives.ite
  · exact fun _ => .pure hr
  intro _
  apply Gives.ite
  · exact fun _ => .pure hr
  · intro _
    apply (put_gives (isSetter_setChar c) (by decide) (Nat.lt_of_lt_of_le (by decide) hr.common)).mono
    exact fun _ hr' => hr'.shaped hr

theorem setOwnertrust_gives (h : AllShaped records) (hpos : 0 < records.length) (c : UInt8) (force : Bool) :
    Gives (do
      let records ← modifyRecord records 0 fun record => put record keyOwnertrust (·.setChar · 111)
      records.mapM (setDefaultTrust c force)) AllShaped := by
  have hmodify := modifyRecord_gives (f := fun record => put record keyOwnertrust (·.setChar · 111)) h hpos <| by
    intro r hr
    have hr : Shaped r := h r (List.mem_of_getElem? hr)
    exact put_gives (isSetter_setChar _) (by decide) (Nat.lt_of_lt_of_le (by decide) hr.common)
  apply hmodify.bind
  rintro records' ⟨h', _⟩
  exact Gives.mapM fun r hr => setDefaultTrust_gives (h' r hr) c force

theorem normalizeKeyRecords_gives (h : AllShaped records) (current : UInt64) :
    Gives (normalizeKeyRecords current records) AllShaped := by
  rw [normalizeKeyRecords]
  split
  case h_1 => exact .pure h
  case h_2 first hget =>
    obtain ⟨hpos, _⟩ := List.getElem?_eq_some_iff.mp hget
    apply Gives.ite
    · intro hschema
      dsimp only
      split
      case isTrue  => exact setOwnertrust_gives h hpos _ _
      case isFalse =>
        apply (normalizeCapabilities_gives h hget hschema).bind
        rintro records' ⟨h', hlen⟩
        exact setOwnertrust_gives h' (hlen ▸ hpos) _ _
    · exact fun _ => .pure h

end Openpgp
