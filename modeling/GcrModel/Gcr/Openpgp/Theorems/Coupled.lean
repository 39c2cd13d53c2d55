import GcrModel.Gcr.Openpgp.Theorems.Records

-- Two runs on the same packet that begin with different records.
namespace Openpgp

open GLib
open Scan (Coupled)

variable {r r' : Record} {records records' : List Record} {column c i nColumns bits timestamp ndays : Nat}
  {set : Record → Nat → Record} {sets : List (Nat × (Record → Nat → Record))} {schema keyid : CString} {algo : UInt8}
  {f : Record → Result Record} {subpkt : SigSubpacket} {sigType : UInt8}

theorem put_getRaw (hset : IsSetter set) (hne : c ≠ column) (h : put r column set = .ok r') :
    r'.getRaw c = r.getRaw c := by
  obtain ⟨block, hblock⟩ := hset r column
  rw [put] at h
  split at h
  case isTrue =>
    cases h
    rw [hblock]
    exact Record.getRaw_takeColumn_ne hne block
  case isFalse => cases h

theorem putAll_getRaw (h : putAll r sets = .ok r') (hsets : ∀ set ∈ sets, IsSetter set.2 ∧ c ≠ set.1) :
    r'.getRaw c = r.getRaw c := by
  induction sets generalizing r
  case nil =>
    cases h
    rfl
  case cons set sets ih =>
    obtain ⟨⟨hset, hne⟩, hsets⟩ := List.forall_mem_cons.mp hsets
    rw [putAll, List.foldlM_cons] at h
    obtain ⟨r₁, hput, h⟩ := Scan.bind_eq_ok.mp h
    exact (ih h hsets).trans (put_getRaw hset hne hput)

theorem modifyRecord_getRaw (h : modifyRecord records i f = .ok records')
    (hf : ∀ r r', f r = .ok r' → r'.getRaw c = r.getRaw c) : records'.map (·.getRaw c) = records.map (·.getRaw c) := by
  rw [modifyRecord] at h
  split at h
  case h_1 => cases h
  case h_2 r hr =>
    obtain ⟨r', hfr, h⟩ := Scan.bind_eq_ok.mp h
    cases h
    obtain ⟨hi, rfl⟩ := List.getElem?_eq_some_iff.mp hr
    rw [List.map_set, hf _ _ hfr]
    apply List.ext_getElem?
    intro j
    by_cases hj : i = j
    · subst hj
      simp [hi]
    · simp [hj]

theorem fillInKey_getRaw (h : fillInKey subpkt r = .ok r') (hexpiry : c ≠ keyExpiry) (hcaps : c ≠ pubCaps) :
    r'.getRaw c = r.getRaw c := by
  obtain ⟨r₁, hr₁, h⟩ := Scan.bind_eq_ok.mp h
  have hr₁ : r₁.getRaw c = r.getRaw c := by
    rw [setKeyExpiry] at hr₁
    split at hr₁
    case isTrue => cases hr₁; rfl
    case isFalse =>
      split at hr₁
      case h_1 => exact put_getRaw (isSetter_setUlong _) hexpiry hr₁
      case h_2 => cases hr₁; rfl
  rw [← hr₁]
  split at h
  case isFalse => cases h; rfl
  case isTrue =>
    rw [pubOrSubSetKeyCaps] at h
    split at h
    case isTrue  => cases h; rfl
    case isFalse => exact put_getRaw (isSetter_takeRaw _) hcaps h

-- What a signature tells about a key goes to the columns of the expiry, the capabilities and the time of the user.
theorem fillIn_getRaw (h : fillIn records sigType r subpkt = .ok records') (hexpiry : c ≠ keyExpiry)
    (hcaps : c ≠ pubCaps) (htime : c ≠ uidTimestamp) :
    records'.map (·.getRaw c) = records.map (·.getRaw c) := by
  obtain ⟨key, _, h⟩ := Scan.bind_eq_ok.mp h
  cases key
  case none => cases h; rfl
  case some i =>
    obtain ⟨rs, hrs, h⟩ := Scan.bind_eq_ok.mp h
    rw [← modifyRecord_getRaw hrs fun _ _ h => fillInKey_getRaw h hexpiry hcaps]
    split at h
    case isFalse => cases h; rfl
    case isTrue =>
      rw [fillInUid] at h
      split at h
      case h_1 => exact modifyRecord_getRaw h fun _ _ h => put_getRaw (isSetter_setUlong _) htime h
      case h_2 => cases h; rfl

-- The same place in the body and related records.
def Paired (rel : List Record → List Record → Prop) (s s' : State) : Prop :=
  s.cursor = s'.cursor ∧ rel s.records s'.records

abbrev Couples (rel : List Record → List Record → Prop) {α : Type} (x : Parse α) : Prop :=
  Coupled (Paired rel) x (fun _ => Paired rel) (Paired rel)

-- Records stay related when one of an allowed schema is added or when a signature is filled in.
structure Grows (allowed : CString → Prop) (rel : List Record → List Record → Prop) : Prop where
  add  {rs rs' r schema} : rel rs rs' → r.getSchema = some schema → allowed schema → rel (rs ++ [r]) (rs' ++ [r])
  fill {rs rs' ts ts' sigType r subpkt} : rel rs rs' → fillIn rs sigType r subpkt = .ok ts →
    fillIn rs' sigType r subpkt = .ok ts' → rel ts ts'

section

variable {rel : List Record → List Record → Prop} {allowed : CString → Prop} {m : Bytes} {stop n : Nat} {hashes : Hashes}
  {flags : Flags} {record : Record}

theorem readByte_couples : Couples rel (readByte m stop) := by
  rintro ⟨c, rs⟩ ⟨_, rs'⟩ o o' t t' ⟨rfl, hrel⟩ h h'
  simp only [readByte] at h h'
  split at h
  case isTrue hstop =>
    rw [if_pos hstop] at h'
    cases h
    cases h'
    exact ⟨rfl, fun _ ha => absurd ha (Option.some_ne_none _).symm, fun _ => ⟨rfl, hrel⟩⟩
  case isFalse hstop =>
    rw [if_neg hstop] at h'
    split at h
    case h_2 => cases h
    case h_1 b hb =>
      rw [hb] at h'
      cases h
      cases h'
      exact ⟨rfl, fun _ _ => ⟨rfl, hrel⟩, fun ha => absurd ha (Option.some_ne_none _)⟩

theorem readBytes_couples : Couples rel (readBytes m stop n) := by
  rintro ⟨c, rs⟩ ⟨_, rs'⟩ o o' t t' ⟨rfl, hrel⟩ h h'
  simp only [readBytes] at h h'
  split at h
  case isTrue hstop =>
    rw [if_pos hstop] at h'
    cases h
    cases h'
    exact ⟨rfl, fun _ ha => absurd ha (Option.some_ne_none _).symm, fun _ => ⟨rfl, hrel⟩⟩
  case isFalse hstop =>
    rw [if_neg hstop] at h'
    split at h
    case isTrue => cases h
    case isFalse hlen =>
      rw [if_neg hlen] at h'
      cases h
      cases h'
      exact ⟨rfl, fun _ _ => ⟨rfl, hrel⟩, fun ha => absurd ha (Option.some_ne_none _)⟩

theorem cursor_couples : Couples rel cursor := by
  rintro ⟨c, rs⟩ ⟨_, rs'⟩ o o' t t' ⟨rfl, hrel⟩ ⟨⟩ ⟨⟩
  exact ⟨rfl, fun _ _ => ⟨rfl, hrel⟩, fun ha => absurd ha (Option.some_ne_none _)⟩

theorem seek_couples (c : Nat) : Couples rel (seek c) :=
  Coupled.modify fun _ _ h => ⟨rfl, h.2⟩

theorem pure_couples {α : Type} (a : α) : Couples rel (pure a) :=
  .pure fun _ _ => id

theorem fail_couples {α : Type} : Couples rel (Scan.fail : Parse α) :=
  .fail fun _ _ => id

theorem lift_couples {α : Type} (y : Result α) : Couples rel (Scan.lift y : Parse α) :=
  .lift fun _ _ _ _ => id

theorem addRecord_couples (g : Grows allowed rel) (hr : record.getSchema = some schema) (ha : allowed schema) :
    Couples rel (addRecord record) :=
  Coupled.modify fun _ _ h => ⟨h.1, g.add h.2 hr ha⟩

theorem readUint32_couples : Couples rel (readUint32 m stop) :=
  Coupled.bind readBytes_couples fun _ => pure_couples _

theorem readUint16_couples : Couples rel (readUint16 m stop) :=
  Coupled.bind readBytes_couples fun _ => pure_couples _

theorem readMpi_couples : Couples rel (readMpi m stop) := by
  apply Coupled.bind readUint16_couples
  intro bits
  apply Coupled.ite
  · exact fun _ => fail_couples
  · exact fun _ => Coupled.bind readBytes_couples fun _ => pure_couples _

theorem skipMpis_couples (n : Nat) : Couples rel (skipMpis m stop n) := by
  induction n
  case zero      => exact pure_couples _
  case succ n ih => exact Coupled.bind readMpi_couples fun _ => ih

theorem readNewLength_couples : Couples rel (readNewLength m stop) := by
  apply Coupled.bind readByte_couples
  intro c
  apply Coupled.ite
  · exact fun _ => pure_couples _
  intro _
  apply Coupled.ite
  · exact fun _ => Coupled.bind readByte_couples fun _ => pure_couples _
  intro _
  apply Coupled.ite
  · exact fun _ => readUint32_couples
  · exact fun _ => fail_couples

theorem parseKeyid_couples (version algo : UInt8) (data : Nat) : Couples rel (parseKeyid hashes m stop version algo data) := by
  apply Coupled.ite
  · intro _
    apply Coupled.bind (Q := fun _ => Paired rel)
    · apply Coupled.bind readMpi_couples
      intro _
      apply Coupled.ite
      · exact fun _ => fail_couples
      · exact fun _ => (lift_couples _).bind fun _ => pure_couples _
    · exact fun _ => pure_couples _
  intro _
  apply Coupled.bind (Q := fun _ => Paired rel)
  · rw [parseV4AlgoBits]
    split
    case h_1 => exact fail_couples
    case h_2 => exact Coupled.bind readMpi_couples fun _ => (skipMpis_couples _).bind fun _ => pure_couples _
  · exact fun _ => Coupled.bind cursor_couples fun _ => (lift_couples _).bind fun _ => pure_couples _

-- The records of the packets have the schema that they were made with, whatever else is put into them.
theorem putAll_schema {delimiter : UInt8} {h : nColumns ≤ maxColumns} (hpos : 0 < nColumns)
    (hr : putAll (.new schema nColumns delimiter h) sets = .ok r) (hsets : ∀ set ∈ sets, IsSetter set.2 ∧ 0 ≠ set.1) :
    r.getSchema = some schema := by
  have hnew : IsRecord schema nColumns (.new schema nColumns delimiter h) := .new h hpos
  exact (putAll_getRaw hr hsets).trans hnew.schema

theorem keyRecord_getRaw (hc : c < keyBits) {h : nColumns ≤ maxColumns}
    (hr : keyRecord schema nColumns h bits algo keyid timestamp ndays = .ok r) :
    r.getRaw c = (Record.new schema nColumns Record.colon h).getRaw c := by
  refine putAll_getRaw hr fun set hset => ?_
  have hne : ∀ column, keyBits ≤ column → c ≠ column := fun _ hle => Nat.ne_of_lt (Nat.lt_of_lt_of_le hc hle)
  rw [List.mem_append, List.mem_append] at hset
  obtain (hset | hset) | hset := hset
  · simp only [List.mem_cons, List.not_mem_nil, or_false] at hset
    obtain rfl | rfl | rfl | rfl := hset
    · exact ⟨isSetter_setUint _, hne keyBits (by decide)⟩
    · exact ⟨isSetter_setUint _, hne keyAlgo (by decide)⟩
    · exact ⟨isSetter_takeRaw _, hne keyKeyid (by decide)⟩
    · exact ⟨isSetter_setUlong _, hne keyTimestamp (by decide)⟩
  · split at hset
    case isFalse => cases hset
    case isTrue =>
      cases List.mem_singleton.mp hset
      exact ⟨isSetter_setRaw _, hne pubCaps (by decide)⟩
  · split at hset
    case isFalse => cases hset
    case isTrue =>
      cases List.mem_singleton.mp hset
      exact ⟨isSetter_setUlong _, hne keyExpiry (by decide)⟩

theorem keyRecord_schema (hpos : 0 < nColumns) {h : nColumns ≤ maxColumns}
    (hr : keyRecord schema nColumns h bits algo keyid timestamp ndays = .ok r) : r.getSchema = some schema := by
  have hnew : IsRecord schema nColumns (.new schema nColumns Record.colon h) := .new h hpos
  exact (keyRecord_getRaw (by decide) hr).trans hnew.schema

theorem fprRecord_schema {fingerprint : CString} (hr : fprRecord fingerprint = .ok r) : r.getSchema = some schemaFpr :=
  putAll_schema (by decide) hr <| by
    simp [isSetter_takeRaw, fprFingerprint]

-- A key adds its record, and then maybe the one of its fingerprint.
section Key

def addKeyRecords (schema : CString) (nColumns : Nat) (h : nColumns ≤ maxColumns) (bits : Nat) (algo : UInt8)
    (keyid : CString) (fingerprint : Option CString) (timestamp ndays : Nat) : Parse Unit := do
  let record ← Scan.lift (keyRecord schema nColumns h bits algo keyid timestamp ndays)
  addRecord record
  match fingerprint with
  | some fingerprint =>
    if schema = schemaPub ∨ schema = schemaSec then do
      let record ← Scan.lift (fprRecord fingerprint)
      addRecord record
    else
      pure ()
  | none => pure ()

-- What follows the times.
def parseKeyRecords (hashes : Hashes) (m : Bytes) (stop : Nat) (schema : CString) (nColumns : Nat)
    (h : nColumns ≤ maxColumns) (version : UInt8) (data timestamp ndays : Nat) : Parse Unit := do
  let algo ← readByte m stop
  let (bits, keyid, fingerprint) ← parseKeyid hashes m stop version algo data
  addKeyRecords schema nColumns h bits algo keyid fingerprint timestamp ndays

variable {rel' : List Record → List Record → Prop} (h : nColumns ≤ maxColumns)
  (hkey : ∀ {rs rs' r bits algo keyid timestamp ndays}, rel rs rs' →
    keyRecord schema nColumns h bits algo keyid timestamp ndays = .ok r → rel' (rs ++ [r]) (rs' ++ [r]))
  (hfpr : ∀ {rs rs' r}, rel' rs rs' → r.getSchema = some schemaFpr → rel' (rs ++ [r]) (rs' ++ [r]))

include hkey hfpr

theorem addKeyRecords_coupled (fingerprint : Option CString) : Coupled (Paired rel)
    (addKeyRecords schema nColumns h bits algo keyid fingerprint timestamp ndays) (fun _ => Paired rel') (Paired rel) := by
  apply Coupled.lift_bind
  intro record hrecord
  apply Coupled.bind (Q := fun _ => Paired rel')
  · exact .modify fun _ _ hs => ⟨hs.1, hkey hs.2 hrecord⟩
  intro _
  have hnone (s s' : State) : Paired rel' s s' → Paired rel' s s' := id
  cases fingerprint
  case none => exact .pure hnone
  case some fingerprint =>
    apply Coupled.ite
    · exact fun _ => .lift_bind fun _ hr => .modify fun _ _ hs => ⟨hs.1, hfpr hs.2 (fprRecord_schema hr)⟩
    · exact fun _ => .pure hnone

theorem parsePublicKeyOrSubkey_coupled :
    Coupled (Paired rel) (parsePublicKeyOrSubkey hashes m stop schema nColumns h) (fun _ => Paired rel') (Paired rel) := by
  apply Coupled.bind cursor_couples
  intro data
  apply Coupled.bind readByte_couples
  intro version
  apply Coupled.ite
  · exact fun _ => .fail fun _ _ => id
  intro _
  apply Coupled.bind readUint32_couples
  intro timestamp
  have hrest (ndays : Nat) : Coupled (Paired rel)
      (parseKeyRecords hashes m stop schema nColumns h version data timestamp ndays)
      (fun _ => Paired rel') (Paired rel) := by
    apply Coupled.bind readByte_couples
    intro algo
    apply (parseKeyid_couples version algo data).bind
    rintro ⟨bits, keyid, fingerprint⟩
    exact addKeyRecords_coupled h hkey hfpr fingerprint
  apply Coupled.ite
  · exact fun _ => Coupled.bind readUint16_couples hrest
  · exact fun _ => (pure_couples 0).bind hrest

end Key

theorem parsePublicKeyOrSubkey_couples (g : Grows allowed rel) (hschema : allowed schema) (hfpr : allowed schemaFpr)
    (hpos : 0 < nColumns) (h : nColumns ≤ maxColumns) :
    Couples rel (parsePublicKeyOrSubkey hashes m stop schema nColumns h) :=
  parsePublicKeyOrSubkey_coupled h (fun hrel hr => g.add hrel (keyRecord_schema hpos hr) hschema)
    fun hrel hr => g.add hrel hr hfpr

theorem parseSecretKeyOrSubkey_couples (g : Grows allowed rel) (hschema : allowed schema) (hfpr : allowed schemaFpr) :
    Couples rel (parseSecretKeyOrSubkey hashes m stop schema) :=
  (parsePublicKeyOrSubkey_couples g hschema hfpr (by decide) _).bind fun _ => seek_couples _

theorem parseUserId_couples (g : Grows allowed rel) (huid : allowed schemaUid) :
    Couples rel (parseUserId hashes m stop) := by
  apply Coupled.bind cursor_couples
  intro cursor
  apply Coupled.ite
  · exact fun _ => fail_couples
  intro _
  apply (lift_couples _).bind
  intro string
  apply (lift_couples _).bind
  intro fingerprint
  apply Coupled.lift_bind
  intro record hrecord
  have hschema : record.getSchema = some schemaUid :=
    putAll_schema (by decide) hrecord (by simp [isSetter_takeRaw, isSetter_setString, uidFingerprint, uidUserid])
  exact (addRecord_couples g hschema huid).bind fun _ => seek_couples _

theorem parseUserAttributePacket_couples (g : Grows allowed rel) (hxa1 : allowed schemaXa1) (subpktType : UInt8) :
    Couples rel (parseUserAttributePacket hashes m stop subpktType) := by
  apply Coupled.bind cursor_couples
  intro cursor
  apply Coupled.lift_bind
  intro r hr
  apply (lift_couples _).bind
  intro fingerprint
  apply (lift_couples _).bind
  intro data
  apply Coupled.lift_bind
  intro record hrecord
  have hr : r.getSchema = some schemaXa1 :=
    putAll_schema (by decide) hr (by simp [isSetter_setUint, xa1Length, xa1Type])
  have hschema : record.getSchema = some schemaXa1 := by
    refine (putAll_getRaw hrecord ?_).trans hr
    simp [isSetter_takeRaw, isSetter_setBase64, xa1Fingerprint, xa1Data]
  exact (addRecord_couples g hschema hxa1).bind fun _ => seek_couples _

theorem parseUserAttributes_couples (g : Grows allowed rel) (hxa1 : allowed schemaXa1) (fuel count : Nat) :
    Couples rel (parseUserAttributes hashes flags m stop fuel count) := by
  induction fuel generalizing count
  case zero => exact lift_couples _
  case succ fuel ih =>
    apply Coupled.bind cursor_couples
    intro position
    apply Coupled.ite
    · exact fun _ => pure_couples _
    intro _
    apply Coupled.bind readNewLength_couples
    intro subpktLen
    apply Coupled.bind readByte_couples
    intro subpktType
    apply Coupled.bind cursor_couples
    intro position
    apply Coupled.ite
    · exact fun _ => (parseUserAttributePacket_couples g hxa1 subpktType).bind fun _ => ih (count + 1)
    · exact fun _ => (seek_couples _).bind fun _ => ih (count + 1)

theorem parseUserAttribute_couples (g : Grows allowed rel) (hxa1 : allowed schemaXa1) (huat : allowed schemaUat) :
    Couples rel (parseUserAttribute hashes flags m stop) := by
  apply Coupled.bind cursor_couples
  intro start
  apply (parseUserAttributes_couples g hxa1 _ 0).bind
  intro count
  apply (lift_couples _).bind
  intro fingerprint
  apply Coupled.bind cursor_couples
  intro cursor
  apply Coupled.lift_bind
  intro record hrecord
  have hschema : record.getSchema = some schemaUat :=
    putAll_schema (by decide) hrecord (by simp [isSetter_takeRaw, uatFingerprint, uatCountSize])
  exact addRecord_couples g hschema huat

theorem skipSignatureMpis_couples (algo : UInt8) : Couples rel (skipSignatureMpis m stop algo) := by
  apply Coupled.ite
  · exact fun _ => skipMpis_couples _
  intro _
  apply Coupled.ite
  · exact fun _ => skipMpis_couples _
  · exact fun _ => fail_couples

theorem parseV3Signature_couples (g : Grows allowed rel) (hsig : allowed schemaSig) :
    Couples rel (parseV3Signature flags m stop) := by
  apply Coupled.bind readByte_couples
  intro sigLen
  apply Coupled.ite
  · exact fun _ => fail_couples
  intro _
  apply Coupled.bind readByte_couples
  intro sigType
  apply Coupled.bind readUint32_couples
  intro sigTime
  apply Coupled.bind readBytes_couples
  intro keyid
  apply Coupled.bind readByte_couples
  intro keyAlgo
  apply Coupled.bind readByte_couples
  intro _
  apply Coupled.bind readUint16_couples
  intro _
  apply (skipSignatureMpis_couples keyAlgo).bind
  intro _
  apply Coupled.ite
  · intro _
    apply Coupled.lift_bind
    intro r hr
    have hschema : r.getSchema = some schemaSig := putAll_schema (by decide) hr <| by
      simp [isSetter_setUint, isSetter_takeRaw, isSetter_setUlong, sigAlgo, sigKeyid, sigTimestamp, sigClass]
    exact addRecord_couples g hschema hsig
  · exact fun _ => pure_couples _

-- The record of a signature and the one of a key that may revoke it have their schemas.
structure SigSchemas (sig : Record × SigSubpacket) : Prop where
  record     : sig.1.getSchema = some schemaSig
  revocation : ∀ r, sig.2.revocation = some r → r.getSchema = some schemaRvk

theorem parseV4SignatureRevocation_coupled : Coupled (Paired rel) (parseV4SignatureRevocation m stop)
    (fun r s s' => r.getSchema = some schemaRvk ∧ Paired rel s s') (Paired rel) := by
  apply Coupled.bind readByte_couples
  intro klass
  apply Coupled.bind readByte_couples
  intro algo
  apply Coupled.bind readBytes_couples
  intro fingerprint
  apply Coupled.lift
  intro r s s' hr hs
  refine ⟨putAll_schema (by decide) hr ?_, hs⟩
  simp [isSetter_setUint, isSetter_takeRaw, rvkAlgo, rvkFingerprint, rvkClass]

abbrev CouplesSig (rel : List Record → List Record → Prop) (x : Parse (Record × SigSubpacket)) : Prop :=
  Coupled (Paired rel) x (fun sig s s' => SigSchemas sig ∧ Paired rel s s') (Paired rel)

theorem parseV4SignatureSubpacket_couples (hsig : SigSchemas (record, subpkt)) (subType : UInt8) :
    CouplesSig rel (parseV4SignatureSubpacket m stop subType record subpkt) := by
  have hput {set : Record → Nat → Record} {column : Nat} (hset : IsSetter set) (hne : 0 ≠ column) : CouplesSig rel
      (do let record ← Scan.lift (put record column set); pure (record, subpkt)) :=
    .lift_bind fun _ hr => .pure fun _ _ hs => ⟨⟨(put_getRaw hset hne hr).trans hsig.record, hsig.revocation⟩, hs⟩
  have hsubpkt {subpkt' : SigSubpacket} (h : subpkt'.revocation = subpkt.revocation) :
      CouplesSig rel (pure (record, subpkt')) :=
    .pure fun _ _ hs => ⟨⟨hsig.record, fun r hr => hsig.revocation r (h.symm.trans hr)⟩, hs⟩
  have hfail : CouplesSig rel Scan.fail := .fail fun _ _ => id
  unfold parseV4SignatureSubpacket
  dsimp only
  split
  case h_1 => exact Coupled.bind readUint32_couples fun _ => hput (isSetter_setUlong _) (by decide)
  case h_2 => exact Coupled.bind readBytes_couples fun _ => hput (isSetter_takeRaw _) (by decide)
  case h_3 => exact Coupled.bind readUint32_couples fun _ => hsubpkt rfl
  case h_4 => exact Coupled.bind readUint32_couples fun _ => hput (isSetter_setUlong _) (by decide)
  case h_5 =>
    apply Coupled.bind readByte_couples
    intro byte
    exact .ite (fun _ => hfail) fun _ => hsubpkt rfl
  case h_6 =>
    apply Coupled.bind readByte_couples
    intro byte
    exact .ite (fun _ => hfail) fun _ => hsubpkt rfl
  case h_7 =>
    apply Coupled.bind readByte_couples
    intro byte
    exact (seek_couples _).bind fun _ => hsubpkt rfl
  case h_8 =>
    apply Coupled.bind cursor_couples
    intro position
    exact (lift_couples _).bind fun _ => hput (isSetter_setString _) (by decide)
  case h_9 =>
    apply (parseV4SignatureRevocation_coupled).bind
    intro revocation
    apply Coupled.pure
    rintro s s' ⟨hr, hs⟩
    refine ⟨⟨hsig.record, ?_⟩, hs⟩
    rintro _ ⟨⟩
    exact hr
  case h_10 =>
    apply Coupled.ite
    · exact fun _ => (seek_couples _).bind fun _ => hsubpkt rfl
    · exact fun _ => hfail

theorem parseV4SignatureSubpackets_couples (fuel : Nat) (hsig : SigSchemas (record, subpkt)) :
    CouplesSig rel (parseV4SignatureSubpackets m stop fuel record subpkt) := by
  induction fuel generalizing record subpkt
  case zero => exact .lift fun _ _ _ h => by cases h
  case succ fuel ih =>
    apply Coupled.bind cursor_couples
    intro start
    apply Coupled.ite
    · exact fun _ => .pure fun _ _ hs => ⟨hsig, hs⟩
    intro _
    apply Coupled.bind readNewLength_couples
    intro length
    apply Coupled.bind readByte_couples
    intro subType
    apply Coupled.ite
    · exact fun _ => .fail fun _ _ => id
    intro _
    apply Coupled.bind cursor_couples
    intro position
    apply Coupled.ite
    · exact fun _ => .fail fun _ _ => id
    intro _
    apply (parseV4SignatureSubpacket_couples hsig subType).bind
    rintro ⟨record, subpkt⟩
    apply Coupled.assume fun _ _ => And.left
    intro hsig
    apply Coupled.mono (P := Paired rel) _ (fun _ _ => And.right) (fun _ _ _ => id) fun _ _ => id
    apply Coupled.bind cursor_couples
    intro after
    apply Coupled.ite
    · exact fun _ => .fail fun _ _ => id
    · exact fun _ => ih hsig

-- The records before are only looked at to fill in what the signature tells.
theorem fillIn_couples (g : Grows allowed rel) {α : Type} {rest : Parse α} (h : Couples rel rest) : Couples rel (do
    let before ← Openpgp.records
    let after ← Scan.lift (fillIn before sigType record subpkt)
    setRecords after
    rest) := by
  have hrun {s t : State} {o : Option α} (hx : (do
      let before ← Openpgp.records
      let after ← Scan.lift (fillIn before sigType record subpkt)
      setRecords after
      rest : Parse α) s = .ok (o, t)) : ∃ after, fillIn s.records sigType record subpkt = .ok after ∧
        rest { s with records := after } = .ok (o, t) := by
    have hrecords : Openpgp.records s = .ok (some s.records, s) := rfl
    rw [Scan.bind_some hrecords] at hx
    cases hfill : fillIn s.records sigType record subpkt
    case error e => cases (Scan.bind_error (Scan.lift_error hfill)).symm.trans hx
    case ok after =>
      rw [Scan.bind_some (Scan.lift_ok hfill)] at hx
      exact ⟨after, rfl, hx⟩
  intro s s' o o' t t' hs hx hx'
  obtain ⟨after, hfill, hrest⟩ := hrun hx
  obtain ⟨after', hfill', hrest'⟩ := hrun hx'
  have hafter : Paired rel { s with records := after } { s' with records := after' } :=
    ⟨hs.1, g.fill hs.2 hfill hfill'⟩
  exact h _ _ o o' t t' hafter hrest hrest'

theorem parseV4Signature_couples (g : Grows allowed rel) (hsig : allowed schemaSig) (hrvk : allowed schemaRvk) :
    Couples rel (parseV4Signature flags m stop) := by
  apply Coupled.bind readByte_couples
  intro sigType
  apply Coupled.bind readByte_couples
  intro keyAlgo
  apply Coupled.bind readByte_couples
  intro _
  apply Coupled.bind readUint16_couples
  intro hashedLen
  apply Coupled.bind cursor_couples
  intro position
  apply Coupled.ite
  · exact fun _ => fail_couples
  intro _
  have hnew : SigSchemas (Record.new schemaSig sigMax Record.colon (by decide), {}) := ⟨rfl, by simp⟩
  apply (parseV4SignatureSubpackets_couples _ hnew).bind
  rintro ⟨record, subpkt⟩
  apply Coupled.assume fun _ _ => And.left
  intro hschemas
  apply Coupled.mono (P := Paired rel) _ (fun _ _ => And.right) (fun _ _ _ => id) fun _ _ => id
  apply Coupled.bind readUint16_couples
  intro unhashedLen
  apply Coupled.bind cursor_couples
  intro position
  apply Coupled.ite
  · exact fun _ => fail_couples
  intro _
  apply (parseV4SignatureSubpackets_couples _ hschemas).bind
  rintro ⟨record, subpkt⟩
  apply Coupled.assume fun _ _ => And.left
  intro hschemas
  apply Coupled.mono (P := Paired rel) _ (fun _ _ => And.right) (fun _ _ _ => id) fun _ _ => id
  apply Coupled.bind readUint16_couples
  intro _
  apply (skipSignatureMpis_couples keyAlgo).bind
  intro _
  have hrest : Couples rel (fillInRecords flags sigType keyAlgo record subpkt) := by
    apply fillIn_couples g
    apply Coupled.ite
    · intro _
      apply Coupled.lift_bind
      intro r hr
      have hschema : r.getSchema = some schemaSig := by
        refine (putAll_getRaw hr ?_).trans hschemas.record
        simp [isSetter_setUint, isSetter_takeRaw, sigAlgo, sigClass]
      exact addRecord_couples g hschema hsig
    · exact fun _ => pure_couples _
  cases hrevocation : subpkt.revocation
  case none => exact hrest
  case some revocation =>
    exact (addRecord_couples g (hschemas.revocation revocation hrevocation) hrvk).bind fun _ => hrest

theorem parseSignature_couples (g : Grows allowed rel) (hsig : allowed schemaSig) (hrvk : allowed schemaRvk) :
    Couples rel (parseSignature flags m stop) := by
  apply Coupled.bind readByte_couples
  intro version
  apply Coupled.ite
  · exact fun _ => parseV3Signature_couples g hsig
  intro _
  apply Coupled.ite
  · exact fun _ => parseV4Signature_couples g hsig hrvk
  · exact fun _ => fail_couples

-- The records of each kind of packet have schemas of their own.
theorem parseOpenpgpPacket_couples (g : Grows allowed rel) {pktType : UInt8} (hpub : pktType = 6 → allowed schemaPub)
    (h : ∀ schema, schema ≠ schemaPub → allowed schema) :
    Couples rel (parseOpenpgpPacket hashes flags m stop pktType) := by
  apply Coupled.ite
  · exact fun h6 => parsePublicKeyOrSubkey_couples g (hpub h6) (h _ (by decide)) (by decide) _
  intro _
  apply Coupled.ite
  · exact fun _ => parsePublicKeyOrSubkey_couples g (h _ (by decide)) (h _ (by decide)) (by decide) _
  intro _
  apply Coupled.ite
  · exact fun _ => parseUserId_couples g (h _ (by decide))
  intro _
  apply Coupled.ite
  · exact fun _ => parseUserAttribute_couples g (h _ (by decide)) (h _ (by decide))
  intro _
  apply Coupled.ite
  · exact fun _ => parseSignature_couples g (h _ (by decide)) (h _ (by decide))
  intro _
  apply Coupled.ite
  · exact fun _ => parseSecretKeyOrSubkey_couples g (h _ (by decide)) (h _ (by decide))
  intro _
  apply Coupled.ite
  · exact fun _ => parseSecretKeyOrSubkey_couples g (h _ (by decide)) (h _ (by decide))
  · exact fun _ => pure_couples _

end

end Openpgp
