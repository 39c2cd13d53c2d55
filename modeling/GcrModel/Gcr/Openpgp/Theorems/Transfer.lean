import GcrModel.Gcr.Openpgp.Theorems.Subpackets

-- What a signature transfers to the records in front of it.
namespace Openpgp

open GLib

variable {type n i : Nat} {body : Bytes} {ps : List Subpacket} {record key : Record} {records : List Record} {subpkt : SigSubpacket}
  {sigType : UInt8} {f : Record → Result Record}

theorem wellFormed_lastBody (h : lastBody type ps = some body) : WellFormed type body := by
  obtain ⟨p, hp, rfl⟩ := Option.map_eq_some_iff.mp h
  have htype : p.type = type := by simpa using List.find?_some hp
  exact htype ▸ p.wellFormed

theorem length_of_time (h : WellFormed type body) (htype : type = 2 ∨ type = 9) : body.length = 4 := by
  cases h with
  | creation h  => exact h
  | keyExpiry h => exact h
  | ignored h   => rcases htype with rfl | rfl <;> exact absurd h (by decide)
  | _           => omega

theorem lastTime_lt (ps : List Subpacket) (htype : type = 2 ∨ type = 9) :
    (lastBody type ps).elim 0 bigEndian < 2 ^ 32 := by
  cases hbody : lastBody type ps with
  | none      => decide
  | some body =>
    have hlt := bigEndian_lt_pow body
    rwa [length_of_time (wellFormed_lastBody hbody) htype] at hlt

theorem toNat_timeOf (ps : List Subpacket) : (timeOf ps).toNat = (lastBody 2 ps).elim 0 bigEndian := by
  have hlt : (lastBody 2 ps).elim 0 bigEndian < 2 ^ 32 := lastTime_lt ps (.inl rfl)
  rw [timeOf, UInt64.toNat_ofNat']
  omega

theorem FilledBy.getUlong (h : FilledBy ps record) : record.getUlong sigTimestamp = some (timeOf ps) := by
  have hlt : (lastBody 2 ps).elim 0 bigEndian < 2 ^ 32 := lastTime_lt ps (.inl rfl)
  rw [← toNat_timeOf] at hlt
  cases hbody : lastBody 2 ps with
  | none      =>
    have hraw : record.getRaw sigTimestamp = some Record.empty := by rw [h.timestamp, hbody]; rfl
    have htime : timeOf ps = 0 := by rw [timeOf, hbody]; rfl
    rw [Record.getUlong, hraw, htime]
    decide +kernel
  | some body =>
    have htime : timeOf ps = UInt64.ofNat (bigEndian body) := by rw [timeOf, hbody]; rfl
    have hraw : record.getRaw sigTimestamp = some (.of (printUnsigned (timeOf ps).toNat)) := by
      rw [h.timestamp, hbody, htime]
      rfl
    exact (Record.getUlong_iff hraw).mpr hlt

theorem NotedBy.fillInKey (h : NotedBy ps subpkt) (time : Option UInt64) (key : Record) :
    fillInKey subpkt key = Transfer.toKey ⟨expiryOf ps, capsOf ps, time⟩ key := by
  have hexpiry : setKeyExpiry subpkt key = Transfer.toExpiry ⟨expiryOf ps, capsOf ps, time⟩ key := by
    rw [setKeyExpiry, h.keyExpiry]
    rfl
  rw [Openpgp.fillInKey, hexpiry]
  apply bind_congr
  intro key
  rw [Transfer.toCaps, capsOf, ← h.keyFlags]
  by_cases hzero : subpkt.keyFlags = 0
  case pos => rw [if_neg (not_not_intro hzero), if_pos hzero]
  case neg =>
    rw [if_pos hzero, if_neg hzero]
    rfl

theorem findPrimaryKey_append (revs : List Record) (keyid : Option CString) (hn : n ≤ records.length) :
    findPrimaryKey (records ++ revs) keyid n = findPrimaryKey records keyid n := by
  induction n with
  | zero      => rfl
  | succ n ih => rw [findPrimaryKey, findPrimaryKey, List.getElem?_append_left hn, ih (Nat.le_of_succ_le hn)]

theorem modifyRecord_append (hi : i < records.length) (revs : List Record) :
    modifyRecord (records ++ revs) i f = (do let after ← modifyRecord records i f; pure (after ++ revs)) := by
  rw [modifyRecord, modifyRecord, List.getElem?_append_left hi, List.getElem?_eq_getElem hi]
  dsimp only
  rw [bind_assoc]
  apply bind_congr
  intro record
  rw [List.set_append_left i record hi]
  rfl

theorem keyOrSubFind_lt {keyid : CString} (h : keyOrSubFindForSelfSignature records sigType (some keyid) = .ok (some i)) :
    i < records.length := by
  obtain ⟨key, hkey, hfound⟩ : Scan.Gives (keyOrSubFindForSelfSignature records sigType (some keyid)) (Found records) :=
    keyOrSubFindForSelfSignature_gives sigType keyid
  cases h.symm.trans hkey
  obtain ⟨r, hget, _⟩ := hfound i rfl
  exact (List.getElem?_eq_some_iff.mp hget).1

theorem fillInUid_alone {t : Transfer} (hfilled : FilledBy ps record)
    (htime : isCertification sigType = true → t.time = some (timeOf ps)) (after : List Record) :
    fillInUid after sigType record = t.toUid sigType after := by
  rw [fillInUid, Transfer.toUid, hfilled.getUlong]
  cases hcertification : isCertification sigType with
  | true  => rw [htime hcertification]; rfl
  | false =>
    have hnone : uidOrUatFindForSelfSignature after sigType = none := by
      simp [uidOrUatFindForSelfSignature, hcertification]
    rw [hnone]
    rfl

theorem Transfer.toUid_none {t : Transfer} (h : t.time = none) (after : List Record) :
    t.toUid sigType after = .ok after := by
  rw [Transfer.toUid, h]
  split
  case h_1 htime => cases htime
  case h_2       => rfl

theorem schema_revocationRecord (body : Bytes) : (revocationRecord body).getSchema = some schemaRvk :=
  rfl

-- A user id in front of a revocation key is not found.
theorem fillInUid_behind (body : Bytes) (after : List Record) :
    fillInUid (after ++ [revocationRecord body]) sigType record = .ok (after ++ [revocationRecord body]) := by
  have hother : schemaRvk ≠ schemaUid ∧ schemaRvk ≠ schemaUat := by decide
  have hnone : uidOrUatFindForSelfSignature (after ++ [revocationRecord body]) sigType = none := by
    simp [uidOrUatFindForSelfSignature, schema_revocationRecord, hother]
  rw [fillInUid, hnone]

-- The records behind are kept.
theorem fillIn_append {t : Transfer} {revs : List Record} (hi : i < records.length)
    (hkey : ∀ key, fillInKey subpkt key = t.toKey key)
    (huid : ∀ after, fillInUid (after ++ revs) sigType record = (do let after ← t.toUid sigType after; pure (after ++ revs))) :
    (modifyRecord (records ++ revs) i (fillInKey subpkt) >>= fun after =>
      if (after[i]?).any (·.getSchema = some schemaPub) then fillInUid after sigType record else pure after) =
    (modifyRecord records i t.toKey >>= fun after =>
      if (after[i]?).any (·.getSchema = some schemaPub) then t.toUid sigType after else pure after) >>= fun after =>
        pure (after ++ revs) := by
  rw [modifyRecord_append hi, funext hkey]
  cases hmodify : modifyRecord records i t.toKey with
  | error e  => rfl
  | ok after =>
    have hlt : i < after.length := (modifyRecord_length hmodify).symm ▸ hi
    rw [Scan.ok_bind, Scan.ok_bind, pure_bind, List.getElem?_append_left hlt, huid]
    split
    case isTrue  => rfl
    case isFalse => rfl

variable {keyid : CString} {t : Transfer} {revs : List Record}

theorem fillIn_found (hkeyid : record.getRaw sigKeyid = some keyid)
    (hfind : keyOrSubFindForSelfSignature (records ++ revs) sigType (some keyid) =
      keyOrSubFindForSelfSignature records sigType (some keyid))
    (hkey : ∀ key, fillInKey subpkt key = t.toKey key)
    (huid : ∀ after, fillInUid (after ++ revs) sigType record = (do let after ← t.toUid sigType after; pure (after ++ revs))) :
    fillIn (records ++ revs) sigType record subpkt =
      (do let after ← transferred records sigType keyid t; pure (after ++ revs)) := by
  rw [fillIn, hkeyid, hfind, transferred]
  cases hfound : keyOrSubFindForSelfSignature records sigType (some keyid) with
  | error e => rfl
  | ok key  =>
    cases key with
    | none   => rfl
    | some i => exact fillIn_append (keyOrSubFind_lt hfound) hkey huid

theorem modifyRecord_pure (hi : i < records.length) : modifyRecord records i pure = .ok records := by
  rw [modifyRecord, List.getElem?_eq_getElem hi]
  change Except.ok (records.set i records[i]) = _
  rw [List.set_getElem_self]

theorem transferred_none (records : List Record) (sigType : UInt8) (keyid : CString) :
    transferred records sigType keyid ⟨0, none, none⟩ = .ok records := by
  obtain ⟨key, hkey, hfound⟩ : Scan.Gives (keyOrSubFindForSelfSignature records sigType (some keyid)) (Found records) :=
    keyOrSubFindForSelfSignature_gives sigType keyid
  rw [transferred, hkey, Scan.ok_bind]
  cases key with
  | none   => rfl
  | some i =>
    have hmodify : modifyRecord records i (Transfer.toKey ⟨0, none, none⟩) = .ok records :=
      modifyRecord_pure (keyOrSubFind_lt hkey)
    dsimp only
    rw [hmodify, Scan.ok_bind, Transfer.toUid_none rfl]
    exact ite_self _

theorem transferOf_of_other (hcertification : ¬isCertification sigType = true)
    (h : ¬((sigType = 24 ∨ sigType = 25) ∧ (lastBody 12 ps).isNone = true)) : transferOf sigType ps = ⟨0, none, none⟩ := by
  rw [transferOf, if_neg hcertification]
  exact if_neg h

theorem fillIn_other (hcertification : ¬isCertification sigType = true)
    (h : ¬((sigType = 24 ∨ sigType = 25) ∧ (lastBody 12 ps).isNone = true)) (records : List Record) (record : Record) (subpkt : SigSubpacket) :
    fillIn (records ++ ((lastBody 12 ps).map revocationRecord).toList) sigType record subpkt =
      .ok (records ++ ((lastBody 12 ps).map revocationRecord).toList) := by
  have hfind : keyOrSubFindForSelfSignature (records ++ ((lastBody 12 ps).map revocationRecord).toList) sigType
      (record.getRaw sigKeyid) = .ok none := by
    rw [keyOrSubFindForSelfSignature, if_neg hcertification]
    split
    case isTrue hbinding =>
      cases hbody : lastBody 12 ps with
      | none      => exact absurd ⟨hbinding, by rw [hbody]; rfl⟩ h
      | some body =>
        have hother : schemaRvk ≠ schemaSub := by decide
        simp [schema_revocationRecord, hother]
    case isFalse => rfl
  rw [fillIn, hfind]
  rfl

theorem findPrimaryKey_behind (body : Bytes) (records : List Record) (keyid : Option CString) :
    findPrimaryKey (records ++ [revocationRecord body]) keyid (records ++ [revocationRecord body]).length =
      findPrimaryKey records keyid records.length := by
  have hother : ¬((revocationRecord body).getSchema = some schemaPub ∨ (revocationRecord body).getSchema = some schemaSec) := by
    rw [schema_revocationRecord]
    decide
  have hlength : (records ++ [revocationRecord body]).length = records.length + 1 := List.length_append
  rw [hlength, findPrimaryKey, List.getElem?_concat_length]
  dsimp only
  rw [if_neg hother, findPrimaryKey_append _ _ (Nat.le_refl _)]

theorem transferOf_of_certification (h : isCertification sigType = true) (ps : List Subpacket) :
    transferOf sigType ps =
      ⟨expiryOf ps, capsOf ps, if (lastBody 12 ps).isNone = true then some (timeOf ps) else none⟩ :=
  if_pos h

theorem transferOf_of_binding (hcertification : ¬isCertification sigType = true)
    (h : (sigType = 24 ∨ sigType = 25) ∧ (lastBody 12 ps).isNone = true) :
    transferOf sigType ps = ⟨expiryOf ps, capsOf ps, none⟩ := by
  rw [transferOf, if_neg hcertification]
  exact if_pos h

-- What is filled in comes from the last values.
theorem fillIn_transferred (hfilled : FilledBy ps record) (hnoted : NotedBy ps subpkt) (records : List Record) (sigType : UInt8) :
    fillIn (records ++ ((lastBody 12 ps).map revocationRecord).toList) sigType record subpkt =
      (do let after ← transferred records sigType ((lastBody 16 ps).elim Record.empty hex) (transferOf sigType ps)
          pure (after ++ ((lastBody 12 ps).map revocationRecord).toList)) := by
  by_cases hcertification : isCertification sigType = true
  case pos =>
    rw [transferOf_of_certification hcertification]
    apply fillIn_found hfilled.keyid _ (hnoted.fillInKey _)
    · intro after
      cases hbody : lastBody 12 ps with
      | none      =>
        have huid : fillInUid after sigType record = Transfer.toUid ⟨expiryOf ps, capsOf ps, some (timeOf ps)⟩ sigType after :=
          fillInUid_alone hfilled (fun _ => rfl) after
        simpa only [Option.map_none, Option.toList_none, List.append_nil, bind_pure, Option.isNone_none, if_true] using huid
      | some body =>
        rw [Transfer.toUid_none rfl]
        exact fillInUid_behind body after
    · cases lastBody 12 ps with
      | none      => rw [Option.map_none, Option.toList_none, List.append_nil]
      | some body =>
        rw [keyOrSubFindForSelfSignature, keyOrSubFindForSelfSignature, if_pos hcertification, if_pos hcertification]
        exact findPrimaryKey_behind body records _
  case neg =>
    by_cases hbinding : (sigType = 24 ∨ sigType = 25) ∧ (lastBody 12 ps).isNone = true
    case neg =>
      rw [fillIn_other hcertification hbinding, transferOf_of_other hcertification hbinding, transferred_none]
      rfl
    case pos =>
      have hnone := Option.isNone_iff_eq_none.mp hbinding.2
      rw [transferOf_of_binding hcertification hbinding]
      apply fillIn_found hfilled.keyid _ (hnoted.fillInKey _)
      · intro after
        have huid : fillInUid after sigType record = Transfer.toUid ⟨expiryOf ps, capsOf ps, none⟩ sigType after :=
          fillInUid_alone hfilled (fun h => absurd h hcertification) after
        simpa only [hnone, Option.map_none, Option.toList_none, List.append_nil, bind_pure] using huid
      · rw [hnone, Option.map_none, Option.toList_none, List.append_nil]

theorem printed_injective {a b : UInt64} (h : CString.of (printUnsigned a.toNat) = .of (printUnsigned b.toNat)) : a = b := by
  have hnul (n : Nat) : (0 : UInt8) ∉ printUnsigned n := fun hmem => absurd (Record.mem_printUnsigned hmem).1 (by decide)
  have hbytes : printUnsigned a.toNat = printUnsigned b.toNat := by
    rw [← CString.bytes_of (hnul a.toNat), ← CString.bytes_of (hnul b.toNat), h]
  have hread := asciiStrtoull_printUnsigned (Nat.le_of_lt_succ a.toNat_lt)
  rw [hbytes, asciiStrtoull_printUnsigned (Nat.le_of_lt_succ b.toNat_lt)] at hread
  exact UInt64.toNat_inj.mp (Prod.mk.inj hread).1.symm

-- A key or a subkey that has not been filled in yet. No signature has its capabilities.
def keyWith (schema keyid : CString) : Record :=
  ((Record.new schema pubMax Record.colon pubMax_le).takeRaw keyKeyid keyid).takeRaw pubCaps (.of (ascii ['x']))

theorem shaped_keyWith (schema keyid : CString) : Shaped (keyWith schema keyid) where
  common := by simp [keyWith, Record.new, Record.takeRaw, Record.takeColumn, pubMax, uidMax]
  key    := fun _ => by simp [keyWith, Record.new, Record.takeRaw, Record.takeColumn]

def expiryText (expiry : Nat) : CString :=
  if expiry = 0 then Record.empty else .of (printUnsigned (UInt64.ofNat expiry).toNat)

theorem toKey_keyWith (schema : CString) (hsec : schema ≠ schemaSec) (hssb : schema ≠ schemaSsb) (t : Transfer) (keyid : CString) :
    ∃ key, t.toKey (keyWith schema keyid) = .ok key ∧ key.getSchema = some schema ∧
      key.getRaw keyExpiry = some (expiryText t.expiry) ∧ key.getRaw pubCaps = some (t.caps.getD (.of (ascii ['x']))) := by
  obtain ⟨key, hkey, hlength, hschema, hexpiry, hcaps⟩ : ∃ key, t.toExpiry (keyWith schema keyid) = .ok key ∧
      key.columns.length = pubMax ∧ key.getSchema = some schema ∧ key.getRaw keyExpiry = some (expiryText t.expiry) ∧
        key.getRaw pubCaps = some (.of (ascii ['x'])) := by
    rw [Transfer.toExpiry, expiryText]
    split
    case isTrue  => exact ⟨_, rfl, rfl, rfl, rfl, rfl⟩
    case isFalse =>
      have htime : (keyWith schema keyid).getUlong keyTimestamp = some 0 := by
        change (keyWith schemaPub Record.empty).getUlong keyTimestamp = some 0
        decide +kernel
      rw [htime]
      dsimp only
      rw [UInt64.zero_add]
      exact ⟨_, rfl, rfl, rfl, rfl, rfl⟩
  rw [Transfer.toKey, hkey, Scan.ok_bind, Transfer.toCaps]
  cases t.caps with
  | none      => exact ⟨key, rfl, hschema, hexpiry, hcaps⟩
  | some caps =>
    have hother : ¬(key.getSchema = some schemaSec ∨ key.getSchema = some schemaSsb) := by
      rw [hschema]
      simp [hsec, hssb]
    have hlt : pubCaps < key.columns.length := hlength.symm ▸ (by decide)
    dsimp only
    rw [if_neg hother, put, if_pos hlt]
    refine ⟨_, rfl, ?_, ?_, Record.getRaw_takeColumn hlt _⟩
    · exact (Record.getRaw_takeColumn_ne (by decide) _).trans hschema
    · exact (Record.getRaw_takeColumn_ne (by decide) _).trans hexpiry

-- What the subpackets of a signature can transfer.
structure Transfer.Legal (t : Transfer) : Prop where
  expiry : t.expiry < 2 ^ 32
  caps   : t.caps ≠ some (.of (ascii ['x']))

theorem legal_transferOf (sigType : UInt8) (ps : List Subpacket) : (transferOf sigType ps).Legal := by
  have hexpiry : expiryOf ps < 2 ^ 32 := lastTime_lt ps (.inr rfl)
  have hcaps : capsOf ps ≠ some (.of (ascii ['x'])) := by
    rw [capsOf]
    split
    case isTrue  => exact (Option.some_ne_none _).symm
    case isFalse => exact fun h => caps_ne _ (Option.some.inj h)
  rw [transferOf]
  split
  case isTrue  => exact ⟨hexpiry, hcaps⟩
  case isFalse =>
    split
    case isTrue  => exact ⟨hexpiry, hcaps⟩
    case isFalse => exact ⟨by decide, (Option.some_ne_none _).symm⟩

theorem expiryText_injective {a b : Nat} (ha : a < 2 ^ 32) (hb : b < 2 ^ 32) (h : expiryText a = expiryText b) : a = b := by
  rw [expiryText, expiryText] at h
  split at h
  case isTrue hzero =>
    split at h
    case isTrue hzero' => rw [hzero, hzero']
    case isFalse       => exact absurd h.symm (printed_ne_empty _)
  case isFalse =>
    split at h
    case isTrue  => exact absurd h (printed_ne_empty _)
    case isFalse =>
      have heq := congrArg UInt64.toNat (printed_injective h)
      rw [UInt64.toNat_ofNat', UInt64.toNat_ofNat'] at heq
      omega

-- Both are seen in the record of the key.
theorem toKey_injective {schema : CString} (hsec : schema ≠ schemaSec) (hssb : schema ≠ schemaSsb) {t t' : Transfer}
    (hlegal : t.Legal) (hlegal' : t'.Legal) (h : t.toKey (keyWith schema keyid) = t'.toKey (keyWith schema keyid)) :
    t.expiry = t'.expiry ∧ t.caps = t'.caps := by
  obtain ⟨key, hkey, _, hexpiry, hcaps⟩ := toKey_keyWith schema hsec hssb t keyid
  obtain ⟨key', hkey', _, hexpiry', hcaps'⟩ := toKey_keyWith schema hsec hssb t' keyid
  cases (hkey.symm.trans h).trans hkey'
  constructor
  case left => exact expiryText_injective hlegal.expiry hlegal'.expiry (Option.some.inj (hexpiry.symm.trans hexpiry'))
  case right =>
    have hget := Option.some.inj (hcaps.symm.trans hcaps')
    have hne := hlegal.caps
    have hne' := hlegal'.caps
    cases hcaps : t.caps with
    | none      =>
      cases hcaps' : t'.caps with
      | none      => rfl
      | some caps => simp_all
    | some caps =>
      cases hcaps' : t'.caps with
      | none       => simp_all
      | some caps' => simp_all

-- The time of the user id.
def Transfer.uid (t : Transfer) : Record :=
  match t.time with
  | none           => uidNew
  | some timestamp => uidNew.setUlong uidTimestamp timestamp

theorem Transfer.uid_injective {t t' : Transfer} (h : t.uid = t'.uid) : t.time = t'.time := by
  have hnew : uidNew.getRaw uidTimestamp = some Record.empty := rfl
  have hset (timestamp : UInt64) :
      (uidNew.setUlong uidTimestamp timestamp).getRaw uidTimestamp = some (.of (printUnsigned timestamp.toNat)) :=
    Record.getRaw_takeColumn (by decide) _
  have hget : t.uid.getRaw uidTimestamp = t'.uid.getRaw uidTimestamp := by rw [h]
  rw [Transfer.uid, Transfer.uid] at hget
  cases htime : t.time with
  | none           =>
    cases htime' : t'.time with
    | none           => rfl
    | some timestamp =>
      rw [htime, htime', hnew, hset] at hget
      exact absurd (Option.some.inj hget).symm (printed_ne_empty _)
  | some timestamp =>
    cases htime' : t'.time with
    | none            =>
      rw [htime, htime', hnew, hset] at hget
      exact absurd (Option.some.inj hget) (printed_ne_empty _)
    | some timestamp' =>
      rw [htime, htime', hset, hset] at hget
      rw [printed_injective (Option.some.inj hget)]

theorem transferred_certification (h : isCertification sigType = true) (t : Transfer) (keyid : CString) :
    transferred [keyWith schemaPub keyid, uidNew] sigType keyid t =
      (do let key ← t.toKey (keyWith schemaPub keyid); pure [key, t.uid]) := by
  have hfind : keyOrSubFindForSelfSignature [keyWith schemaPub keyid, uidNew] sigType (some keyid) = .ok (some 0) := by
    have hraw : (keyWith schemaPub keyid).getRaw keyKeyid = some keyid := rfl
    have hpub : (keyWith schemaPub keyid).getSchema = some schemaPub := rfl
    have hother : ¬(uidNew.getSchema = some schemaPub ∨ uidNew.getSchema = some schemaSec) := by decide
    simp [keyOrSubFindForSelfSignature, h, findPrimaryKey, hother, hpub, hraw]
  obtain ⟨key, hkey, hschema, _⟩ := toKey_keyWith schemaPub (by decide) (by decide) t keyid
  have huid : uidOrUatFindForSelfSignature [key, uidNew] sigType = some 1 := by
    have hschema : uidNew.getSchema = some schemaUid := rfl
    simp [uidOrUatFindForSelfSignature, h, hschema]
  have hmodify : modifyRecord [keyWith schemaPub keyid, uidNew] 0 t.toKey = .ok [key, uidNew] := by
    rw [modifyRecord]
    change (t.toKey (keyWith schemaPub keyid) >>= fun key => _) = _
    rw [hkey]
    rfl
  have hpub : ([key, uidNew][0]?).any (·.getSchema = some schemaPub) = true := by simp [hschema]
  rw [transferred, hfind, Scan.ok_bind]
  dsimp only
  rw [hmodify, Scan.ok_bind, if_pos hpub, hkey, Scan.ok_bind, Transfer.toUid, huid, Transfer.uid]
  cases t.time with
  | none           => rfl
  | some timestamp => rfl

theorem transferred_binding (hcertification : ¬isCertification sigType = true) (h : sigType = 24 ∨ sigType = 25) (t : Transfer)
    (keyid : CString) : transferred [keyWith schemaSub keyid] sigType keyid t =
      (do let key ← t.toKey (keyWith schemaSub keyid); pure [key]) := by
  have hfind : keyOrSubFindForSelfSignature [keyWith schemaSub keyid] sigType (some keyid) = .ok (some 0) := by
    have hsub : (keyWith schemaSub keyid).getSchema = some schemaSub := rfl
    simp [keyOrSubFindForSelfSignature, hcertification, h, hsub]
  obtain ⟨key, hkey, hschema, _⟩ := toKey_keyWith schemaSub (by decide) (by decide) t keyid
  have hmodify : modifyRecord [keyWith schemaSub keyid] 0 t.toKey = .ok [key] := by
    rw [modifyRecord]
    change (t.toKey (keyWith schemaSub keyid) >>= fun key => _) = _
    rw [hkey]
    rfl
  have hsub : ¬([key][0]?).any (·.getSchema = some schemaPub) = true := by
    have hne : schemaSub ≠ schemaPub := by decide
    simp [hschema, hne]
  rw [transferred, hfind, Scan.ok_bind]
  dsimp only
  rw [hmodify, Scan.ok_bind, if_neg hsub, hkey]
  rfl

-- There are records that show a difference.
theorem transferOf_eq {ps' : List Subpacket} (keyid : CString) (h : ∀ records, AllShaped records →
      transferred records sigType keyid (transferOf sigType ps) = transferred records sigType keyid (transferOf sigType ps')) :
    transferOf sigType ps = transferOf sigType ps' := by
  have hlegal := legal_transferOf sigType ps
  have hlegal' := legal_transferOf sigType ps'
  by_cases hcertification : isCertification sigType = true
  case pos =>
    have heq := h [keyWith schemaPub keyid, uidNew]
      (List.forall_mem_cons.mpr ⟨shaped_keyWith _ _, List.forall_mem_singleton.mpr shaped_uidNew⟩)
    obtain ⟨key, hkey, _⟩ := toKey_keyWith schemaPub (by decide) (by decide) (transferOf sigType ps) keyid
    obtain ⟨key', hkey', _⟩ := toKey_keyWith schemaPub (by decide) (by decide) (transferOf sigType ps') keyid
    rw [transferred_certification hcertification, transferred_certification hcertification, hkey, hkey'] at heq
    obtain ⟨rfl, huids⟩ := List.cons.inj (Except.ok.inj heq)
    obtain ⟨hexpiry, hcaps⟩ := toKey_injective (by decide) (by decide) hlegal hlegal' (hkey.trans hkey'.symm)
    have htime := Transfer.uid_injective (List.cons.inj huids).1
    exact Transfer.ext hexpiry hcaps htime
  case neg =>
    have htime (ps : List Subpacket) : (transferOf sigType ps).time = none := by
      rw [transferOf, if_neg hcertification]
      split
      case isTrue  => rfl
      case isFalse => rfl
    by_cases hbinding : sigType = 24 ∨ sigType = 25
    case pos =>
      have heq := h [keyWith schemaSub keyid] (List.forall_mem_singleton.mpr (shaped_keyWith _ _))
      obtain ⟨key, hkey, _⟩ := toKey_keyWith schemaSub (by decide) (by decide) (transferOf sigType ps) keyid
      obtain ⟨key', hkey', _⟩ := toKey_keyWith schemaSub (by decide) (by decide) (transferOf sigType ps') keyid
      rw [transferred_binding hcertification hbinding, transferred_binding hcertification hbinding, hkey, hkey'] at heq
      obtain ⟨rfl, _⟩ := List.cons.inj (Except.ok.inj heq)
      obtain ⟨hexpiry, hcaps⟩ := toKey_injective (by decide) (by decide) hlegal hlegal' (hkey.trans hkey'.symm)
      exact Transfer.ext hexpiry hcaps ((htime ps).trans (htime ps').symm)
    case neg =>
      rw [transferOf_of_other hcertification fun h => hbinding h.1, transferOf_of_other hcertification fun h => hbinding h.1]

variable {sig : SignatureBody} {flags : Flags}

theorem before_fields (sig : SignatureBody) (records : List Record) :
    Before sig.encode sig.encode.length records sig.fields ⟨1, records⟩ :=
  ⟨by simp [SignatureBody.encode], by rw [List.take_length]; rfl, rfl⟩

theorem parse_gives (sig : SignatureBody) (flags : Flags) (hrecords : AllShaped records) :
    ∃ r, parseV4Signature flags sig.encode sig.encode.length ⟨1, records⟩ = .ok r := by
  have hle : 1 ≤ sig.encode.length := by simp [SignatureBody.encode]
  have hwithin : Within sig.encode.length ⟨1, records⟩ := ⟨Nat.zero_le _, hle, hle, hrecords⟩
  have hstays : Stays sig.encode.length (parseV4Signature flags sig.encode sig.encode.length) :=
    parseV4Signature_meets (Nat.le_refl _)
  obtain ⟨r, hr, _⟩ := hstays.gives hwithin
  exact ⟨r, hr⟩

-- What is read is what is done.
theorem parse_fields {v4 : V4Signature} (hfields : Format.v4Signature.run sig.fields = some (v4, [])) (flags : Flags)
    (hrecords : AllShaped records) : ∃ after, v4.apply flags records = .ok after ∧
      parseV4Signature flags sig.encode sig.encode.length ⟨1, records⟩ = .ok (some (), ⟨sig.encode.length, after⟩) := by
  obtain ⟨⟨_ | ⟨⟨⟩⟩, s⟩, hr⟩ := parse_gives sig flags hrecords
  · obtain ⟨hnone, _⟩ := follows_v4Signature (Nat.le_refl _) sig.fields _ _ (before_fields sig records) hr
    cases hfields.symm.trans hnone
  · obtain ⟨v4', rest, hrun, hleft, happly⟩ := follows_v4Signature (Nat.le_refl _) sig.fields _ _ (before_fields sig records) hr
    cases hfields.symm.trans hrun
    have hcursor : s.cursor = sig.encode.length := (hleft.nil_iff (Nat.le_refl _)).mp rfl
    refine ⟨s.records, happly, ?_⟩
    rw [hr, ← hcursor]

theorem fields_of_parse {s : State} (h : parseV4Signature flags sig.encode sig.encode.length ⟨1, records⟩ = .ok (some (), s)) :
    Format.v4Signature.run sig.fields ≠ none := by
  obtain ⟨v4, rest, hrun, _⟩ := follows_v4Signature (Nat.le_refl _) sig.fields _ _ (before_fields sig records) h
  exact hrun.symm ▸ Option.some_ne_none _

-- The rest of the columns.
theorem carries_sigRecord (hfilled : FilledBy sig.all record) (hnoted : NotedBy sig.all subpkt) : ∃ record',
    putAll record [(sigAlgo, (·.setUint · sig.numbers.algo.toUInt32)),
      (sigClass, (·.takeRaw · (.of (Hex.hexByte false sig.sigType ++ ascii [if subpkt.exportable then 'x' else 'l']))))] =
        .ok record' ∧ sig.Carries record' := by
  have halgo : sigAlgo < record.columns.length := hfilled.isRecord.length.symm ▸ (by decide)
  have hclass : sigClass < (record.setUint sigAlgo sig.numbers.algo.toUInt32).columns.length := by
    rw [Record.setUint, Record.takeColumn, List.length_set, hfilled.isRecord.length]
    decide
  have hother {column : Nat} {block : CString} (hget : record.getRaw column = some block) (hne : column ≠ sigAlgo)
      (hne' : column ≠ sigClass) (class' : CString) :
      ((record.setUint sigAlgo sig.numbers.algo.toUInt32).takeRaw sigClass class').getRaw column = some block := by
    rw [Record.takeRaw, Record.getRaw_takeColumn_ne hne', Record.setUint, Record.getRaw_takeColumn_ne hne, hget]
  refine ⟨(record.setUint sigAlgo sig.numbers.algo.toUInt32).takeRaw sigClass (.of (Hex.hexByte false sig.sigType ++
    ascii [if subpkt.exportable then 'x' else 'l'])), ?_, ?_⟩
  · rw [putAll, List.foldlM_cons, put, if_pos halgo, Scan.ok_bind, List.foldlM_cons, put, if_pos hclass]
    rfl
  · constructor
    case keyid     => exact hother hfilled.keyid (by decide) (by decide) _
    case timestamp => exact hother hfilled.timestamp (by decide) (by decide) _
    case expiry    => exact hother hfilled.expiry (by decide) (by decide) _
    case userid    => exact hother hfilled.userid (by decide) (by decide) _
    case algo      =>
      rw [Record.takeRaw, Record.getRaw_takeColumn_ne (by decide)]
      exact Record.getRaw_takeColumn halgo _
    case sigClass  =>
      rw [← hnoted.exportable]
      exact Record.getRaw_takeColumn hclass _

theorem sigRecords_eq (v4 : V4Signature) (h : putAll v4.record
    [(sigAlgo, (·.setUint · v4.keyAlgo.toUInt32)),
      (sigClass, (·.takeRaw · (.of (Hex.hexByte false v4.sigType ++ ascii [if v4.subpkt.exportable then 'x' else 'l']))))] =
        .ok record) (flags : Flags) : v4.sigRecords flags = .ok (if flags.signatures then [record] else []) := by
  rw [V4Signature.sigRecords, h]
  split
  case isTrue  => rfl
  case isFalse => rfl

-- A signature that can be read is read with what its subpackets say, wherever they are.
theorem parse_whole (hwhole : ∀ p ∈ sig.all, p.Whole) (hmpis : ∀ mpi ∈ sig.numbers.list, mpi.bits ≠ 0) (flags : Flags)
    (hrecords : AllShaped records) : ∃ after record,
      transferred records sig.sigType sig.keyid (transferOf sig.sigType sig.all) = .ok after ∧ sig.Carries record ∧
        parseV4Signature flags sig.encode sig.encode.length ⟨1, records⟩ = .ok (some (), ⟨sig.encode.length,
          after ++ ((lastBody 12 sig.all).map revocationRecord).toList ++ if flags.signatures then [record] else []⟩) := by
  obtain ⟨record, subpkt, hrun, hfilled, hnoted⟩ := run_fields sig hwhole hmpis
  obtain ⟨record', hput, hcarries⟩ := carries_sigRecord hfilled hnoted
  obtain ⟨after', happly, hparse⟩ := parse_fields hrun flags hrecords
  obtain ⟨filled, hfill, happly⟩ := Scan.bind_eq_ok.mp happly
  obtain ⟨added, hadded, happly⟩ := Scan.bind_eq_ok.mp happly
  rw [hnoted.revocation, fillIn_transferred hfilled hnoted] at hfill
  obtain ⟨after, htransferred, hfill⟩ := Scan.bind_eq_ok.mp hfill
  cases hfill
  cases hadded.symm.trans (sigRecords_eq ⟨sig.sigType, sig.numbers.algo, record, subpkt⟩ hput flags)
  cases happly
  exact ⟨after, record', htransferred, hcarries, hparse⟩

namespace SignatureBody.Read

-- The fields are read when there are no records as well.
theorem readable (h : sig.Read) : (∀ p ∈ sig.all, p.Whole) ∧ ∀ mpi ∈ sig.numbers.list, mpi.bits ≠ 0 := by
  by_contra hnot
  obtain ⟨_, _, _, _, hparse⟩ := h ⟨false, false, false, false⟩ [] allShaped_nil
  exact fields_of_parse hparse (run_fields_none sig hnot)

theorem transferOf_eq (h : sig.Read) : transferOf sig.sigType sig.all = transferOf sig.sigType sig.hashed := by
  apply Openpgp.transferOf_eq sig.keyid
  intro records hrecords
  obtain ⟨hwhole, hmpis⟩ := h.readable
  obtain ⟨after, _, htransferred, _, hparse⟩ := h ⟨false, false, false, false⟩ records hrecords
  obtain ⟨after', _, htransferred', _, hparse'⟩ := parse_whole hwhole hmpis ⟨false, false, false, false⟩ hrecords
  have hsame := congrArg State.records (Prod.mk.inj (Except.ok.inj (hparse.symm.trans hparse'))).2
  change after ++ _ ++ [] = after' ++ _ ++ [] at hsame
  rw [List.append_left_inj, List.append_left_inj] at hsame
  rw [htransferred, htransferred', hsame]

end SignatureBody.Read

-- A signature of these fields is read as it should be just when no user id of a signer has bytes, all flags have one, no
-- number is zero, and the subpackets that are not hashed change nothing of what is transferred.
theorem parseV4Signature_read_iff (sig : SignatureBody) :
    sig.Read ↔ (∀ p ∈ sig.all, p.Whole) ∧ (∀ mpi ∈ sig.numbers.list, mpi.bits ≠ 0) ∧
      transferOf sig.sigType sig.all = transferOf sig.sigType sig.hashed := by
  constructor
  case mp => exact fun h => ⟨h.readable.1, h.readable.2, h.transferOf_eq⟩
  case mpr =>
    rintro ⟨hwhole, hmpis, hsame⟩ flags records hrecords
    rw [← hsame]
    exact parse_whole hwhole hmpis flags hrecords

def signatureWith (hashed unhashed : List Subpacket) (hashed_lt : (encodeAll hashed).length < 2 ^ 16)
    (unhashed_lt : (encodeAll unhashed).length < 2 ^ 16) : SignatureBody where
  sigType     := 19
  hashAlgo    := 8
  hashed      := hashed
  unhashed    := unhashed
  leftBits    := (0, 0)
  numbers     := .rsa ⟨1, [1], by decide, by decide⟩
  hashed_lt   := hashed_lt
  unhashed_lt := unhashed_lt

-- The user id "a" of the signer.
def signerSubpacket : Subpacket :=
  ⟨28, false, [97], .signerUserid, .one, (by decide : 2 < 192)⟩

-- The key expires after one second.
def expirySubpacket : Subpacket :=
  ⟨9, false, [0, 0, 0, 1], .keyExpiry rfl, .one, (by decide : 5 < 192)⟩

-- A certification that names its signer, and one whose expiry is not hashed.
theorem not_read_signature : ¬(signatureWith [signerSubpacket] [] (by decide) (by decide)).Read ∧
    ¬(signatureWith [] [expirySubpacket] (by decide) (by decide)).Read := by
  constructor
  case left =>
    intro h
    cases (h.readable.1 signerSubpacket (List.mem_singleton_self _)).signerUserid rfl
  case right =>
    intro h
    cases congrArg Transfer.expiry h.transferOf_eq

end Openpgp
