import GcrModel.Gcr.Openpgp.Theorems.Blocks
import GcrModel.Gcr.Openpgp.Theorems.Coupled

namespace Openpgp

open GLib Format
open Scan (Coupled)

variable {hashes : Hashes} {flags : Flags} {current : UInt64} {data tail : Bytes} {rs rs' ts ts' : List Record}
  {p : Piece} {ps : List Piece} {g : Piece × List Piece} {gs : List (Piece × List Piece)} {blocks : List Block}
  {b : Block} {rel : List Record → List Record → Prop} {allowed : CString → Prop} {r : Record} {schema : CString}
  {sigType : UInt8} {subpkt : SigSubpacket} {f : Record → Result Record} {i : Nat}

-- None of the records is one of a public key.
def NoPub (rs : List Record) : Prop :=
  ∀ r ∈ rs, r.getSchema ≠ some schemaPub

-- The first record is one of a public key whose trust is not known yet.
def Opens (rs : List Record) : Prop :=
  ∃ r, rs[0]? = some r ∧ r.getSchema = some schemaPub ∧ r.getRaw trust = some Record.empty

theorem fillIn_schema (h : fillIn rs sigType r subpkt = .ok ts) : ts.map (·.getSchema) = rs.map (·.getSchema) :=
  fillIn_getRaw h (by decide) (by decide) (by decide)

theorem fillIn_trust (h : fillIn rs sigType r subpkt = .ok ts) :
    ts.map (·.getRaw trust) = rs.map (·.getRaw trust) :=
  fillIn_getRaw h (by decide) (by decide) (by decide)

theorem NoPub.of_schema (h : ts.map (·.getSchema) = rs.map (·.getSchema)) (hrs : NoPub rs) : NoPub ts := by
  intro r hr hschema
  have hmem : some schemaPub ∈ rs.map (·.getSchema) := by
    rw [← h, ← hschema]
    exact List.mem_map_of_mem hr
  obtain ⟨r', hr', hpub⟩ := List.mem_map.mp hmem
  exact hrs r' hr' hpub

theorem Opens.of_columns (hschema : ts.map (·.getSchema) = rs.map (·.getSchema))
    (htrust : ts.map (·.getRaw trust) = rs.map (·.getRaw trust)) (h : Opens rs) : Opens ts := by
  obtain ⟨r, hr, hpub, hempty⟩ := h
  have hschema := congrArg (·[0]?) hschema
  have htrust := congrArg (·[0]?) htrust
  simp only [List.getElem?_map, hr, Option.map_some, Option.map_eq_some_iff] at hschema htrust
  obtain ⟨t, ht, hschema⟩ := hschema
  obtain ⟨t', ht', htrust⟩ := htrust
  cases ht.symm.trans ht'
  exact ⟨t, ht, hschema.trans hpub, htrust.trans hempty⟩

theorem Opens.append (h : Opens rs) (ts : List Record) : Opens (rs ++ ts) := by
  obtain ⟨r, hr, h⟩ := h
  exact ⟨r, by rw [List.getElem?_append_left (List.getElem?_eq_some_iff.mp hr).1, hr], h⟩

theorem grows_length (k : Nat) : Grows (fun _ => True) fun rs rs' => rs'.length = rs.length + k where
  add := by
    intro rs rs' r schema hrel _ _
    rw [List.length_append, List.length_append, hrel, Nat.add_right_comm]
  fill := by
    intro rs rs' ts ts' sigType r subpkt hrel h h'
    have hlen := congrArg List.length (fillIn_schema h)
    have hlen' := congrArg List.length (fillIn_schema h')
    simp only [List.length_map] at hlen hlen'
    rw [hlen, hlen', hrel]

theorem grows_noPub : Grows (· ≠ schemaPub) fun rs rs' => rs = rs' ∧ NoPub rs where
  add := by
    rintro rs _ r schema ⟨rfl, hrs⟩ hr hne
    refine ⟨rfl, ?_⟩
    intro r' hr'
    rcases List.mem_append.mp hr' with hr' | hr'
    · exact hrs r' hr'
    · rw [List.mem_singleton.mp hr', hr]
      exact fun h => hne (Option.some.inj h)
  fill := by
    rintro rs _ ts ts' sigType r subpkt ⟨rfl, hrs⟩ h h'
    cases h.symm.trans h'
    exact ⟨rfl, hrs.of_schema (fillIn_schema h)⟩

theorem grows_opens : Grows (fun _ => True) fun rs rs' => rs = rs' ∧ Opens rs where
  add := by
    rintro rs _ r schema ⟨rfl, hrs⟩ _ _
    exact ⟨rfl, hrs.append _⟩
  fill := by
    rintro rs _ ts ts' sigType r subpkt ⟨rfl, hrs⟩ h h'
    cases h.symm.trans h'
    exact ⟨rfl, hrs.of_columns (fillIn_schema h) (fillIn_trust h)⟩

theorem addPiece_noRecords (h : flags.noRecords) (rs : List Record) (p : Piece) :
    addPiece hashes flags rs p = .ok rs := by
  rw [addPiece, parsePacket, if_pos h]
  rfl

theorem addPiece_ok (h : ¬flags.noRecords) (hadd : addPiece hashes flags rs p = .ok ts) : ∃ o s,
    parseOpenpgpPacket hashes flags p.body p.body.length p.pktType ⟨0, rs⟩ = .ok (o, s) ∧ s.records = ts := by
  obtain ⟨closure, hclosure, hadd⟩ := Scan.bind_eq_ok.mp hadd
  cases hadd
  rw [parsePacket, if_neg h] at hclosure
  obtain ⟨⟨o, s⟩, hparse, h⟩ := Scan.bind_eq_ok.mp hclosure
  cases h
  exact ⟨o, s, hparse, rfl⟩

-- What two runs have in common after a packet.
theorem addPiece_grows (g : Grows allowed rel) (hpub : p.pktType = 6 → allowed schemaPub)
    (hallowed : ∀ schema, schema ≠ schemaPub → allowed schema) (hrel : rel rs rs')
    (h : addPiece hashes flags rs p = .ok ts) (h' : addPiece hashes flags rs' p = .ok ts') : rel ts ts' := by
  by_cases hrecords : flags.noRecords
  case pos =>
    cases (addPiece_noRecords hrecords rs p).symm.trans h
    cases (addPiece_noRecords hrecords rs' p).symm.trans h'
    exact hrel
  case neg =>
    obtain ⟨o, s, hparse, rfl⟩ := addPiece_ok hrecords h
    obtain ⟨o', s', hparse', rfl⟩ := addPiece_ok hrecords h'
    have hpaired : Paired rel ⟨0, rs⟩ ⟨0, rs'⟩ := ⟨rfl, hrel⟩
    obtain ⟨-, hsome, hnone⟩ := parseOpenpgpPacket_couples g hpub hallowed _ _ o o' s s' hpaired hparse hparse'
    cases o
    case none   => exact (hnone rfl).2
    case some a => exact (hsome a rfl).2

theorem gather_grows (g : Grows allowed rel) (hpub : ∀ p ∈ ps, p.pktType = 6 → allowed schemaPub)
    (hallowed : ∀ schema, schema ≠ schemaPub → allowed schema) (hrel : rel rs rs')
    (h : gather hashes flags rs ps = .ok ts) (h' : gather hashes flags rs' ps = .ok ts') : rel ts ts' := by
  induction ps generalizing rs rs' with
  | nil =>
    cases h
    cases h'
    exact hrel
  | cons p ps ih =>
    obtain ⟨hp, hps⟩ := List.forall_mem_cons.mp hpub
    rw [gather_cons] at h h'
    obtain ⟨us, hus, h⟩ := Scan.bind_eq_ok.mp h
    obtain ⟨us', hus', h'⟩ := Scan.bind_eq_ok.mp h'
    exact ih hps (addPiece_grows g hp hallowed hrel hus hus') h h'

theorem gather_noPub (hps : ∀ p ∈ ps, p.pktType ≠ 6) (hrs : NoPub rs) (h : gather hashes flags rs ps = .ok ts) :
    NoPub ts :=
  (gather_grows grows_noPub (fun p hp h6 => absurd h6 (hps p hp)) (fun _ => id) ⟨rfl, hrs⟩ h h).2

theorem noPub_nil : NoPub [] :=
  fun _ h => absurd h List.not_mem_nil

theorem gather_opens (hrs : Opens rs) (h : gather hashes flags rs ps = .ok ts) : Opens ts :=
  (gather_grows grows_opens (fun _ _ _ => trivial) (fun _ _ => trivial) ⟨rfl, hrs⟩ h h).2

theorem gather_length (h : gather hashes flags [] ps = .ok ts) (h' : gather hashes flags rs ps = .ok ts') :
    ts'.length = ts.length + rs.length :=
  gather_grows (grows_length rs.length) (fun _ _ _ => trivial) (fun _ _ => trivial) (Nat.zero_add _).symm h h'

-- A public key gives its record first, or none at all.
theorem addPiece_opens (h6 : p.pktType = 6) (h : addPiece hashes flags [] p = .ok ts) : ts = [] ∨ Opens ts := by
  by_cases hrecords : flags.noRecords
  case pos =>
    cases (addPiece_noRecords hrecords [] p).symm.trans h
    exact .inl rfl
  case neg =>
    obtain ⟨o, s, hparse, rfl⟩ := addPiece_ok hrecords h
    rw [parseOpenpgpPacket, if_pos h6] at hparse
    have hkey : Coupled (Paired fun rs _ => rs = [])
        (parsePublicKeyOrSubkey hashes p.body p.body.length schemaPub pubMax (by decide))
        (fun _ => Paired fun rs _ => Opens rs) (Paired fun rs _ => rs = []) := by
      apply parsePublicKeyOrSubkey_coupled
      · rintro rs _ r bits algo keyid timestamp ndays rfl hr
        exact ⟨r, rfl, keyRecord_schema (by decide) hr, keyRecord_getRaw (by decide) hr⟩
      · exact fun hrs _ => hrs.append _
    obtain ⟨-, hsome, hnone⟩ := hkey _ _ o o s s ⟨rfl, rfl⟩ hparse hparse
    cases o
    case none   => exact .inl (hnone rfl).2
    case some a => exact .inr (hsome a rfl).2

theorem normalizeCapabilities_getRaw {c : Nat} (hne : c ≠ pubCaps) (h : normalizeCapabilities rs = .ok ts) :
    ts.map (·.getRaw c) = rs.map (·.getRaw c) := by
  obtain ⟨string, _, h⟩ := Scan.bind_eq_ok.mp h
  exact modifyRecord_getRaw h fun _ _ hput => put_getRaw (isSetter_takeRaw _) hne hput

-- The trust of the records is set last, and only the first one has been changed before.
theorem normalizeKeyRecords_pub (hr : rs[0]? = some r) (hpub : r.getSchema = some schemaPub)
    (h : normalizeKeyRecords current rs = .ok ts) :
    ∃ (us : List Record) (letter : UInt8) (force : Bool), (letter = 101 ∨ letter = 111) ∧
      (∀ c, c ≠ pubCaps → c ≠ keyOwnertrust → us.map (·.getRaw c) = rs.map (·.getRaw c)) ∧
        us.mapM (setDefaultTrust letter force) = .ok ts := by
  rw [normalizeKeyRecords, hr] at h
  dsimp only at h
  rw [if_pos hpub] at h
  have hrest {before : List Record} {force : Bool}
      (hbefore : ∀ c, c ≠ pubCaps → before.map (·.getRaw c) = rs.map (·.getRaw c))
      (h : (do
        let records ← modifyRecord before 0 fun record => put record keyOwnertrust (·.setChar · 111)
        records.mapM (setDefaultTrust (if force then 101 else 111) force)) = .ok ts) :
      ∃ (us : List Record) (letter : UInt8) (force : Bool), (letter = 101 ∨ letter = 111) ∧
        (∀ c, c ≠ pubCaps → c ≠ keyOwnertrust → us.map (·.getRaw c) = rs.map (·.getRaw c)) ∧
          us.mapM (setDefaultTrust letter force) = .ok ts := by
    obtain ⟨us, hus, h⟩ := Scan.bind_eq_ok.mp h
    refine ⟨us, if force then 101 else 111, force, ?_, ?_, h⟩
    · cases force
      case false => exact .inr rfl
      case true  => exact .inl rfl
    · intro c hcaps hownertrust
      rw [← hbefore c hcaps]
      exact modifyRecord_getRaw hus fun _ _ hput => put_getRaw (isSetter_setChar _) hownertrust hput
  by_cases hforce : checkKeyExpiry current r
  case pos =>
    rw [if_pos hforce] at h
    exact hrest (fun _ _ => rfl) h
  case neg =>
    rw [if_neg hforce] at h
    obtain ⟨before, hbefore, h⟩ := Scan.bind_eq_ok.mp h
    exact hrest (fun c hne => normalizeCapabilities_getRaw hne hbefore) h

theorem normalizeKeyRecords_rest (hpub : ∀ r, rs[0]? = some r → r.getSchema ≠ some schemaPub) :
    normalizeKeyRecords current rs = .ok rs := by
  rw [normalizeKeyRecords]
  split
  case h_1      => rfl
  case h_2 r hr => exact if_neg (hpub r hr)

theorem normalizeKeyRecords_noPub (h : NoPub rs) : normalizeKeyRecords current rs = .ok rs :=
  normalizeKeyRecords_rest fun r hr => h r (List.mem_of_getElem? hr)

theorem mapM_cons_ok (h : (r :: rs).mapM f = .ok ts) : ∃ t us, f r = .ok t ∧ rs.mapM f = .ok us ∧ ts = t :: us := by
  rw [List.mapM_cons] at h
  obtain ⟨t, ht, h⟩ := Scan.bind_eq_ok.mp h
  obtain ⟨us, hus, h⟩ := Scan.bind_eq_ok.mp h
  cases h
  exact ⟨t, us, ht, hus, rfl⟩

theorem mapM_length (h : rs.mapM f = .ok ts) : ts.length = rs.length := by
  induction rs generalizing ts with
  | nil =>
    cases h
    rfl
  | cons r rs ih =>
    obtain ⟨t, us, _, hus, rfl⟩ := mapM_cons_ok h
    rw [List.length_cons, List.length_cons, ih hus]

theorem normalizeKeyRecords_length (h : normalizeKeyRecords current rs = .ok ts) : ts.length = rs.length := by
  by_cases hpub : ∃ r, rs[0]? = some r ∧ r.getSchema = some schemaPub
  case pos =>
    obtain ⟨r, hr, hpub⟩ := hpub
    obtain ⟨us, letter, force, _, hus, h⟩ := normalizeKeyRecords_pub hr hpub h
    have hlen := congrArg List.length (hus 0 (by decide) (by decide))
    rw [List.length_map, List.length_map] at hlen
    rw [mapM_length h, hlen]
  case neg =>
    have hrest : normalizeKeyRecords current rs = .ok rs :=
      normalizeKeyRecords_rest fun r hr h => hpub ⟨r, hr, h⟩
    cases hrest.symm.trans h
    rfl

theorem setDefaultTrust_pub {letter : UInt8} {force : Bool} {t : Record} (hpub : r.getSchema = some schemaPub)
    (hempty : r.getRaw trust = some Record.empty) (h : setDefaultTrust letter force r = .ok t) :
    t.getRaw trust = some (.of [letter]) := by
  have hprev : ¬(¬force ∧ (r.getRaw trust).any (·.bytes ≠ [])) := by
    rintro ⟨_, hany⟩
    rw [hempty] at hany
    exact absurd hany (by decide)
  have hschema : ¬(r.getSchema = some schemaSig ∨ r.getSchema = some schemaFpr) := by
    rw [hpub]
    decide
  rw [setDefaultTrust, if_neg hprev, if_neg hschema, put] at h
  split at h
  case isTrue hlt =>
    cases h
    exact Record.getRaw_takeColumn hlt _
  case isFalse => cases h

-- The trust of a public key is set.
theorem normalizeKeyRecords_opens (hopens : Opens rs) : normalizeKeyRecords current rs ≠ .ok rs := by
  intro h
  have hcopy := hopens
  obtain ⟨r, hr, hpub, hempty⟩ := hopens
  obtain ⟨us, letter, force, hletter, hus, h⟩ := normalizeKeyRecords_pub hr hpub h
  obtain ⟨u, hu, hupub, hutrust⟩ := hcopy.of_columns (hus 0 (by decide) (by decide)) (hus trust (by decide) (by decide))
  cases us with
  | nil => cases hu
  | cons u' us =>
    cases hu
    obtain ⟨t, ts, ht, _, rfl⟩ := mapM_cons_ok h
    cases hr
    have hset := setDefaultTrust_pub hupub hutrust ht
    rw [hempty] at hset
    obtain rfl | rfl := hletter
    · exact absurd hset (by decide)
    · exact absurd hset (by decide)

theorem emitted_cons (h : emitted hashes flags current tail rs (g :: gs) = .ok blocks) : ∃ us vs next,
    gather hashes flags rs (pieces g) = .ok us ∧ lastRecords current (if gs.isEmpty then tail else []) us = .ok vs ∧
      emitted hashes flags current tail [] gs = .ok next ∧ blocks = ⟨vs, raw g⟩ :: next := by
  obtain ⟨us, hus, h⟩ := Scan.bind_eq_ok.mp h
  obtain ⟨vs, hvs, h⟩ := Scan.bind_eq_ok.mp h
  obtain ⟨next, hnext, h⟩ := Scan.bind_eq_ok.mp h
  cases h
  exact ⟨us, vs, next, hus, hvs, hnext, rfl⟩

theorem emitted_outer (h : emitted hashes flags current tail rs gs = .ok blocks) :
    blocks.map Block.outer = gs.map raw := by
  induction gs generalizing rs blocks with
  | nil =>
    cases h
    rfl
  | cons g gs ih =>
    obtain ⟨us, vs, next, _, _, hnext, rfl⟩ := emitted_cons h
    rw [List.map_cons, List.map_cons, ih hnext]

-- Each block has the records of a key and of what follows it, which are normalised unless something follows that cannot
-- be read.
theorem emitted_mem (h : emitted hashes flags current tail [] gs = .ok blocks) (hb : b ∈ blocks) :
    ∃ g ∈ gs, ∃ rs, gather hashes flags [] (pieces g) = .ok rs ∧ b.outer = raw g ∧
      (normalizeKeyRecords current rs = .ok b.records ∨ (tail ≠ [] ∧ gs.getLast? = some g ∧ b.records = rs)) := by
  induction gs generalizing blocks with
  | nil =>
    cases h
    cases hb
  | cons g gs ih =>
    obtain ⟨us, vs, next, hus, hvs, hnext, rfl⟩ := emitted_cons h
    rcases List.mem_cons.mp hb with rfl | hb
    · refine ⟨g, List.mem_cons_self, us, hus, rfl, ?_⟩
      cases gs with
      | cons _ _ => exact .inl hvs
      | nil =>
        by_cases htail : tail = []
        case pos =>
          subst htail
          exact .inl hvs
        case neg =>
          cases (if_neg htail).symm.trans hvs
          exact .inr ⟨htail, rfl, rfl⟩
    · obtain ⟨g', hg', rs, hrs, houter, hrecords⟩ := ih hnext hb
      refine ⟨g', List.mem_cons_of_mem g hg', rs, hrs, houter, hrecords.imp id ?_⟩
      rintro ⟨htail, hlast, heq⟩
      refine ⟨htail, ?_, heq⟩
      rw [List.getLast?_cons, hlast]
      rfl

-- The last one is not normalised then.
theorem emitted_last (h : emitted hashes flags current tail [] gs = .ok blocks) (htail : tail ≠ [])
    (hlast : gs.getLast? = some g) : ∃ rs, gather hashes flags [] (pieces g) = .ok rs ∧ ⟨rs, raw g⟩ ∈ blocks := by
  induction gs generalizing blocks with
  | nil => cases hlast
  | cons g' gs ih =>
    obtain ⟨us, vs, next, hus, hvs, hnext, rfl⟩ := emitted_cons h
    cases gs with
    | nil =>
      cases hlast
      rw [lastRecords, List.isEmpty_nil, if_pos rfl, if_neg htail] at hvs
      cases hvs
      exact ⟨us, hus, List.mem_cons_self⟩
    | cons g'' gs =>
      rw [List.getLast?_cons_cons] at hlast
      obtain ⟨rs, hrs, hmem⟩ := ih hnext hlast
      exact ⟨rs, hrs, List.mem_cons_of_mem _ hmem⟩

theorem parseKeys_ok_iff (hashes : Hashes) (flags : Flags) (current : UInt64) (data : Bytes) :
    (∃ blocks, parseKeys hashes flags current data = .ok blocks) ↔
      flags.noRecords ∨ ∀ pkt ∈ packets data, PacketFits flags pkt := by
  have hfits (pkt : UInt8 × Bytes) : PacketFits flags.withKeys pkt ↔ PacketFits flags pkt :=
    ⟨fun h => ⟨h.userId, h.userAttribute⟩, fun h => ⟨h.userId, h.userAttribute⟩⟩
  simp only [← hfits]
  exact openpgpParse_ok_iff hashes _ flags.withKeys data

theorem gather_pieces (g : Piece × List Piece) : gather hashes flags [] (pieces g) =
    (do let rs ← gather hashes flags [] [g.1]; gather hashes flags rs g.2) := by
  rw [pieces, gather_cons, gather_cons, bind_assoc]
  rfl

theorem pktType_ne (h : ¬p.isKey) : p.pktType ≠ 6 := by
  intro h6
  simp [Piece.isKey, h6] at h

-- A key that gives no record of a public key.
theorem gather_rest_noPub (hg : Keyed g) (htail : g.1.pktType = 6 → gather hashes flags [] [g.1] = .ok [])
    (h : gather hashes flags [] (pieces g) = .ok rs) : NoPub rs := by
  by_cases h6 : g.1.pktType = 6
  case pos =>
    rw [gather_pieces, htail h6, Scan.ok_bind] at h
    exact gather_noPub (fun p hp => pktType_ne (hg.rest p hp)) noPub_nil h
  case neg =>
    apply gather_noPub _ noPub_nil h
    exact List.forall_mem_cons.mpr ⟨h6, fun p hp => pktType_ne (hg.rest p hp)⟩

theorem parseKeys_raw {rs : List Record} (hg : g ∈ (group (cut data).1).2)
    (hrs : gather hashes flags.withKeys [] (pieces g) = .ok rs) :
    parseKeys hashes flags current (raw g) = (do let rs ← normalizeKeyRecords current rs; pure [⟨rs, raw g⟩]) := by
  rw [parseKeys, openpgpParse_raw hashes current rfl hg, hrs, Scan.ok_bind]

theorem parseKeys_groups {lead : List Record} (hlead : gather hashes flags.withKeys [] (group (cut data).1).1 = .ok lead) :
    parseKeys hashes flags current data =
      emitted hashes flags.withKeys current (cut data).2 lead (group (cut data).1).2 := by
  have hnoPub : NoPub lead :=
    gather_noPub (fun p hp => pktType_ne ((group_keyed (cut data).1).1 p hp)) noPub_nil hlead
  rw [parseKeys, openpgpParse_groups hashes current rfl, hlead, Scan.ok_bind, normalizeKeyRecords_noPub hnoPub,
    Scan.ok_bind]

theorem Separate.independent (h : Separate hashes flags data) : Independent hashes flags current data := by
  obtain ⟨blocks, hparse⟩ := (parseKeys_ok_iff hashes flags current data).mpr h.fits
  obtain ⟨lead, hlead, _⟩ := Scan.bind_eq_ok.mp ((openpgpParse_groups hashes current rfl data).symm.trans hparse)
  have hemitted := (parseKeys_groups hlead).symm.trans hparse
  refine ⟨blocks, hparse, emitted_outer hemitted, ?_⟩
  intro b hb
  have hgroups : (group (cut data).1).2 ≠ [] := by
    intro hnil
    rw [hnil] at hemitted
    cases hemitted
    cases hb
  cases hlead.symm.trans (h.lead hgroups)
  obtain ⟨g, hg, rs, hrs, houter, hrecords⟩ := emitted_mem hemitted hb
  have hnormalize : normalizeKeyRecords current rs = .ok b.records := by
    obtain hrecords | ⟨htail, hlast, hrecords⟩ := hrecords
    · exact hrecords
    · have hkeyed := (group_keyed (cut data).1).2 g hg
      rw [hrecords]
      exact normalizeKeyRecords_noPub (gather_rest_noPub hkeyed (h.tail htail hlast) hrs)
  rw [houter, parseKeys_raw hg hrs, hnormalize, ← houter]
  rfl

-- What a key has alone is what its block has.
theorem normalize_of_alone {rs : List Record} (hg : g ∈ (group (cut data).1).2)
    (hrs : gather hashes flags.withKeys [] (pieces g) = .ok rs) {vs : List Record}
    (h : parseKeys hashes flags current (raw g) = .ok [⟨vs, raw g⟩]) : normalizeKeyRecords current rs = .ok vs := by
  rw [parseKeys_raw hg hrs] at h
  obtain ⟨ws, hws, h⟩ := Scan.bind_eq_ok.mp h
  cases h
  exact hws

theorem gather_of_alone (hg : g ∈ (group (cut data).1).2) (h : parseKeys hashes flags current (raw g) = .ok blocks) :
    ∃ rs, gather hashes flags.withKeys [] (pieces g) = .ok rs := by
  rw [parseKeys, openpgpParse_raw hashes current rfl hg] at h
  obtain ⟨rs, hrs, _⟩ := Scan.bind_eq_ok.mp h
  exact ⟨rs, hrs⟩

theorem lastRecords_length (h : lastRecords current tail rs = .ok ts) : ts.length = rs.length := by
  by_cases htail : tail = []
  case pos => exact normalizeKeyRecords_length ((if_pos htail).symm.trans h)
  case neg =>
    cases (if_neg htail).symm.trans h
    rfl

theorem Independent.separate (h : Independent hashes flags current data) : Separate hashes flags data := by
  obtain ⟨blocks, hparse, _, halone⟩ := h
  obtain ⟨lead, hlead, _⟩ := Scan.bind_eq_ok.mp ((openpgpParse_groups hashes current rfl data).symm.trans hparse)
  have hemitted := (parseKeys_groups hlead).symm.trans hparse
  have hnil : (group (cut data).1).2 ≠ [] → lead = [] := by
    intro hgroups
    obtain ⟨g, gs, hsplit⟩ := List.exists_cons_of_ne_nil hgroups
    have hg : g ∈ (group (cut data).1).2 := hsplit ▸ List.mem_cons_self
    rw [hsplit] at hemitted
    obtain ⟨us, vs, next, hus, hvs, _, rfl⟩ := emitted_cons hemitted
    have hb := halone ⟨vs, raw g⟩ List.mem_cons_self
    obtain ⟨rs, hrs⟩ := gather_of_alone hg hb
    have hlen := gather_length hrs hus
    have hlen₁ := lastRecords_length hvs
    have hlen₂ := normalizeKeyRecords_length (normalize_of_alone hg hrs hb)
    exact List.length_eq_zero_iff.mp (by omega)
  refine ⟨(parseKeys_ok_iff hashes flags current data).mp ⟨blocks, hparse⟩, ?_, ?_⟩
  · intro hgroups
    rw [hlead, hnil hgroups]
  · intro g htail hlast h6
    have hg : g ∈ (group (cut data).1).2 := List.mem_of_getLast? hlast
    cases hnil (List.ne_nil_of_mem hg)
    obtain ⟨rs, hrs, hmem⟩ := emitted_last hemitted htail hlast
    have hnormalize := normalize_of_alone hg hrs (halone _ hmem)
    have hpieces := hrs
    rw [gather_pieces] at hpieces
    obtain ⟨us, hus, hrest⟩ := Scan.bind_eq_ok.mp hpieces
    have hkey := hus
    rw [gather_cons] at hkey
    obtain ⟨us', hadd, hkey⟩ := Scan.bind_eq_ok.mp hkey
    cases hkey
    rcases addPiece_opens h6 hadd with rfl | hopens
    · exact hus
    · exact absurd hnormalize (normalizeKeyRecords_opens (gather_opens hopens hrest))

-- Each key has its records as if it were alone, unless a packet in front of the first key gives a record or the last
-- public key is followed by something that cannot be read. The records of both are in a block, or are not normalised.
theorem independent_iff (hashes : Hashes) (flags : Flags) (current : UInt64) (data : Bytes) :
    Independent hashes flags current data ↔ Separate hashes flags data :=
  ⟨Independent.separate, Separate.independent⟩

-- The user of the first packet belongs to no key, and is in the block of the secret key that follows.
theorem not_independent_userId :
    ¬Independent ⟨fun _ => zeroDigest, fun _ => zeroDigest⟩ ⟨false, false, false, false⟩ 0 [180, 1, 65, 148, 1, 0] := by
  have hwhole : (parseKeys ⟨fun _ => zeroDigest, fun _ => zeroDigest⟩ ⟨false, false, false, false⟩ 0
      [180, 1, 65, 148, 1, 0]).map (·.map fun b => (b.records.length, b.outer)) = .ok [(1, [148, 1, 0])] := by
    rfl
  have halone : (parseKeys ⟨fun _ => zeroDigest, fun _ => zeroDigest⟩ ⟨false, false, false, false⟩ 0
      [148, 1, 0]).map (·.map fun b => (b.records.length, b.outer)) = .ok [(0, [148, 1, 0])] := by
    rfl
  rintro ⟨blocks, hparse, _, h⟩
  rw [hparse] at hwhole
  have hblocks := Except.ok.inj hwhole
  obtain ⟨b, rfl⟩ := List.length_eq_one_iff.mp ((List.length_map _).symm.trans (congrArg List.length hblocks))
  obtain ⟨hlen, houter⟩ := Prod.mk.inj (List.cons.inj hblocks).1
  have hb := h b List.mem_cons_self
  rw [houter] at hb
  rw [hb] at halone
  have hlen' := (Prod.mk.inj (List.cons.inj (Except.ok.inj halone)).1).1
  exact absurd (hlen.symm.trans hlen') (by decide)

end Openpgp
