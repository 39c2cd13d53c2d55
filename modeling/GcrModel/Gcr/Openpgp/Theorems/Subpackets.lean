import GcrModel.Gcr.Openpgp.Theorems.Failures

-- The subpackets of signatures, and what a signature takes from them.
namespace Openpgp

open GLib

-- What is behind the type in the subpackets that the parser knows.
inductive WellFormed : Nat → Bytes → Prop
  | creation {body} (h : body.length = 4) : WellFormed 2 body
  | issuer {body} (h : body.length = 8) : WellFormed 16 body
  | keyExpiry {body} (h : body.length = 4) : WellFormed 9 body
  | expiry {body} (h : body.length = 4) : WellFormed 3 body
  | exportable {c : UInt8} (h : c = 0 ∨ c = 1) : WellFormed 4 [c]
  | primary {c : UInt8} (h : c = 0 ∨ c = 1) : WellFormed 25 [c]
  | keyFlags {body} : WellFormed 27 body
  | signerUserid {body} : WellFormed 28 body
  | revocation {klass algo fingerprint} (h : fingerprint.length = 20) : WellFormed 12 (klass :: algo :: fingerprint)
  | ignored {type body} (h : type ∈ Format.ignoredTypes) : WellFormed type body

-- The three ways to write a length.
inductive LengthKind
  | one
  | two
  | five

namespace LengthKind

def Fits : LengthKind → Nat → Prop
  | one,  n => n < 192
  | two,  n => 192 ≤ n ∧ n < 8384
  | five, n => n < 2 ^ 32

def encode : LengthKind → Nat → Bytes
  | one,  n => [UInt8.ofNat n]
  | two,  n => [UInt8.ofNat ((n - 192) / 256 + 192), UInt8.ofNat ((n - 192) % 256)]
  | five, n =>
    [255, UInt8.ofNat (n / 2 ^ 24), UInt8.ofNat (n / 2 ^ 16 % 256), UInt8.ofNat (n / 2 ^ 8 % 256), UInt8.ofNat (n % 256)]

end LengthKind

structure Subpacket where
  type       : Nat
  critical   : Bool
  body       : Bytes
  wellFormed : WellFormed type body
  kind       : LengthKind
  -- The length counts the type.
  fits       : kind.Fits (body.length + 1)

namespace Subpacket

def subType (p : Subpacket) : UInt8 :=
  UInt8.ofNat (if p.critical then p.type + 128 else p.type)

def encode (p : Subpacket) : Bytes :=
  p.kind.encode (p.body.length + 1) ++ p.subType :: p.body

-- The parser goes to its end: nothing is read of the user id of a signer, and of flags there has to be one byte.
structure Whole (p : Subpacket) : Prop where
  signerUserid : p.type = 28 → p.body = []
  keyFlags     : p.type = 27 → p.body ≠ []

end Subpacket

def encodeAll (ps : List Subpacket) : Bytes :=
  ps.flatMap Subpacket.encode

-- What is in the last subpacket of a type.
def lastBody (type : Nat) (ps : List Subpacket) : Option Bytes :=
  (ps.reverse.find? (·.type = type)).map (·.body)

def printedTime (body : Bytes) : CString :=
  .of (printUnsigned (UInt64.ofNat (bigEndian body)).toNat)

def userIdText (body : Bytes) : CString :=
  .of ((Record.colonsEscape (CString.of body).bytes Record.colon).getD (CString.of body).bytes)

def revocationRecord (body : Bytes) : Record :=
  Format.rvkRecord (body.headD 0) ((body.drop 1).headD 0) (body.drop 2)

-- The columns of the record that the subpackets fill.
structure FilledBy (ps : List Subpacket) (record : Record) : Prop where
  isRecord  : IsRecord schemaSig sigMax record
  delimiter : record.delimiter = Record.colon
  keyid     : record.getRaw sigKeyid = some ((lastBody 16 ps).elim Record.empty hex)
  timestamp : record.getRaw sigTimestamp = some ((lastBody 2 ps).elim Record.empty printedTime)
  expiry    : record.getRaw sigExpiry = some ((lastBody 3 ps).elim Record.empty printedTime)
  userid    : record.getRaw sigUserid = some ((lastBody 28 ps).elim Record.empty userIdText)

-- What is noted of the subpackets for the other records.
structure NotedBy (ps : List Subpacket) (subpkt : SigSubpacket) : Prop where
  keyExpiry  : subpkt.keyExpiry = (lastBody 9 ps).elim 0 bigEndian
  keyFlags   : subpkt.keyFlags = (lastBody 27 ps).elim 0 (·.headD 0)
  exportable : subpkt.exportable = (lastBody 4 ps).elim true (·.headD 0 ≠ 0)
  revocation : subpkt.revocation = (lastBody 12 ps).map revocationRecord

structure Mpi where
  bits   : Nat
  value  : Bytes
  lt     : bits < 2 ^ 16
  length : value.length = (bits + 7) / 8

def uint16 (n : Nat) : Bytes :=
  [UInt8.ofNat (n / 256), UInt8.ofNat (n % 256)]

def Mpi.encode (mpi : Mpi) : Bytes :=
  uint16 mpi.bits ++ mpi.value

inductive Numbers
  | rsa (s : Mpi)
  | dsa (r s : Mpi)

namespace Numbers

def algo : Numbers → UInt8
  | rsa _   => 1
  | dsa _ _ => 17

def list : Numbers → List Mpi
  | rsa s   => [s]
  | dsa r s => [r, s]

end Numbers

-- The body of a version 4 signature.
structure SignatureBody where
  sigType     : UInt8
  hashAlgo    : UInt8
  hashed      : List Subpacket
  unhashed    : List Subpacket
  leftBits    : UInt8 × UInt8
  numbers     : Numbers
  hashed_lt   : (encodeAll hashed).length < 2 ^ 16
  unhashed_lt : (encodeAll unhashed).length < 2 ^ 16

namespace SignatureBody

def all (sig : SignatureBody) : List Subpacket :=
  sig.hashed ++ sig.unhashed

def fields (sig : SignatureBody) : Bytes :=
  sig.sigType :: sig.numbers.algo :: sig.hashAlgo :: (uint16 (encodeAll sig.hashed).length ++ (encodeAll sig.hashed ++
    (uint16 (encodeAll sig.unhashed).length ++ (encodeAll sig.unhashed ++
      (sig.leftBits.1 :: sig.leftBits.2 :: sig.numbers.list.flatMap Mpi.encode)))))

-- The version is in front.
def encode (sig : SignatureBody) : Bytes :=
  4 :: sig.fields

end SignatureBody

-- What a signature has for the records of the key and of the user.
@[ext]
structure Transfer where
  expiry : Nat
  caps   : Option CString
  time   : Option UInt64

def capsText (keyFlags : UInt8) : CString :=
  .of (ascii ((if keyFlags &&& 2 ≠ 0 then ['s'] else []) ++ (if keyFlags &&& 1 ≠ 0 then ['c'] else []) ++
    (if keyFlags &&& 12 ≠ 0 then ['e'] else []) ++ if keyFlags &&& 32 ≠ 0 then ['a'] else []))

def capsOf (ps : List Subpacket) : Option CString :=
  let keyFlags := (lastBody 27 ps).elim 0 (·.headD 0)
  if keyFlags = 0 then none else some (capsText keyFlags)

def expiryOf (ps : List Subpacket) : Nat :=
  (lastBody 9 ps).elim 0 bigEndian

-- A time that is not there counts as zero.
def timeOf (ps : List Subpacket) : UInt64 :=
  UInt64.ofNat ((lastBody 2 ps).elim 0 bigEndian)

-- The record of a revocation key comes between the signature and the user id or the subkey, which are not found then.
def transferOf (sigType : UInt8) (ps : List Subpacket) : Transfer :=
  let alone := (lastBody 12 ps).isNone
  if isCertification sigType then ⟨expiryOf ps, capsOf ps, if alone then some (timeOf ps) else none⟩
  else if (sigType = 24 ∨ sigType = 25) ∧ alone then ⟨expiryOf ps, capsOf ps, none⟩
  else ⟨0, none, none⟩

def Transfer.toExpiry (t : Transfer) (key : Record) : Result Record :=
  if t.expiry = 0 then pure key
  else
    match key.getUlong keyTimestamp with
    | some timestamp => put key keyExpiry (·.setUlong · (timestamp + UInt64.ofNat t.expiry))
    | none           => pure key

def Transfer.toCaps (t : Transfer) (key : Record) : Result Record :=
  match t.caps with
  | none      => pure key
  | some caps =>
    if key.getSchema = some schemaSec ∨ key.getSchema = some schemaSsb then pure key
    else put key pubCaps (·.takeRaw · caps)

def Transfer.toKey (t : Transfer) (key : Record) : Result Record := do
  let key ← t.toExpiry key
  t.toCaps key

def Transfer.toUid (t : Transfer) (sigType : UInt8) (records : List Record) : Result (List Record) :=
  match uidOrUatFindForSelfSignature records sigType, t.time with
  | some i, some timestamp => modifyRecord records i fun uid => put uid uidTimestamp (·.setUlong · timestamp)
  | _,      _              => pure records

-- The records of the key and of the user as they should be behind a signature.
def transferred (records : List Record) (sigType : UInt8) (keyid : CString) (t : Transfer) : Result (List Record) := do
  let key ← keyOrSubFindForSelfSignature records sigType (some keyid)
  match key with
  | none   => pure records
  | some i => do
    let records ← modifyRecord records i t.toKey
    if (records[i]?).any (·.getSchema = some schemaPub) then t.toUid sigType records else pure records

namespace SignatureBody

def keyid (sig : SignatureBody) : CString :=
  (lastBody 16 sig.all).elim Record.empty hex

-- The record of the signature has the last value of each kind.
structure Carries (sig : SignatureBody) (record : Record) : Prop where
  keyid     : record.getRaw sigKeyid = some sig.keyid
  timestamp : record.getRaw sigTimestamp = some ((lastBody 2 sig.all).elim Record.empty printedTime)
  expiry    : record.getRaw sigExpiry = some ((lastBody 3 sig.all).elim Record.empty printedTime)
  userid    : record.getRaw sigUserid = some ((lastBody 28 sig.all).elim Record.empty userIdText)
  algo      : record.getRaw sigAlgo = some (.of (printUnsigned sig.numbers.algo.toNat))
  sigClass  : record.getRaw sigClass = some (.of (Hex.hexByte false sig.sigType ++
    ascii [if (lastBody 4 sig.all).elim true (·.headD 0 ≠ 0) then 'x' else 'l']))

-- The signature is read to its end, its record has the last values, and only the hashed subpackets and the issuer decide
-- about the records in front of it. The record of a revocation key is added as well.
def Read (sig : SignatureBody) : Prop :=
  ∀ (flags : Flags) (records : List Record), AllShaped records → ∃ after record,
    transferred records sig.sigType sig.keyid (transferOf sig.sigType sig.hashed) = .ok after ∧ sig.Carries record ∧
      parseV4Signature flags sig.encode sig.encode.length ⟨1, records⟩ = .ok (some (), ⟨sig.encode.length,
        after ++ ((lastBody 12 sig.all).map revocationRecord).toList ++ if flags.signatures then [record] else []⟩)

end SignatureBody

end Openpgp

namespace Openpgp

open GLib

variable {type n : Nat} {body text : Bytes} {p : Subpacket} {ps : List Subpacket} {kind : LengthKind}
  {sig : Record × SigSubpacket} {record : Record} {subpkt : SigSubpacket}

theorem WellFormed.type_lt (h : WellFormed type body) : type < 64 := by
  cases h with
  | ignored h =>
    have hall : ∀ type ∈ Format.ignoredTypes, type < 64 := by decide
    exact hall type h
  | _ => decide

theorem Subpacket.toNat_subType (p : Subpacket) : p.subType.toNat % 64 = p.type := by
  have hlt := p.wellFormed.type_lt
  rw [Subpacket.subType, UInt8.toNat_ofNat']
  split
  all_goals omega

theorem toNat_ofNat_of_lt (h : n < 256) : (UInt8.ofNat n).toNat = n := by
  rw [UInt8.toNat_ofNat']
  exact Nat.mod_eq_of_lt h

theorem run_uint {buf : Bytes} (h : buf.length = n) (text : Bytes) :
    (Format.uint n).run (buf ++ text) = some (bigEndian buf, text) := by
  rw [Format.uint, StateT.run_bind, Format.run_bytes h text]
  rfl

theorem LengthKind.run_encode (h : kind.Fits n) (text : Bytes) :
    Format.newLength.run (kind.encode n ++ text) = some (n, text) := by
  cases kind with
  | one =>
    have hn : n < 192 := h
    have hval : (UInt8.ofNat n).toNat = n := toNat_ofNat_of_lt (by omega)
    have hlt : UInt8.ofNat n < 192 := UInt8.lt_iff_toNat_lt.mpr (hval.symm ▸ hn)
    change (if UInt8.ofNat n < 192 then pure (UInt8.ofNat n).toNat else _ : Format Nat).run text = _
    rw [if_pos hlt, hval]
    rfl
  | two =>
    obtain ⟨hlow, hhigh⟩ : 192 ≤ n ∧ n < 8384 := h
    have hval : (UInt8.ofNat ((n - 192) / 256 + 192)).toNat = (n - 192) / 256 + 192 := toNat_ofNat_of_lt (by omega)
    have hval' : (UInt8.ofNat ((n - 192) % 256)).toNat = (n - 192) % 256 := toNat_ofNat_of_lt (by omega)
    have hge : ¬UInt8.ofNat ((n - 192) / 256 + 192) < 192 := by
      rw [UInt8.lt_iff_toNat_lt, hval]
      exact Nat.not_lt.mpr (Nat.le_add_left _ _)
    have hle : UInt8.ofNat ((n - 192) / 256 + 192) ≤ 223 := by
      rw [UInt8.le_iff_toNat_le, hval]
      change (n - 192) / 256 + 192 ≤ 223
      omega
    change (if UInt8.ofNat ((n - 192) / 256 + 192) < 192 then _ else if _ then _ else _ : Format Nat).run
      (UInt8.ofNat ((n - 192) % 256) :: text) = _
    rw [if_neg hge, if_pos hle]
    have hsum : (UInt8.ofNat ((n - 192) / 256 + 192)).toNat * 256 - 192 * 256 + (UInt8.ofNat ((n - 192) % 256)).toNat + 192 = n := by
      omega
    rw [← Nat.sub_mul] at hsum
    exact congrArg (fun k => some (k, text)) hsum
  | five =>
    have hn : n < 2 ^ 32 := h
    have hval : (UInt8.ofNat (n / 2 ^ 24)).toNat = n / 2 ^ 24 := toNat_ofNat_of_lt (by omega)
    have hval₁ : (UInt8.ofNat (n / 2 ^ 16 % 256)).toNat = n / 2 ^ 16 % 256 := toNat_ofNat_of_lt (by omega)
    have hval₂ : (UInt8.ofNat (n / 2 ^ 8 % 256)).toNat = n / 2 ^ 8 % 256 := toNat_ofNat_of_lt (by omega)
    have hval₃ : (UInt8.ofNat (n % 256)).toNat = n % 256 := toNat_ofNat_of_lt (by omega)
    have hnumber : bigEndian [UInt8.ofNat (n / 2 ^ 24), UInt8.ofNat (n / 2 ^ 16 % 256), UInt8.ofNat (n / 2 ^ 8 % 256),
        UInt8.ofNat (n % 256)] = n := by
      simp only [bigEndian, List.foldl_cons, List.foldl_nil, hval, hval₁, hval₂, hval₃]
      omega
    change (Format.uint 4).run ([UInt8.ofNat (n / 2 ^ 24), UInt8.ofNat (n / 2 ^ 16 % 256), UInt8.ofNat (n / 2 ^ 8 % 256),
      UInt8.ofNat (n % 256)] ++ text) = _
    exact (run_uint rfl text).trans (by rw [hnumber])

theorem lastBody_concat (type : Nat) (ps : List Subpacket) (p : Subpacket) :
    lastBody type (ps ++ [p]) = if p.type = type then some p.body else lastBody type ps := by
  simp only [lastBody, List.reverse_append, List.reverse_cons, List.reverse_nil, List.nil_append, List.singleton_append,
    List.find?_cons]
  split
  case h_1 h => simp_all
  case h_2 h => simp_all

theorem lastBody_concat_eq (h : p.type = type) (ps : List Subpacket) : lastBody type (ps ++ [p]) = some p.body := by
  rw [lastBody_concat, if_pos h]

theorem lastBody_concat_ne (h : p.type ≠ type) (ps : List Subpacket) : lastBody type (ps ++ [p]) = lastBody type ps := by
  rw [lastBody_concat, if_neg h]

namespace FilledBy

theorem new : FilledBy [] (.new schemaSig sigMax Record.colon sigMax_le) where
  isRecord  := .new (by decide) (by decide)
  delimiter := rfl
  keyid     := rfl
  timestamp := rfl
  expiry    := rfl
  userid    := rfl

theorem other (h : FilledBy ps record) (h16 : p.type ≠ 16) (h2 : p.type ≠ 2) (h3 : p.type ≠ 3) (h28 : p.type ≠ 28) :
    FilledBy (ps ++ [p]) record where
  isRecord  := h.isRecord
  delimiter := h.delimiter
  keyid     := by rw [lastBody_concat_ne h16, h.keyid]
  timestamp := by rw [lastBody_concat_ne h2, h.timestamp]
  expiry    := by rw [lastBody_concat_ne h3, h.expiry]
  userid    := by rw [lastBody_concat_ne h28, h.userid]

-- A column is set, and the others stay.
theorem takeColumn (h : FilledBy ps record) {column : Nat} {block : CString} (hpos : 0 < column) (hlt : column < sigMax)
    (hkeyid : if column = sigKeyid then p.type = 16 ∧ block = hex p.body else p.type ≠ 16)
    (htimestamp : if column = sigTimestamp then p.type = 2 ∧ block = printedTime p.body else p.type ≠ 2)
    (hexpiry : if column = sigExpiry then p.type = 3 ∧ block = printedTime p.body else p.type ≠ 3)
    (huserid : if column = sigUserid then p.type = 28 ∧ block = userIdText p.body else p.type ≠ 28) :
    FilledBy (ps ++ [p]) (record.takeColumn column block) := by
  have hset {column' type : Nat} {f : Bytes → CString}
      (hcolumn : if column = column' then p.type = type ∧ block = f p.body else p.type ≠ type)
      (hget : record.getRaw column' = some ((lastBody type ps).elim Record.empty f)) :
      (record.takeColumn column block).getRaw column' = some ((lastBody type (ps ++ [p])).elim Record.empty f) := by
    split at hcolumn
    case isTrue heq =>
      obtain ⟨htype, rfl⟩ := hcolumn
      subst heq
      rw [Record.getRaw_takeColumn (h.isRecord.length.symm ▸ hlt), lastBody_concat_eq htype]
      rfl
    case isFalse hne => rw [Record.getRaw_takeColumn_ne (Ne.symm hne), lastBody_concat_ne hcolumn, hget]
  constructor
  case isRecord =>
    exact ⟨List.length_set.trans h.isRecord.length,
      (Record.getRaw_takeColumn_ne (Nat.ne_of_lt hpos) _).trans h.isRecord.schema⟩
  case delimiter => exact h.delimiter
  case keyid     => exact hset hkeyid h.keyid
  case timestamp => exact hset htimestamp h.timestamp
  case expiry    => exact hset hexpiry h.expiry
  case userid    => exact hset huserid h.userid

end FilledBy

namespace NotedBy

theorem new : NotedBy [] {} where
  keyExpiry  := rfl
  keyFlags   := rfl
  exportable := rfl
  revocation := rfl

-- One of the values is set, or none.
theorem concat (h : NotedBy ps subpkt) {subpkt' : SigSubpacket}
    (hkeyExpiry : subpkt'.keyExpiry = if p.type = 9 then bigEndian p.body else subpkt.keyExpiry)
    (hkeyFlags : subpkt'.keyFlags = if p.type = 27 then p.body.headD 0 else subpkt.keyFlags)
    (hexportable : subpkt'.exportable = if p.type = 4 then decide (p.body.headD 0 ≠ 0) else subpkt.exportable)
    (hrevocation : subpkt'.revocation = if p.type = 12 then some (revocationRecord p.body) else subpkt.revocation) :
    NotedBy (ps ++ [p]) subpkt' where
  keyExpiry  := by rw [hkeyExpiry, h.keyExpiry, lastBody_concat]; split <;> rfl
  keyFlags   := by rw [hkeyFlags, h.keyFlags, lastBody_concat]; split <;> rfl
  exportable := by rw [hexportable, h.exportable, lastBody_concat]; split <;> rfl
  revocation := by rw [hrevocation, h.revocation, lastBody_concat]; split <;> rfl

end NotedBy

theorem subpacketBody_ignored {subType : UInt8} (h : type ∈ Format.ignoredTypes) (htype : subType.toNat % 64 = type) :
    Format.subpacketBody subType sig = (do let _ ← Format.rest; pure sig) := by
  unfold Format.subpacketBody
  rw [htype]
  split
  case h_10 => rw [if_pos (.inl h)]
  all_goals exact absurd h (by decide)

-- What a subpacket does to the record and to what is noted.
def Subpacket.apply (p : Subpacket) (sig : Record × SigSubpacket) : Record × SigSubpacket :=
  match p.type with
  | 2  => (sig.1.setUlong sigTimestamp (UInt64.ofNat (bigEndian p.body)), sig.2)
  | 16 => (sig.1.takeRaw sigKeyid (hex p.body), sig.2)
  | 9  => (sig.1, { sig.2 with keyExpiry := bigEndian p.body })
  | 3  => (sig.1.setUlong sigExpiry (UInt64.ofNat (bigEndian p.body)), sig.2)
  | 4  => (sig.1, { sig.2 with exportable := p.body.headD 0 ≠ 0 })
  | 25 => (sig.1, { sig.2 with primary := p.body.headD 0 ≠ 0 })
  | 27 => (sig.1, { sig.2 with keyFlags := p.body.headD 0 })
  | 28 => (sig.1.setString sigUserid (.of p.body), sig.2)
  | 12 => (sig.1, { sig.2 with revocation := some (revocationRecord p.body) })
  | _  => sig

theorem Subpacket.apply_ignored (h : p.type ∈ Format.ignoredTypes) : p.apply sig = sig := by
  unfold Subpacket.apply
  generalize p.type = type at h ⊢
  split
  case h_10 => rfl
  all_goals exact absurd h (by decide)

theorem not_other {c : UInt8} (h : c = 0 ∨ c = 1) : ¬(c ≠ 0 ∧ c ≠ 1) :=
  fun hc => h.elim hc.1 hc.2

-- A subpacket is read to its end.
theorem run_subpacketBody (hwhole : p.Whole) :
    (Format.subpacketBody p.subType sig).run p.body = some (p.apply sig, []) := by
  have htype := p.toNat_subType
  obtain ⟨type, critical, body, wellFormed, kind, fits⟩ := p
  have hbytes {n : Nat} {buf : Bytes} (h : buf.length = n) : (Format.bytes n).run buf = some (buf, []) := by
    have hrun := Format.run_bytes h []
    rwa [List.append_nil] at hrun
  have huint {n : Nat} (h : body.length = n) : (Format.uint n).run body = some (bigEndian body, []) := by
    have hrun := run_uint h []
    rwa [List.append_nil] at hrun
  cases wellFormed with
  | creation h =>
    unfold Format.subpacketBody
    rw [htype]
    change (Format.uint 4 >>= fun time => pure (sig.1.setUlong sigTimestamp (UInt64.ofNat time), sig.2)).run body = _
    rw [StateT.run_bind, huint h]
    rfl
  | issuer h =>
    unfold Format.subpacketBody
    rw [htype]
    change (Format.bytes 8 >>= fun keyid => pure (sig.1.takeRaw sigKeyid (hex keyid), sig.2)).run body = _
    rw [StateT.run_bind, hbytes h]
    rfl
  | keyExpiry h =>
    unfold Format.subpacketBody
    rw [htype]
    change (Format.uint 4 >>= fun time => pure (sig.1, { sig.2 with keyExpiry := time })).run body = _
    rw [StateT.run_bind, huint h]
    rfl
  | expiry h =>
    unfold Format.subpacketBody
    rw [htype]
    change (Format.uint 4 >>= fun time => pure (sig.1.setUlong sigExpiry (UInt64.ofNat time), sig.2)).run body = _
    rw [StateT.run_bind, huint h]
    rfl
  | @exportable c h =>
    unfold Format.subpacketBody
    rw [htype]
    change (if c ≠ 0 ∧ c ≠ 1 then failure else pure (sig.1, { sig.2 with exportable := c ≠ 0 }) : Format _).run [] = _
    rw [if_neg (not_other h)]
    rfl
  | @primary c h =>
    unfold Format.subpacketBody
    rw [htype]
    change (if c ≠ 0 ∧ c ≠ 1 then failure else pure (sig.1, { sig.2 with primary := c ≠ 0 }) : Format _).run [] = _
    rw [if_neg (not_other h)]
    rfl
  | keyFlags =>
    obtain ⟨c, more, rfl⟩ := List.exists_cons_of_ne_nil (hwhole.keyFlags rfl)
    unfold Format.subpacketBody
    rw [htype]
    rfl
  | signerUserid =>
    have hbody : body = [] := hwhole.signerUserid rfl
    subst hbody
    unfold Format.subpacketBody
    rw [htype]
    rfl
  | @revocation klass algo fingerprint h =>
    unfold Format.subpacketBody
    rw [htype]
    have hrevocation : Format.revocation.run (klass :: algo :: fingerprint) =
        some (revocationRecord (klass :: algo :: fingerprint), []) := by
      change (Format.bytes 20 >>= fun fingerprint => pure (Format.rvkRecord klass algo fingerprint)).run fingerprint = _
      rw [StateT.run_bind, hbytes h]
      rfl
    change (Format.revocation >>= fun record => pure (sig.1, { sig.2 with revocation := some record })).run
      (klass :: algo :: fingerprint) = _
    rw [StateT.run_bind, hrevocation]
    rfl
  | ignored h =>
    rw [subpacketBody_ignored h htype, Subpacket.apply_ignored h]
    rfl

theorem FilledBy.apply (hfilled : FilledBy ps sig.1) (p : Subpacket) : FilledBy (ps ++ [p]) (p.apply sig).1 := by
  have hother {t : Nat} (h : p.type = t) (h16 : t ≠ 16) (h2 : t ≠ 2) (h3 : t ≠ 3) (h28 : t ≠ 28) :
      FilledBy (ps ++ [p]) sig.1 :=
    hfilled.other (h ▸ h16) (h ▸ h2) (h ▸ h3) (h ▸ h28)
  unfold Subpacket.apply
  split
  case h_1 h =>
    apply hfilled.takeColumn (by decide) (by decide)
    all_goals simp [h, sigKeyid, sigTimestamp, sigExpiry, sigUserid, printedTime]
  case h_2 h =>
    apply hfilled.takeColumn (by decide) (by decide)
    all_goals simp [h, sigKeyid, sigTimestamp, sigExpiry, sigUserid]
  case h_3 h => exact hother h (by decide) (by decide) (by decide) (by decide)
  case h_4 h =>
    apply hfilled.takeColumn (by decide) (by decide)
    all_goals simp [h, sigKeyid, sigTimestamp, sigExpiry, sigUserid, printedTime]
  case h_5 h => exact hother h (by decide) (by decide) (by decide) (by decide)
  case h_6 h => exact hother h (by decide) (by decide) (by decide) (by decide)
  case h_7 h => exact hother h (by decide) (by decide) (by decide) (by decide)
  case h_8 h =>
    apply hfilled.takeColumn (by decide) (by decide)
    all_goals simp [h, sigKeyid, sigTimestamp, sigExpiry, sigUserid, userIdText, hfilled.delimiter]
  case h_9 h => exact hother h (by decide) (by decide) (by decide) (by decide)
  case h_10 h2 h16 _ h3 _ _ _ h28 _ => exact hfilled.other h16 h2 h3 h28

theorem NotedBy.apply (hnoted : NotedBy ps sig.2) (p : Subpacket) : NotedBy (ps ++ [p]) (p.apply sig).2 := by
  unfold Subpacket.apply
  split
  case h_10 _ _ h9 _ h4 _ h27 _ h12 =>
    apply hnoted.concat
    all_goals simp_all
  all_goals
    rename_i h
    apply hnoted.concat
    all_goals simp [h]

theorem run_subpacket (p : Subpacket) (sig : Record × SigSubpacket) (text : Bytes) :
    (Format.subpacket sig).run (p.encode ++ text) =
      (Format.inner p.body.length (Format.subpacketBody p.subType sig)).run (p.body ++ text) := by
  have hlength : Format.newLength.run (p.encode ++ text) = some (p.body.length + 1, p.subType :: (p.body ++ text)) := by
    rw [Subpacket.encode, List.append_assoc]
    exact LengthKind.run_encode p.fits _
  rw [Format.subpacket, StateT.run_bind, hlength]
  rfl

theorem run_subpacket_whole (hwhole : p.Whole) (text : Bytes) :
    (Format.subpacket sig).run (p.encode ++ text) = some (p.apply sig, text) := by
  have hbody : (Format.subpacketBody p.subType sig).run ((p.body ++ text).take p.body.length) = some (p.apply sig, []) := by
    rw [List.take_left]
    exact run_subpacketBody hwhole
  rw [run_subpacket, Format.run_inner_some (by simp) hbody, List.drop_left]

theorem run_subpacket_not_whole (h : ¬p.Whole) (text : Bytes) : (Format.subpacket sig).run (p.encode ++ text) = none := by
  rw [run_subpacket]
  apply Format.run_inner_none (by simp)
  intro sig' hrun
  rw [List.take_left] at hrun
  apply h
  unfold Format.subpacketBody at hrun
  rw [p.toNat_subType] at hrun
  constructor
  case signerUserid =>
    intro htype
    rw [htype] at hrun
    exact (Prod.ext_iff.mp (Option.some.inj hrun)).2
  case keyFlags =>
    intro htype hbody
    rw [htype, hbody] at hrun
    cases hrun

theorem Subpacket.encode_ne_nil (p : Subpacket) (text : Bytes) : p.encode ++ text ≠ [] := by
  simp [Subpacket.encode]

-- Each subpacket is taken in turn.
theorem run_encodeAll (qs : List Subpacket) (hwhole : ∀ p ∈ qs, p.Whole) (hfilled : FilledBy ps sig.1)
    (hnoted : NotedBy ps sig.2) : ∃ sig', (Format.subpackets sig).run (encodeAll qs) = some (sig', []) ∧
      FilledBy (ps ++ qs) sig'.1 ∧ NotedBy (ps ++ qs) sig'.2 := by
  induction qs generalizing ps sig with
  | nil =>
    rw [List.append_nil]
    exact ⟨sig, Format.run_subpackets_nil sig, hfilled, hnoted⟩
  | cons q qs ih =>
    have hcons : encodeAll (q :: qs) = q.encode ++ encodeAll qs := List.flatMap_cons
    obtain ⟨hq, hqs⟩ := List.forall_mem_cons.mp hwhole
    obtain ⟨sig', hrun, hfilled', hnoted'⟩ := ih hqs (hfilled.apply q) (hnoted.apply q)
    rw [List.append_assoc] at hfilled' hnoted'
    refine ⟨sig', ?_, hfilled', hnoted'⟩
    rw [hcons, Format.run_subpackets sig (q.encode_ne_nil _), StateT.run_bind, run_subpacket_whole hq]
    exact hrun

theorem run_encodeAll_none (qs : List Subpacket) (h : ¬∀ p ∈ qs, p.Whole) :
    (Format.subpackets sig).run (encodeAll qs) = none := by
  induction qs generalizing sig with
  | nil => exact absurd (List.forall_mem_nil _) h
  | cons q qs ih =>
    have hcons : encodeAll (q :: qs) = q.encode ++ encodeAll qs := List.flatMap_cons
    rw [hcons, Format.run_subpackets sig (q.encode_ne_nil _), StateT.run_bind]
    by_cases hq : q.Whole
    case pos =>
      rw [run_subpacket_whole hq]
      exact ih fun hqs => h (List.forall_mem_cons.mpr ⟨hq, hqs⟩)
    case neg =>
      rw [run_subpacket_not_whole hq]
      rfl

theorem run_uint16 (h : n < 2 ^ 16) (text : Bytes) : (Format.uint 2).run (uint16 n ++ text) = some (n, text) := by
  have hval : (UInt8.ofNat (n / 256)).toNat = n / 256 := toNat_ofNat_of_lt (by omega)
  have hval' : (UInt8.ofNat (n % 256)).toNat = n % 256 := toNat_ofNat_of_lt (by omega)
  have hnumber : bigEndian (uint16 n) = n := by
    simp only [uint16, bigEndian, List.foldl_cons, List.foldl_nil, hval, hval']
    omega
  exact (run_uint rfl text).trans (by rw [hnumber])

theorem run_mpi (mpi : Mpi) (h : mpi.bits ≠ 0) (text : Bytes) :
    Format.mpi.run (mpi.encode ++ text) = some ((mpi.bits, mpi.value), text) := by
  have hbytes : ¬(mpi.bits + 7) / 8 = 0 := by omega
  rw [Format.mpi, StateT.run_bind, Mpi.encode, List.append_assoc, run_uint16 mpi.lt]
  change StateT.run (if (mpi.bits + 7) / 8 = 0 then failure else _ : Format _) (mpi.value ++ text) = _
  rw [if_neg hbytes, StateT.run_bind, Format.run_bytes mpi.length]
  rfl

-- There has to be a bit in a number.
theorem run_mpi_zero (mpi : Mpi) (h : mpi.bits = 0) (text : Bytes) : Format.mpi.run (mpi.encode ++ text) = none := by
  have hbytes : (mpi.bits + 7) / 8 = 0 := by omega
  rw [Format.mpi, StateT.run_bind, Mpi.encode, List.append_assoc, run_uint16 mpi.lt]
  change StateT.run (if (mpi.bits + 7) / 8 = 0 then failure else _ : Format _) (mpi.value ++ text) = _
  rw [if_pos hbytes]
  rfl

theorem run_mpis (mpis : List Mpi) (h : ∀ mpi ∈ mpis, mpi.bits ≠ 0) :
    (Format.mpis mpis.length).run (mpis.flatMap Mpi.encode) = some ((), []) := by
  induction mpis with
  | nil => rfl
  | cons mpi mpis ih =>
    obtain ⟨hmpi, hmpis⟩ := List.forall_mem_cons.mp h
    rw [List.length_cons, Format.mpis, List.flatMap_cons, StateT.run_bind, run_mpi mpi hmpi]
    exact ih hmpis

theorem run_mpis_none (mpis : List Mpi) (h : ¬∀ mpi ∈ mpis, mpi.bits ≠ 0) :
    (Format.mpis mpis.length).run (mpis.flatMap Mpi.encode) = none := by
  induction mpis with
  | nil => exact absurd (List.forall_mem_nil _) h
  | cons mpi mpis ih =>
    rw [List.length_cons, Format.mpis, List.flatMap_cons, StateT.run_bind]
    by_cases hmpi : mpi.bits = 0
    case pos =>
      rw [run_mpi_zero mpi hmpi]
      rfl
    case neg =>
      rw [run_mpi mpi hmpi]
      exact ih fun hmpis => h (List.forall_mem_cons.mpr ⟨hmpi, hmpis⟩)

theorem signatureMpis_algo (numbers : Numbers) :
    Format.signatureMpis numbers.algo = Format.mpis numbers.list.length := by
  cases numbers with
  | rsa s   => rfl
  | dsa r s => rfl

theorem run_inner {α : Type} {f : Format α} {a : α} {buf : Bytes} (h : f.run buf = some (a, [])) (text : Bytes) :
    (Format.inner buf.length f).run (buf ++ text) = some (a, text) := by
  rw [Format.run_inner_some (by simp) (by rwa [List.take_left]), List.drop_left]

theorem run_inner_none {α : Type} {f : Format α} {buf : Bytes} (h : f.run buf = none) (text : Bytes) :
    (Format.inner buf.length f).run (buf ++ text) = none :=
  Format.run_inner_none (by simp) (by simp [h])

-- What is left to be read behind the hashed subpackets, and behind the others.
def readUnhashed (sigType keyAlgo : UInt8) (sig : Record × SigSubpacket) : Format V4Signature := do
  let unhashedLen ← Format.uint 2
  let sig ← Format.inner unhashedLen (Format.subpackets sig)
  let _leftBits ← Format.uint 2
  Format.signatureMpis keyAlgo
  pure ⟨sigType, keyAlgo, sig.1, sig.2⟩

variable (sig : SignatureBody)

-- What is behind the length of the hashed subpackets, and behind the length of the others.
def SignatureBody.afterUnhashed : Bytes :=
  encodeAll sig.unhashed ++ (sig.leftBits.1 :: sig.leftBits.2 :: sig.numbers.list.flatMap Mpi.encode)

def SignatureBody.afterHashed : Bytes :=
  encodeAll sig.hashed ++ (uint16 (encodeAll sig.unhashed).length ++ sig.afterUnhashed)

theorem run_v4Signature : Format.v4Signature.run sig.fields =
    (Format.inner (encodeAll sig.hashed).length
      (Format.subpackets (.new schemaSig sigMax Record.colon sigMax_le, {})) >>=
        readUnhashed sig.sigType sig.numbers.algo).run sig.afterHashed := by
  have hfields : Format.v4Signature.run sig.fields = (Format.uint 2 >>= fun hashedLen =>
      Format.inner hashedLen (Format.subpackets (.new schemaSig sigMax Record.colon sigMax_le, {})) >>=
        readUnhashed sig.sigType sig.numbers.algo).run (uint16 (encodeAll sig.hashed).length ++ sig.afterHashed) :=
    rfl
  rw [hfields, StateT.run_bind, run_uint16 sig.hashed_lt]
  rfl

theorem run_readUnhashed (sigType keyAlgo : UInt8) (collected : Record × SigSubpacket) :
    (readUnhashed sigType keyAlgo collected).run (uint16 (encodeAll sig.unhashed).length ++ sig.afterUnhashed) =
      (do
        let collected ← Format.inner (encodeAll sig.unhashed).length (Format.subpackets collected)
        let _leftBits ← Format.uint 2
        Format.signatureMpis keyAlgo
        pure ⟨sigType, keyAlgo, collected.1, collected.2⟩ : Format V4Signature).run sig.afterUnhashed := by
  rw [readUnhashed, StateT.run_bind, run_uint16 sig.unhashed_lt]
  rfl

theorem run_leftBits {α : Type} (f : Format α) : (do let _ ← Format.uint 2; f).run
    (sig.leftBits.1 :: sig.leftBits.2 :: sig.numbers.list.flatMap Mpi.encode) =
      f.run (sig.numbers.list.flatMap Mpi.encode) :=
  rfl

theorem filledBy_start : FilledBy [] ((.new schemaSig sigMax Record.colon sigMax_le, {}) : Record × SigSubpacket).1 :=
  .new

theorem notedBy_start : NotedBy [] ((.new schemaSig sigMax Record.colon sigMax_le, {}) : Record × SigSubpacket).2 :=
  .new

-- The fields are read when the subpackets are read to their ends and no number is zero.
theorem run_fields (hwhole : ∀ p ∈ sig.all, p.Whole) (hmpis : ∀ mpi ∈ sig.numbers.list, mpi.bits ≠ 0) :
    ∃ record subpkt, Format.v4Signature.run sig.fields = some (⟨sig.sigType, sig.numbers.algo, record, subpkt⟩, []) ∧
      FilledBy sig.all record ∧ NotedBy sig.all subpkt := by
  obtain ⟨hhashed, hunhashed⟩ := List.forall_mem_append.mp hwhole
  obtain ⟨sig₁, hrun₁, hfilled₁, hnoted₁⟩ := run_encodeAll sig.hashed hhashed filledBy_start notedBy_start
  obtain ⟨⟨record, subpkt⟩, hrun₂, hfilled₂, hnoted₂⟩ := run_encodeAll sig.unhashed hunhashed hfilled₁ hnoted₁
  refine ⟨record, subpkt, ?_, hfilled₂, hnoted₂⟩
  rw [run_v4Signature, StateT.run_bind, SignatureBody.afterHashed, run_inner hrun₁, Option.bind_eq_bind, Option.bind_some,
    run_readUnhashed, StateT.run_bind, SignatureBody.afterUnhashed, run_inner hrun₂, Option.bind_eq_bind, Option.bind_some,
    run_leftBits, signatureMpis_algo, StateT.run_bind, run_mpis _ hmpis]
  rfl

theorem run_fields_none (h : ¬((∀ p ∈ sig.all, p.Whole) ∧ ∀ mpi ∈ sig.numbers.list, mpi.bits ≠ 0)) :
    Format.v4Signature.run sig.fields = none := by
  rw [run_v4Signature, StateT.run_bind, SignatureBody.afterHashed]
  by_cases hhashed : ∀ p ∈ sig.hashed, p.Whole
  case neg =>
    rw [run_inner_none (run_encodeAll_none sig.hashed hhashed)]
    rfl
  case pos =>
    obtain ⟨sig₁, hrun₁, hfilled₁, hnoted₁⟩ := run_encodeAll sig.hashed hhashed filledBy_start notedBy_start
    rw [run_inner hrun₁, Option.bind_eq_bind, Option.bind_some, run_readUnhashed, StateT.run_bind,
      SignatureBody.afterUnhashed]
    by_cases hunhashed : ∀ p ∈ sig.unhashed, p.Whole
    case neg =>
      rw [run_inner_none (run_encodeAll_none sig.unhashed hunhashed)]
      rfl
    case pos =>
      obtain ⟨sig₂, hrun₂, _, _⟩ := run_encodeAll sig.unhashed hunhashed hfilled₁ hnoted₁
      have hzero : ¬∀ mpi ∈ sig.numbers.list, mpi.bits ≠ 0 :=
        fun hmpis => h ⟨List.forall_mem_append.mpr ⟨hhashed, hunhashed⟩, hmpis⟩
      rw [run_inner hrun₂, Option.bind_eq_bind, Option.bind_some, run_leftBits, signatureMpis_algo, StateT.run_bind,
        run_mpis_none _ hzero]
      rfl

end Openpgp
