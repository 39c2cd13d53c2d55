import GcrModel.Gcr.Record.Record
import GcrModel.Library.Scan
import GcrModel.Egg.Hex.Hex

-- gcr-openpgp.c: reading in the body of a packet. A pointer is the number of bytes in front of it. The memory is the body, or
-- the body with what is behind it.
namespace Openpgp

open GLib

-- What must not happen: a failing assertion, reading outside of the memory, and using a string that is
-- NULL. Loops get fuel, and running out of it would be an error as well.
inductive Fault
  | assertion
  | outOfBounds
  | nullField
  | fuel
  deriving DecidableEq, Repr

abbrev Result := Except Fault

structure State where
  cursor  : Nat
  records : List Record

-- A function that reads on and returns FALSE when it gives up.
abbrev Parse := Scan Fault State

def cursor : Parse Nat :=
  Scan.get.bind fun s => Scan.pure s.cursor

def seek (cursor : Nat) : Parse Unit :=
  Scan.modify fun s => { s with cursor := cursor }

variable (m : Bytes) (stop : Nat)

def readByte : Parse UInt8 := fun s =>
  if s.cursor = stop then .ok (none, s)
  else
    match m[s.cursor]? with
    | some c => .ok (some c, { s with cursor := s.cursor + 1 })
    | none   => .error .outOfBounds

def readBytes (length : Nat) : Parse Bytes := fun s =>
  if stop < s.cursor + length then .ok (none, s)
  else if m.length < s.cursor + length then .error .outOfBounds
  else .ok (some ((m.drop s.cursor).take length), { s with cursor := s.cursor + length })

def bigEndian (buf : Bytes) : Nat :=
  buf.foldl (fun n c => n * 256 + c.toNat) 0

def readUint32 : Parse Nat := do
  let buf ← readBytes m stop 4
  pure (bigEndian buf)

def readUint16 : Parse Nat := do
  let buf ← readBytes m stop 2
  pure (bigEndian buf)

-- The number of bits and the number itself.
def readMpi : Parse (Nat × Bytes) := do
  let bits ← readUint16 m stop
  let bytes := (bits + 7) / 8
  if bytes = 0 then Scan.fail
  else do
    let value ← readBytes m stop bytes
    pure (bits, value)

def readNewLength : Parse Nat := do
  let c ← readByte m stop
  if c < 192 then
    pure c.toNat
  else if c ≤ 223 then do
    let c1 ← readByte m stop
    pure ((c.toNat - 192) * 256 + c1.toNat + 192)
  else if c = 255 then
    readUint32 m stop
  else
    -- We don't support partial length
    Scan.fail

def readOldLength (ctb : UInt8) : Parse Nat := do
  let llen := ctb.toNat % 4
  if llen = 0 then do
    let c ← readByte m stop
    pure c.toNat
  else if llen = 1 then
    readUint16 m stop
  else if llen = 2 then
    readUint32 m stop
  else do
    let cursor ← cursor
    pure (stop - cursor)

-- The type and the length of the packet that begins at the cursor.
def readOpenpgpPacket : Parse (UInt8 × Nat) := do
  let ctb ← readByte m stop
  if ctb < 128 then Scan.fail
  else do
    let newCtb := ctb.toNat / 64 % 2 = 1
    let pktType := if newCtb then ctb % 64 else ctb % 64 / 4
    if 63 < pktType then Scan.fail
    else do
      let length ← if newCtb then readNewLength m stop else readOldLength m stop ctb
      let cursor ← cursor
      if stop < cursor + length then Scan.fail else pure (pktType, length)

end Openpgp

-- The packets of gcr-openpgp.c, each of which adds records.
namespace Openpgp

open GLib

structure Digest where
  bytes  : Bytes
  length : bytes.length = 20

structure Hashes where
  ripemd160 : Bytes → Digest
  sha1      : Bytes → Digest

structure Flags where
  keys       : Bool
  noRecords  : Bool
  signatures : Bool
  attributes : Bool
  deriving DecidableEq, Repr

-- GCR_RECORD_SCHEMA_FPR and so on
def schemaFpr : CString := .of (ascii ['f', 'p', 'r'])
def schemaPub : CString := .of (ascii ['p', 'u', 'b'])
def schemaSub : CString := .of (ascii ['s', 'u', 'b'])
def schemaSec : CString := .of (ascii ['s', 'e', 'c'])
def schemaSsb : CString := .of (ascii ['s', 's', 'b'])
def schemaUid : CString := .of (ascii ['u', 'i', 'd'])
def schemaUat : CString := .of (ascii ['u', 'a', 't'])
def schemaXa1 : CString := .of (ascii ['x', 'a', '1'])
def schemaSig : CString := .of (ascii ['s', 'i', 'g'])
def schemaRvk : CString := .of (ascii ['r', 'v', 'k'])

-- The columns, GCR_RECORD_TRUST and so on
def trust : Nat := 1
def fprFingerprint : Nat := 9
def fprMax : Nat := 10
def keyBits : Nat := 2
def keyAlgo : Nat := 3
def keyKeyid : Nat := 4
def keyTimestamp : Nat := 5
def keyExpiry : Nat := 6
def keyOwnertrust : Nat := 8
def pubCaps : Nat := 11
def pubMax : Nat := 12
def secMax : Nat := 15
def uidTimestamp : Nat := 5
def uidFingerprint : Nat := 7
def uidUserid : Nat := 9
def uidMax : Nat := 10
def sigAlgo : Nat := 3
def sigKeyid : Nat := 4
def sigTimestamp : Nat := 5
def sigExpiry : Nat := 6
def sigUserid : Nat := 9
def sigClass : Nat := 10
def sigMax : Nat := 11
def rvkAlgo : Nat := 3
def rvkFingerprint : Nat := 9
def rvkClass : Nat := 10
def rvkMax : Nat := 11
def uatFingerprint : Nat := 7
def uatCountSize : Nat := 9
def uatMax : Nat := 10
def xa1Length : Nat := 2
def xa1Type : Nat := 3
def xa1Fingerprint : Nat := 7
def xa1Data : Nat := 9
def xa1Max : Nat := 11

-- A setter fails an assertion when the column does not exist.
@[grind =]
def put (r : Record) (column : Nat) (set : Record → Nat → Record) : Result Record :=
  if column < r.columns.length then .ok (set r column) else .error .assertion

def putAll (r : Record) (sets : List (Nat × (Record → Nat → Record))) : Result Record :=
  sets.foldlM (fun r set => put r set.1 set.2) r

def hex (data : Bytes) : CString :=
  .of (Hex.encodeFull data true)

def addRecord (record : Record) : Parse Unit :=
  Scan.modify fun s => { s with records := s.records ++ [record] }

def records : Parse (List Record) :=
  Scan.get.bind fun s => Scan.pure s.records

def setRecords (records : List Record) : Parse Unit :=
  Scan.modify fun s => { s with records := records }

def slice (m : Bytes) (beg stop : Nat) : Result Bytes :=
  if beg ≤ stop ∧ stop ≤ m.length then .ok ((m.drop beg).take (stop - beg)) else .error .outOfBounds

variable (hashes : Hashes) (flags : Flags) (m : Bytes) (stop : Nat)

def hashUserIdOrAttribute (beg stop : Nat) : Result CString :=
  if stop ≤ beg then .error .assertion
  else do
    let data ← slice m beg stop
    pure (hex (hashes.ripemd160 data).bytes)

-- The last 8 bytes of the modulus are the keyid.
def parseV3RsaBitsAndKeyid : Parse (Nat × CString) := do
  let (bits, n) ← readMpi m stop
  let bytes := (bits + 7) / 8
  if bytes < 8 then Scan.fail
  else do
    let data ← Scan.lift (slice n (bytes - 8) bytes)
    pure (bits, hex data)

-- The keyid and the fingerprint.
def hashV4Keyid (data stop : Nat) : Result (CString × CString) :=
  if stop ≤ data then .error .assertion
  else
    let len := stop - data
    if 65535 ≤ len then .error .assertion
    else do
      let key ← slice m data stop
      let digest := hashes.sha1 ([153, UInt8.ofNat (len / 256), UInt8.ofNat len] ++ key)
      let keyid ← slice digest.bytes 12 20
      pure (hex keyid, hex digest.bytes)

def skipMpis : Nat → Parse Unit
  | 0     => pure ()
  | n + 1 => do
    let _ ← readMpi m stop
    skipMpis n

-- The number of bits, and then so many other numbers: RSA has one more, DSA three and Elgamal two.
def parseV4AlgoBits (algo : UInt8) : Parse Nat := do
  let others :=
    if algo = 1 ∨ algo = 2 ∨ algo = 3 then some 1
    else if algo = 17 then some 3
    else if algo = 16 then some 2
    else none
  match others with
  | none   => Scan.fail
  | some n => do
    let (bits, _) ← readMpi m stop
    skipMpis m stop n
    pure bits

def defaultCapsForAlgo (algo : UInt8) : CString :=
  .of <| ascii <|
    if algo = 1 then ['c', 's', 'e']
    else if algo = 2 then ['e']
    else if algo = 3 then ['s']
    else if algo = 16 then ['e']
    else if algo = 17 then ['s', 'c', 'a']
    else []

def keyRecord (schema : CString) (nColumns : Nat) (h : nColumns ≤ maxColumns) (bits : Nat) (algo : UInt8)
    (keyid : CString) (timestamp ndays : Nat) : Result Record :=
  putAll (.new schema nColumns Record.colon h) <|
    [(keyBits, (·.setUint · (UInt32.ofNat bits))), (keyAlgo, (·.setUint · algo.toUInt32)), (keyKeyid, (·.takeRaw · keyid)),
      (keyTimestamp, (·.setUlong · (UInt64.ofNat timestamp)))] ++
    (if schema ≠ schemaSec ∧ schema ≠ schemaSsb then [(pubCaps, (·.setRaw · (defaultCapsForAlgo algo)))] else []) ++
    if 0 < ndays then [(keyExpiry, (·.setUlong · (UInt64.ofNat (timestamp + ndays * 86400))))] else []

def fprRecord (fingerprint : CString) : Result Record :=
  putAll (.new schemaFpr fprMax Record.colon (by decide)) [(fprFingerprint, (·.takeRaw · fingerprint))]

-- What is read of a key: the number of bits, the keyid and, for version 4, the fingerprint.
def parseKeyid (version algo : UInt8) (data : Nat) : Parse (Nat × CString × Option CString) :=
  if version < 4 then do
    let (bits, keyid) ← parseV3RsaBitsAndKeyid m stop
    pure (bits, keyid, none)
  else do
    let bits ← parseV4AlgoBits m stop algo
    let cursor ← cursor
    let (keyid, fingerprint) ← Scan.lift (hashV4Keyid hashes m data cursor)
    pure (bits, keyid, some fingerprint)

def parsePublicKeyOrSubkey (schema : CString) (nColumns : Nat) (h : nColumns ≤ maxColumns) : Parse Unit := do
  let data ← cursor
  let version ← readByte m stop
  if version < 2 ∨ 4 < version then Scan.fail
  else do
    let timestamp ← readUint32 m stop
    let ndays ← if version < 4 then readUint16 m stop else pure 0
    let algo ← readByte m stop
    let (bits, keyid, fingerprint) ← parseKeyid hashes m stop version algo data
    let record ← Scan.lift (keyRecord schema nColumns h bits algo keyid timestamp ndays)
    addRecord record
    match fingerprint with
    | some fingerprint =>
      if schema = schemaPub ∨ schema = schemaSec then do
        let record ← Scan.lift (fprRecord fingerprint)
        addRecord record
      else
        pure ()
    | none => pure ()

-- The rest of a secret key is skipped.
def parseSecretKeyOrSubkey (schema : CString) : Parse Unit := do
  parsePublicKeyOrSubkey hashes m stop schema secMax (by decide)
  seek stop

def uidRecord (fingerprint string : CString) : Result Record :=
  putAll (.new schemaUid uidMax Record.colon (by decide))
    [(uidFingerprint, (·.takeRaw · fingerprint)), (uidUserid, (·.setString · string))]

def parseUserId : Parse Unit := do
  let cursor ← cursor
  if stop < cursor then Scan.fail
  else do
    let string ← Scan.lift (slice m cursor stop)
    let fingerprint ← Scan.lift (hashUserIdOrAttribute hashes m cursor stop)
    let record ← Scan.lift (uidRecord fingerprint (.of string))
    addRecord record
    seek stop

def xa1Record (length : Nat) (subpktType : UInt8) : Result Record :=
  putAll (.new schemaXa1 xa1Max Record.colon (by decide))
    [(xa1Length, (·.setUint · (UInt32.ofNat length))), (xa1Type, (·.setUint · subpktType.toUInt32))]

def parseUserAttributePacket (subpktType : UInt8) : Parse Unit := do
  let cursor ← cursor
  let record ← Scan.lift (xa1Record (stop - cursor) subpktType)
  let fingerprint ← Scan.lift (hashUserIdOrAttribute hashes m cursor stop)
  let data ← Scan.lift (slice m cursor stop)
  let record ← Scan.lift (putAll record [(xa1Fingerprint, (·.takeRaw · fingerprint)), (xa1Data, (·.setBase64 · data))])
  addRecord record
  seek stop

-- The loop over the subpackets. The length counts the type, and when it is zero the cursor goes back.
def parseUserAttributes : Nat → Nat → Parse Nat
  | 0,        _     => Scan.lift (.error .fuel)
  | fuel + 1, count => do
    let position ← cursor
    if position = stop then pure count
    else do
      let subpktLen ← readNewLength m stop
      let subpktType ← readByte m stop
      let position ← cursor
      if flags.attributes then parseUserAttributePacket hashes m (position + subpktLen - 1) subpktType
      else seek (position + subpktLen - 1)
      parseUserAttributes fuel (count + 1)

-- `%d` with a `guint`
def printDecimal (n : Nat) : Bytes :=
  let n := n % 2 ^ 32
  if n < 2 ^ 31 then printUnsigned n else 45 :: printUnsigned (2 ^ 32 - n)

def uatRecord (fingerprint : CString) (count size : Nat) : Result Record :=
  putAll (.new schemaUat uatMax Record.colon (by decide))
    [(uatFingerprint, (·.takeRaw · fingerprint)),
      (uatCountSize, (·.takeRaw · (.of (printDecimal count ++ [32] ++ printDecimal size))))]

def parseUserAttribute : Parse Unit := do
  let start ← cursor
  let count ← parseUserAttributes hashes flags m stop (m.length + 1) 0
  let fingerprint ← Scan.lift (hashUserIdOrAttribute hashes m start stop)
  let cursor ← cursor
  let record ← Scan.lift (uatRecord fingerprint count (cursor - start))
  addRecord record

-- One number for RSA, two for DSA.
def skipSignatureMpis (algo : UInt8) : Parse Unit :=
  if algo = 1 then skipMpis m stop 1
  else if algo = 17 then skipMpis m stop 2
  else Scan.fail

def parseV3Signature : Parse Unit := do
  let sigLen ← readByte m stop
  if sigLen ≠ 5 then Scan.fail
  else do
    let sigType ← readByte m stop
    let sigTime ← readUint32 m stop
    let keyid ← readBytes m stop 8
    let keyAlgo ← readByte m stop
    let _hashAlgo ← readByte m stop
    let _leftBits ← readUint16 m stop
    skipSignatureMpis m stop keyAlgo
    if flags.signatures then do
      let record ← Scan.lift <| putAll (.new schemaSig sigMax Record.colon (by decide))
        [(sigAlgo, (·.setUint · keyAlgo.toUInt32)), (sigKeyid, (·.takeRaw · (hex keyid))),
          (sigTimestamp, (·.setUlong · (UInt64.ofNat sigTime))),
          (sigClass, (·.takeRaw · (.of (Hex.hexByte false sigType ++ ascii ['x']))))]
      addRecord record
    else
      pure ()

structure SigSubpacket where
  keyExpiry  : Nat := 0
  exportable : Bool := true
  primary    : Bool := false
  keyFlags   : UInt8 := 0
  revocation : Option Record := none

def parseV4SignatureRevocation : Parse Record := do
  let klass ← readByte m stop
  let algo ← readByte m stop
  let fingerprint ← readBytes m stop 20
  Scan.lift <| putAll (.new schemaRvk rvkMax Record.colon (by decide))
    [(rvkAlgo, (·.setUint · algo.toUInt32)), (rvkFingerprint, (·.takeRaw · (hex fingerprint))),
      (rvkClass, (·.takeRaw · (hex [klass])))]

-- The record of the signature and what is for the record of the key.
def parseV4SignatureSubpacket (subType : UInt8) (record : Record) (subpkt : SigSubpacket) :
    Parse (Record × SigSubpacket) :=
  let critical := 128 ≤ subType
  match subType.toNat % 64 with
  -- OPENPGP_SIG_CREATION
  | 2  => do
    let when ← readUint32 m stop
    let record ← Scan.lift (put record sigTimestamp (·.setUlong · (UInt64.ofNat when)))
    pure (record, subpkt)
  -- OPENPGP_SIG_ISSUER
  | 16 => do
    let keyid ← readBytes m stop 8
    let record ← Scan.lift (put record sigKeyid (·.takeRaw · (hex keyid)))
    pure (record, subpkt)
  -- OPENPGP_SIG_KEY_EXPIRY
  | 9  => do
    let when ← readUint32 m stop
    pure (record, { subpkt with keyExpiry := when })
  -- OPENPGP_SIG_EXPIRY
  | 3  => do
    let when ← readUint32 m stop
    let record ← Scan.lift (put record sigExpiry (·.setUlong · (UInt64.ofNat when)))
    pure (record, subpkt)
  -- OPENPGP_SIG_EXPORTABLE
  | 4  => do
    let byte ← readByte m stop
    if byte ≠ 0 ∧ byte ≠ 1 then Scan.fail else pure (record, { subpkt with exportable := byte ≠ 0 })
  -- OPENPGP_SIG_PRIMARY_USERID
  | 25 => do
    let byte ← readByte m stop
    if byte ≠ 0 ∧ byte ≠ 1 then Scan.fail else pure (record, { subpkt with primary := byte ≠ 0 })
  -- OPENPGP_SIG_KEY_FLAGS
  | 27 => do
    let byte ← readByte m stop
    seek stop
    pure (record, { subpkt with keyFlags := byte })
  -- OPENPGP_SIG_SIGNER_USERID does not go on to the end
  | 28 => do
    let cursor ← cursor
    let value ← Scan.lift (slice m cursor stop)
    let record ← Scan.lift (put record sigUserid (·.setString · (.of value)))
    pure (record, subpkt)
  -- OPENPGP_SIG_REVOCATION_KEY
  | 12 => do
    let revocation ← parseV4SignatureRevocation m stop
    pure (record, { subpkt with revocation := some revocation })
  | n  =>
    -- The ignored ones, and the others when they are not critical
    if n ∈ [11, 21, 22, 7, 5, 6, 20, 23, 24, 26, 29, 30, 31, 32] ∨ ¬critical then do
      seek stop
      pure (record, subpkt)
    else
      Scan.fail

def parseV4SignatureSubpackets : Nat → Record → SigSubpacket → Parse (Record × SigSubpacket)
  | 0,        _,      _      => Scan.lift (.error .fuel)
  | fuel + 1, record, subpkt => do
    let position ← cursor
    if position = stop then pure (record, subpkt)
    else do
      let length ← readNewLength m stop
      let subType ← readByte m stop
      if length = 0 then Scan.fail
      else do
        let position ← cursor
        let subStop := position + (length - 1)
        if stop < subStop then Scan.fail
        else do
          let (record, subpkt) ← parseV4SignatureSubpacket m subStop subType record subpkt
          let position ← cursor
          if position ≠ subStop then Scan.fail else parseV4SignatureSubpackets fuel record subpkt

def isCertification (sigType : UInt8) : Bool :=
  16 ≤ sigType ∧ sigType ≤ 19

-- The last record when it is for a user.
def uidOrUatFindForSelfSignature (records : List Record) (sigType : UInt8) : Option Nat :=
  records.getLast?.bind fun record =>
    if isCertification sigType ∧ (record.getSchema = some schemaUid ∨ record.getSchema = some schemaUat) then
      some (records.length - 1)
    else
      none

-- The search goes backwards from `n` for the primary key. The comparison needs two strings.
def findPrimaryKey (records : List Record) (keyid : Option CString) : Nat → Result (Option Nat)
  | 0     => .ok none
  | n + 1 =>
    match records[n]? with
    | none        => .error .outOfBounds
    | some record =>
      if record.getSchema = some schemaPub ∨ record.getSchema = some schemaSec then
        match record.getRaw keyKeyid, keyid with
        | none,       _          => .ok none
        | some _,     none       => .error .nullField
        | some check, some keyid => .ok (if check = keyid then some n else none)
      else
        findPrimaryKey records keyid n

def keyOrSubFindForSelfSignature (records : List Record) (sigType : UInt8) (keyid : Option CString) :
    Result (Option Nat) :=
  if isCertification sigType then findPrimaryKey records keyid records.length
  else if sigType = 24 ∨ sigType = 25 then
    .ok (records.getLast?.bind fun record =>
      if record.getSchema = some schemaSub then some (records.length - 1) else none)
  else .ok none

def pubOrSubSetKeyCaps (record : Record) (keyFlags : UInt8) : Result Record :=
  if record.getSchema = some schemaSec ∨ record.getSchema = some schemaSsb then .ok record
  else
    let caps := (if keyFlags &&& 2 ≠ 0 then ['s'] else []) ++ (if keyFlags &&& 1 ≠ 0 then ['c'] else []) ++
      (if keyFlags &&& 12 ≠ 0 then ['e'] else []) ++ if keyFlags &&& 32 ≠ 0 then ['a'] else []
    put record pubCaps (·.takeRaw · (.of (ascii caps)))

def modifyRecord (records : List Record) (i : Nat) (f : Record → Result Record) : Result (List Record) :=
  match records[i]? with
  | none        => .error .outOfBounds
  | some record => do
    let record ← f record
    pure (records.set i record)

def setKeyExpiry (subpkt : SigSubpacket) (key : Record) : Result Record :=
  if subpkt.keyExpiry = 0 then .ok key
  else
    match key.getUlong keyTimestamp with
    | some timestamp => put key keyExpiry (·.setUlong · (timestamp + UInt64.ofNat subpkt.keyExpiry))
    | none           => .ok key

-- Fill in information on previous key or subkey
def fillInKey (subpkt : SigSubpacket) (key : Record) : Result Record := do
  let key ← setKeyExpiry subpkt key
  if subpkt.keyFlags ≠ 0 then pubOrSubSetKeyCaps key subpkt.keyFlags else pure key

def fillInUid (records : List Record) (sigType : UInt8) (record : Record) : Result (List Record) :=
  match uidOrUatFindForSelfSignature records sigType, record.getUlong sigTimestamp with
  | some i, some timestamp => modifyRecord records i fun uid => put uid uidTimestamp (·.setUlong · timestamp)
  | _,      _              => .ok records

def fillIn (records : List Record) (sigType : UInt8) (record : Record) (subpkt : SigSubpacket) :
    Result (List Record) := do
  let key ← keyOrSubFindForSelfSignature records sigType (record.getRaw sigKeyid)
  match key with
  | none   => pure records
  | some i => do
    let records ← modifyRecord records i (fillInKey subpkt)
    if (records[i]?).any (·.getSchema = some schemaPub) then fillInUid records sigType record else pure records

def parseV4Signature : Parse Unit := do
  let sigType ← readByte m stop
  let keyAlgo ← readByte m stop
  let _hashAlgo ← readByte m stop
  let hashedLen ← readUint16 m stop
  let position ← cursor
  let record := Record.new schemaSig sigMax Record.colon (by decide)
  if stop < position + hashedLen then Scan.fail
  else do
    -- Hashed subpackets which we use
    let (record, subpkt) ← parseV4SignatureSubpackets m (position + hashedLen) (hashedLen + 1) record {}
    let unhashedLen ← readUint16 m stop
    let position ← cursor
    if stop < position + unhashedLen then Scan.fail
    else do
      let (record, subpkt) ← parseV4SignatureSubpackets m (position + unhashedLen) (unhashedLen + 1) record subpkt
      let _leftBits ← readUint16 m stop
      skipSignatureMpis m stop keyAlgo
      match subpkt.revocation with
      | some revocation => addRecord revocation
      | none            => pure ()
      let before ← records
      let after ← Scan.lift (fillIn before sigType record subpkt)
      setRecords after
      if flags.signatures then do
        let record ← Scan.lift <| putAll record
          [(sigAlgo, (·.setUint · keyAlgo.toUInt32)),
            (sigClass, (·.takeRaw · (.of (Hex.hexByte false sigType ++ ascii [if subpkt.exportable then 'x' else 'l']))))]
        addRecord record
      else
        pure ()

-- What the function ends with.
def fillInRecords (sigType keyAlgo : UInt8) (record : Record) (subpkt : SigSubpacket) : Parse Unit := do
  let before ← records
  let after ← Scan.lift (fillIn before sigType record subpkt)
  setRecords after
  if flags.signatures then do
    let record ← Scan.lift <| putAll record
      [(sigAlgo, (·.setUint · keyAlgo.toUInt32)),
        (sigClass, (·.takeRaw · (.of (Hex.hexByte false sigType ++ ascii [if subpkt.exportable then 'x' else 'l']))))]
    addRecord record
  else
    pure ()

def parseSignature : Parse Unit := do
  let version ← readByte m stop
  if version = 3 then parseV3Signature flags m stop
  else if version = 4 then parseV4Signature flags m stop
  else Scan.fail

-- Whether the packet could be read does not matter to the caller.
def parseOpenpgpPacket (pktType : UInt8) : Parse Unit :=
  if pktType = 6 then parsePublicKeyOrSubkey hashes m stop schemaPub pubMax (by decide)
  else if pktType = 14 then parsePublicKeyOrSubkey hashes m stop schemaSub pubMax (by decide)
  else if pktType = 13 then parseUserId hashes m stop
  else if pktType = 17 then parseUserAttribute hashes flags m stop
  else if pktType = 2 then parseSignature flags m stop
  else if pktType = 5 then parseSecretKeyOrSubkey hashes m stop schemaSec
  else if pktType = 7 then parseSecretKeyOrSubkey hashes m stop schemaSsb
  else pure ()

-- GCR_SUCCESS and GCR_ERROR_FAILURE
inductive Code
  | success
  | failure
  deriving DecidableEq, Repr

end Openpgp
