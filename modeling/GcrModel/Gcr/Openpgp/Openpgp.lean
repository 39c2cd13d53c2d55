import GcrModel.Gcr.Openpgp.Format

-- _gcr_openpgp_parse, which goes through the packets and gives the records of each block to the callback.
namespace Openpgp

open GLib

section Packets

def asciiToupper (c : UInt8) : UInt8 :=
  if 97 ≤ c ∧ c ≤ 122 then c - 32 else c

def appendKeyCapabilities (string caps : Bytes) : Bytes :=
  caps.foldl (fun string c => if asciiToupper c ∈ string then string else string ++ [asciiToupper c]) string

-- The capabilities of a record, which are there for the primary keys and the subkeys only.
def addCapabilities (string : Bytes) (record : Record) : Result Bytes :=
  if record.getSchema = some schemaPub ∨ record.getSchema = some schemaSub then
    match record.getRaw pubCaps with
    | none      => .error .nullField
    | some caps => .ok (appendKeyCapabilities string caps.bytes)
  else
    .ok string

-- Gather the capabilities of all subkeys into the primary key
def normalizeCapabilities (records : List Record) : Result (List Record) := do
  let string ← records.foldlM addCapabilities (((records[0]?).bind (·.getRaw pubCaps)).elim [] (·.bytes))
  modifyRecord records 0 fun record => put record pubCaps (·.takeRaw · (.of string))

def checkKeyExpiry (current : UInt64) (record : Record) : Bool :=
  match record.getUlong keyExpiry with
  | some expiry => expiry ≠ 0 ∧ expiry < current
  | none        => false

def setDefaultTrust (c : UInt8) (force : Bool) (record : Record) : Result Record :=
  if ¬force ∧ (record.getRaw trust).any (·.bytes ≠ []) then .ok record
  else if record.getSchema = some schemaSig ∨ record.getSchema = some schemaFpr then .ok record
  else put record trust (·.setChar · c)

-- Trust doesn't make sense for secret keys
def normalizeKeyRecords (current : UInt64) (records : List Record) : Result (List Record) :=
  match records[0]? with
  | none       => .ok records
  | some first =>
    if first.getSchema = some schemaPub then do
      let force := checkKeyExpiry current first
      let records ← if force then pure records else normalizeCapabilities records
      let records ← modifyRecord records 0 fun record => put record keyOwnertrust (·.setChar · 111)
      records.mapM (setDefaultTrust (if force then 101 else 111) force)
    else
      .ok records

-- What the callback gets.
structure Block where
  records : List Record
  outer   : Bytes

structure Closure where
  records : List Record := []
  blocks  : List Block := []

variable (hashes : Hashes) (now : Nat → UInt64) (flags : Flags) (data : Bytes)

def maybeEmitOpenpgpBlock (closure : Closure) (block : Option Nat) (stop : Nat) : Result Closure :=
  match block with
  | none       => .ok closure
  | some block =>
    if block = stop then .ok closure
    else if stop ≤ block then .error .assertion
    else do
      let outer ← slice data block stop
      pure { records := [], blocks := closure.blocks ++ [⟨closure.records, outer⟩] }

-- The clock is read when the key in front of the cursor is complete.
def normalize (cursor : Nat) (closure : Closure) : Result Closure :=
  if flags.keys then do
    let records ← normalizeKeyRecords (now cursor) closure.records
    pure { closure with records }
  else
    pure closure

def finish (closure : Closure) (block : Option Nat) (cursor : Nat) : Result Closure := do
  let closure ← normalize now flags cursor closure
  maybeEmitOpenpgpBlock data closure block cursor

-- The records that a packet adds stay when the rest of it cannot be read.
def parsePacket (closure : Closure) (pktType : UInt8) (body : Bytes) : Result Closure :=
  if flags.noRecords then pure closure
  else do
    let (_, s) ← parseOpenpgpPacket hashes flags body body.length pktType ⟨0, closure.records⟩
    pure { closure with records := s.records }

-- The packet that begins at `beg`. A new set of packets starts with it when it is a key or when there are none.
def startPacket (closure : Closure) (block : Option Nat) (beg : Nat) (pktType : UInt8) :
    Result (Closure × Option Nat) := do
  let newKey := pktType = 6 ∨ pktType = 5
  let closure ← if newKey then normalize now flags beg closure else pure closure
  if ¬flags.keys ∨ newKey then do
    let closure ← maybeEmitOpenpgpBlock data closure block beg
    pure (closure, some beg)
  else
    pure (closure, block)

def parseFrom : Nat → Nat → Option Nat → Closure → Result Closure
  | 0,        _,   _,     _       => .error .fuel
  | fuel + 1, beg, block, closure => do
    if beg = data.length then finish now flags data closure block beg
    else do
      let (header, s) ← readOpenpgpPacket data data.length ⟨beg, []⟩
      match header with
      | none                   => do
        let closure ← if block ≠ some beg then maybeEmitOpenpgpBlock data closure block beg else pure closure
        finish now flags data closure none s.cursor
      | some (pktType, length) => do
        let body ← slice data s.cursor (s.cursor + length)
        let (closure, block) ← startPacket now flags data closure block beg pktType
        let closure ← parsePacket hashes flags closure pktType body
        parseFrom fuel (s.cursor + length) block closure

-- A packet may be read only in its body.
def openpgpParse : Result (List Block) := do
  let closure ← parseFrom hashes now flags data (data.length + 1) 0 none {}
  pure closure.blocks

def parsePacketIn (closure : Closure) (pktType : UInt8) (m : Bytes) (length : Nat) : Result Closure :=
  if flags.noRecords then pure closure
  else do
    let (_, s) ← parseOpenpgpPacket hashes flags m length pktType ⟨0, closure.records⟩
    pure { closure with records := s.records }

-- The same loop in a memory, where what is behind a packet and `after` the data can be read.
def parseFromIn (after : Bytes) : Nat → Nat → Option Nat → Closure → Result Closure
  | 0,        _,   _,     _       => .error .fuel
  | fuel + 1, beg, block, closure => do
    if beg = data.length then finish now flags data closure block beg
    else do
      let (header, s) ← readOpenpgpPacket data data.length ⟨beg, []⟩
      match header with
      | none                   => do
        let closure ← if block ≠ some beg then maybeEmitOpenpgpBlock data closure block beg else pure closure
        finish now flags data closure none s.cursor
      | some (pktType, length) => do
        let (closure, block) ← startPacket now flags data closure block beg pktType
        let closure ← parsePacketIn hashes flags closure pktType (data.drop s.cursor ++ after) length
        parseFromIn after fuel (s.cursor + length) block closure

def openpgpParseIn (after : Bytes) : Result (List Block) := do
  let closure ← parseFromIn hashes now flags data after (data.length + 1) 0 none {}
  pure closure.blocks

-- Something behind the data is read.
def Leaves : Prop :=
  openpgpParseIn hashes now flags data [] = .error .outOfBounds

end Packets

-- The blocks of a sequence of packets: each primary key with what follows it.
section Blocks

structure Piece where
  pktType : UInt8
  body    : Bytes
  -- The packet with its header.
  raw     : Bytes

def Piece.isKey (p : Piece) : Bool :=
  p.pktType = 6 ∨ p.pktType = 5

-- The packets, and what is left when a header cannot be read.
def cut (text : Bytes) : List Piece × Bytes :=
  match _h : Format.packet.run text with
  | none                          => ([], text)
  | some ((pktType, body), text') =>
    (⟨pktType, body, text.take (text.length - text'.length)⟩ :: (cut text').1, (cut text').2)
termination_by text.length
decreasing_by all_goals exact Format.consumes_packet text _ text' _h

-- The packets in front of the first key, and the keys with what follows them.
def group : List Piece → List Piece × List (Piece × List Piece)
  | []      => ([], [])
  | p :: ps => if p.isKey then ([], (p, (group ps).1) :: (group ps).2) else (p :: (group ps).1, (group ps).2)

def pieces (g : Piece × List Piece) : List Piece :=
  g.1 :: g.2

def raw (g : Piece × List Piece) : Bytes :=
  (pieces g).flatMap Piece.raw

variable (hashes : Hashes) (flags : Flags) (current : UInt64)

def addPiece (rs : List Record) (p : Piece) : Result (List Record) := do
  let closure ← parsePacket hashes flags { records := rs } p.pktType p.body
  pure closure.records

-- The records that packets add.
def gather (rs : List Record) (ps : List Piece) : Result (List Record) :=
  ps.foldlM (addPiece hashes flags) rs

-- What cannot be read at the end keeps the last records as they are.
def lastRecords (tail : Bytes) (rs : List Record) : Result (List Record) :=
  if tail = [] then normalizeKeyRecords current rs else pure rs

-- The blocks of packets behind the records and the bytes since the last key.
def blocksOf (tail : Bytes) : List Piece → List Record → Option Bytes → Result (List Block)
  | [],      rs, none       => do
    let _ ← normalizeKeyRecords current rs
    pure []
  | [],      rs, some outer => do
    let rs ← lastRecords current tail rs
    pure [⟨rs, outer⟩]
  | p :: ps, rs, outer      =>
    if p.isKey then do
      let rs ← normalizeKeyRecords current rs
      match outer with
      | none       => do
        let rs ← addPiece hashes flags rs p
        blocksOf tail ps rs (some p.raw)
      | some outer => do
        let next ← addPiece hashes flags [] p
        let blocks ← blocksOf tail ps next (some p.raw)
        pure (⟨rs, outer⟩ :: blocks)
    else do
      let rs ← addPiece hashes flags rs p
      blocksOf tail ps rs (outer.map (· ++ p.raw))

-- The same for keys with what follows them, where the first one is added to the records.
def emitted (tail : Bytes) : List Record → List (Piece × List Piece) → Result (List Block)
  | _,  []      => pure []
  | rs, g :: gs => do
    let rs ← gather hashes flags rs (pieces g)
    let rs ← lastRecords current (if gs.isEmpty then tail else []) rs
    let blocks ← emitted tail [] gs
    pure (⟨rs, raw g⟩ :: blocks)

def Flags.withKeys (flags : Flags) : Flags :=
  { flags with keys := true }

-- With the parsing of keys, and at one time.
def parseKeys (data : Bytes) : Result (List Block) :=
  openpgpParse hashes (fun _ => current) flags.withKeys data

-- There is a block for each key, which has the records that it has alone.
def Independent (data : Bytes) : Prop :=
  ∃ blocks, parseKeys hashes flags current data = .ok blocks ∧
    blocks.map Block.outer = (group (cut data).1).2.map raw ∧
      ∀ b ∈ blocks, parseKeys hashes flags current b.outer = .ok [b]

-- The packets in front of the first key have no records, and neither has a public key in front of bytes that cannot be
-- read.
structure Separate (data : Bytes) : Prop where
  fits : flags.noRecords ∨ ∀ pkt ∈ Format.packets data, Format.PacketFits flags pkt
  lead : (group (cut data).1).2 ≠ [] → gather hashes flags.withKeys [] (group (cut data).1).1 = .ok []
  tail {g} : (cut data).2 ≠ [] → (group (cut data).1).2.getLast? = some g → g.1.pktType = 6 →
    gather hashes flags.withKeys [] [g.1] = .ok []

end Blocks

end Openpgp
