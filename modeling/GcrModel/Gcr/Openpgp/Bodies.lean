import GcrModel.Gcr.Openpgp.Format

-- What is read of the bodies of keys, attributes and signatures, as formats of byte strings.
namespace Openpgp

open GLib

theorem pubMax_le : pubMax ≤ maxColumns := by
  decide

theorem uidMax_le : uidMax ≤ maxColumns := by
  decide

theorem sigMax_le : sigMax ≤ maxColumns := by
  decide

theorem rvkMax_le : rvkMax ≤ maxColumns := by
  decide

-- What is read of a version 4 signature: its record and what is for the record of the key.
structure V4Signature where
  sigType : UInt8
  keyAlgo : UInt8
  record  : Record
  subpkt  : SigSubpacket

-- The record of the signature, when it is asked for.
def V4Signature.sigRecords (flags : Flags) (sig : V4Signature) : Result (List Record) :=
  if flags.signatures then do
    let record ← putAll sig.record
      [(sigAlgo, (·.setUint · sig.keyAlgo.toUInt32)),
        (sigClass, (·.takeRaw · (.of (Hex.hexByte false sig.sigType ++ ascii [if sig.subpkt.exportable then 'x' else 'l']))))]
    pure [record]
  else
    pure []

-- What a signature does to the array.
def V4Signature.apply (flags : Flags) (sig : V4Signature) (records : List Record) : Result (List Record) := do
  let after ← fillIn (records ++ sig.subpkt.revocation.toList) sig.sigType sig.record sig.subpkt
  let added ← sig.sigRecords flags
  pure (after ++ added)

namespace Format

def mpi : Format (Nat × Bytes) := do
  let bits ← uint 2
  if (bits + 7) / 8 = 0 then failure
  else do
    let value ← bytes ((bits + 7) / 8)
    pure (bits, value)

def mpis : Nat → Format Unit
  | 0     => pure ()
  | n + 1 => do
    let _ ← mpi
    mpis n

-- The numbers behind the first one.
def otherNumbers (algo : UInt8) : Option Nat :=
  if algo = 1 ∨ algo = 2 ∨ algo = 3 then some 1
  else if algo = 17 then some 3
  else if algo = 16 then some 2
  else none

-- A modulus of version 2 or 3 has to be long enough for the keyid.
def keyNumbers (version algo : UInt8) : Format Unit :=
  if version < 4 then do
    let (bits, _) ← mpi
    if (bits + 7) / 8 < 8 then failure else pure ()
  else
    match otherNumbers algo with
    | none   => failure
    | some n => do
      let _ ← mpi
      mpis n

def key : Format Unit := do
  let version ← byte
  if version < 2 ∨ 4 < version then failure
  else do
    let _timestamp ← uint 4
    let _ndays ← if version < 4 then uint 2 else pure 0
    let algo ← byte
    keyNumbers version algo

def signatureMpis (algo : UInt8) : Format Unit :=
  if algo = 1 then mpis 1
  else if algo = 17 then mpis 2
  else failure

def v3Signature : Format Unit := do
  let sigLen ← byte
  if sigLen ≠ 5 then failure
  else do
    let _sigType ← byte
    let _sigTime ← uint 4
    let _keyid ← bytes 8
    let keyAlgo ← byte
    let _hashAlgo ← byte
    let _leftBits ← uint 2
    signatureMpis keyAlgo

def rest : Format Bytes := fun text =>
  some (text, [])

def peek : Format Bytes := fun text =>
  some (text, text)

-- The next `length` bytes, of which all are read.
def inner {α : Type} (length : Nat) (f : Format α) : Format α := do
  let buf ← bytes length
  match f.run buf with
  | some (a, []) => pure a
  | _            => failure

def rvkRecord (klass algo : UInt8) (fingerprint : Bytes) : Record :=
  (((Record.new schemaRvk rvkMax Record.colon rvkMax_le).setUint rvkAlgo algo.toUInt32).takeRaw rvkFingerprint
    (hex fingerprint)).takeRaw rvkClass (hex [klass])

def revocation : Format Record := do
  let klass ← byte
  let algo ← byte
  let fingerprint ← bytes 20
  pure (rvkRecord klass algo fingerprint)

-- The subpackets that are passed over. Others are so when they are not critical.
def ignoredTypes : List Nat :=
  [11, 21, 22, 7, 5, 6, 20, 23, 24, 26, 29, 30, 31, 32]

-- What is behind the type of a subpacket. Nothing is read of the user id of a signer.
def subpacketBody (subType : UInt8) (sig : Record × SigSubpacket) : Format (Record × SigSubpacket) :=
  match subType.toNat % 64 with
  | 2  => do
    let time ← uint 4
    pure (sig.1.setUlong sigTimestamp (UInt64.ofNat time), sig.2)
  | 16 => do
    let keyid ← bytes 8
    pure (sig.1.takeRaw sigKeyid (hex keyid), sig.2)
  | 9  => do
    let time ← uint 4
    pure (sig.1, { sig.2 with keyExpiry := time })
  | 3  => do
    let time ← uint 4
    pure (sig.1.setUlong sigExpiry (UInt64.ofNat time), sig.2)
  | 4  => do
    let c ← byte
    if c ≠ 0 ∧ c ≠ 1 then failure else pure (sig.1, { sig.2 with exportable := c ≠ 0 })
  | 25 => do
    let c ← byte
    if c ≠ 0 ∧ c ≠ 1 then failure else pure (sig.1, { sig.2 with primary := c ≠ 0 })
  | 27 => do
    let c ← byte
    let _ ← rest
    pure (sig.1, { sig.2 with keyFlags := c })
  | 28 => do
    let value ← peek
    pure (sig.1.setString sigUserid (.of value), sig.2)
  | 12 => do
    let record ← revocation
    pure (sig.1, { sig.2 with revocation := some record })
  | n  =>
    if n ∈ ignoredTypes ∨ ¬128 ≤ subType then do
      let _ ← rest
      pure sig
    else
      failure

def subpacket (sig : Record × SigSubpacket) : Format (Record × SigSubpacket) := do
  let length ← newLength
  let subType ← byte
  if length = 0 then failure else inner (length - 1) (subpacketBody subType sig)

section

variable {α : Type} {f : Format α} {n : Nat} {text : Bytes}

theorem run_inner_some {a : α} (h : n ≤ text.length) (ha : f.run (text.take n) = some (a, [])) :
    (inner n f).run text = some (a, text.drop n) := by
  rw [inner, StateT.run_bind, run_bytes_le h]
  change StateT.run (match f.run (text.take n) with | some (a, []) => pure a | _ => failure) (text.drop n) = _
  rw [ha]
  rfl

theorem run_inner_none (h : n ≤ text.length) (ha : ∀ a, f.run (text.take n) ≠ some (a, [])) :
    (inner n f).run text = none := by
  rw [inner, StateT.run_bind, run_bytes_le h]
  change StateT.run (match f.run (text.take n) with | some (a, []) => pure a | _ => failure) (text.drop n) = _
  split
  case h_1 a hrun => exact absurd hrun (ha a)
  case h_2        => rfl

theorem run_inner_short (h : text.length < n) : (inner n f).run text = none := by
  have hbytes : (bytes n).run text = none := if_pos h
  rw [inner, StateT.run_bind, hbytes]
  rfl

end

theorem consumes_inner {α : Type} (length : Nat) (f : Format α) : Consumes 0 (inner length f) := by
  apply ((consumes_bytes length).bind (k := 0) _).weaken (Nat.zero_le _)
  intro buf
  split
  case h_1 => exact .pure
  case h_2 => exact .failure

theorem consumes_subpacket (sig : Record × SigSubpacket) : Consumes 1 (subpacket sig) := by
  apply (consumes_newLength).bind (k := 0)
  intro length
  apply ((consumes_byte).bind (k := 0) _).weaken (Nat.zero_le _)
  intro subType
  exact .ite .failure (consumes_inner _ _)

def subpackets (sig : Record × SigSubpacket) : Format (Record × SigSubpacket) := fun text =>
  if text = [] then some (sig, [])
  else
    match _h : (subpacket sig).run text with
    | none               => none
    | some (sig', text') => subpackets sig' text'
termination_by text => text.length
decreasing_by exact consumes_subpacket _ _ _ _ _h

theorem run_subpackets_nil (sig : Record × SigSubpacket) : (subpackets sig).run [] = some (sig, []) := by
  change subpackets sig [] = _
  rw [subpackets, if_pos rfl]

theorem run_subpackets (sig : Record × SigSubpacket) {text : Bytes} (h : text ≠ []) :
    (subpackets sig).run text = (subpacket sig >>= subpackets).run text := by
  rw [StateT.run_bind]
  change subpackets sig text = _
  rw [subpackets, if_neg h]
  split
  case h_1 hnone => rw [hnone]; rfl
  case h_2 hsome => rw [hsome]; rfl

theorem subpacket_bind {α : Type} (sig : Record × SigSubpacket) (k : Record × SigSubpacket → Format α) :
    subpacket sig >>= k = (do
      let length ← newLength
      let subType ← byte
      if length = 0 then failure else inner (length - 1) (subpacketBody subType sig) >>= k) := by
  rw [subpacket, bind_assoc]
  apply bind_congr
  intro length
  rw [bind_assoc]
  apply bind_congr
  intro subType
  split
  all_goals rfl

def v4Signature : Format V4Signature := do
  let sigType ← byte
  let keyAlgo ← byte
  let _hashAlgo ← byte
  let hashedLen ← uint 2
  let sig ← inner hashedLen (subpackets (.new schemaSig sigMax Record.colon sigMax_le, {}))
  let unhashedLen ← uint 2
  let sig ← inner unhashedLen (subpackets sig)
  let _leftBits ← uint 2
  signatureMpis keyAlgo
  pure ⟨sigType, keyAlgo, sig.1, sig.2⟩

def signature : Format (Option V4Signature) := do
  let version ← byte
  if version = 3 then (fun _ => none) <$> v3Signature
  else if version = 4 then some <$> v4Signature
  else failure

end Format

end Openpgp
