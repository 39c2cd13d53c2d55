import GcrModel.Egg.Buffer.Theorems.Codec
import GcrModel.Gcr.SshAgent.Service
import GcrModel.Gcr.SshAgent.Theorems.Preload
import Mathlib.Data.Finset.Card

-- gcr-ssh-agent-service.c: the preloaded keys are appended to the answer of the ssh-agent to a request for its keys.
namespace SshAgent

open GLib EggBuffer

local instance lawfulBytes : LawfulBEq Bytes :=
  inferInstance

-- The comment is taken up to the first NUL.
def addString (buffer str : Bytes) : Bytes :=
  EggBuffer.addByteArray buffer (cstr str)

-- Add any preloaded keys not already in answer
def addPreloaded (answer : List Bytes) : List KeyInfo → Bytes × UInt32 → Bytes × UInt32
  | [],           added         => added
  | info :: keys, (resp, added) =>
    if info.publicKey ∈ answer then addPreloaded answer keys (resp, added)
    else addPreloaded answer keys (addString (addByteArray resp info.publicKey) info.comment, added + 1)

-- The answer of the ssh-agent and the preloaded keys. Keys with the same blob are one entry of the table.
def opRequestIdentities (resp : Bytes) (keys : List KeyInfo) : Bytes :=
  match parseIdentitiesAnswer resp with
  -- Parse all the keys, and if it fails, just fall through
  | none        => resp
  | some answer =>
    let (resp, added) := addPreloaded answer keys (resp, 0)
    -- Set the correct amount of keys including the ones we added
    let resp := setUint32 resp 5 (added + UInt32.ofNat answer.toFinset.card)
    -- Set the correct total size of the payload
    setUint32 resp 0 (UInt32.ofNat (resp.length - 4))

section Wire

def encodeString (val : Bytes) : Bytes :=
  encodeUint32 (UInt32.ofNat val.length) ++ val

def packet (len count : UInt32) (data : Bytes) : Bytes :=
  encodeUint32 len ++ 12 :: (encodeUint32 count ++ data)

-- The blobs and the comments in the order in which they are sent.
def strings (ids : List (Bytes × Bytes)) : List Bytes :=
  ids.flatMap fun id => [id.1, id.2]

def payload (ids : List (Bytes × Bytes)) : Bytes :=
  (strings ids).flatMap encodeString

-- Blobs with their comments, of which a packet can be made.
structure IdentitiesAnswer where
  ids  : List (Bytes × Bytes)
  fits : 5 + (payload ids).length < 2 ^ 32

namespace IdentitiesAnswer

def blobs (answer : IdentitiesAnswer) : List Bytes :=
  answer.ids.map Prod.fst

def bytes (answer : IdentitiesAnswer) : Bytes :=
  packet (UInt32.ofNat (5 + (payload answer.ids).length)) (UInt32.ofNat answer.ids.length) (payload answer.ids)

end IdentitiesAnswer

-- No two preloaded keys are the same.
structure PreloadedKeys where
  infos : List KeyInfo
  nodup : (infos.map (·.publicKey)).Nodup

-- The keys of the answer are followed by the preloaded ones that are not among them.
def Merged (answer : IdentitiesAnswer) (keys : PreloadedKeys) (resp : Bytes) : Prop :=
  ∃ (merged : IdentitiesAnswer) (rest : List Bytes), resp = merged.bytes ∧ merged.blobs = answer.blobs ++ rest ∧ rest.Nodup ∧
    ∀ blob, blob ∈ rest ↔ blob ∉ answer.blobs ∧ ∃ info ∈ keys.infos, info.publicKey = blob

-- What an `EggBuffer` adds and reads.
abbrev Short (val : Bytes) : Prop :=
  val.length < 0x7fffffff

-- A key blob is any bytes, and a comment has no NUL.
abbrev Readable (id : Bytes × Bytes) : Prop :=
  Short id.1 ∧ Short id.2 ∧ 0 ∉ id.2

-- The preloaded keys that are appended.
def missing (answer : List Bytes) (keys : List KeyInfo) : List (Bytes × Bytes) :=
  (keys.filter (·.publicKey ∉ answer)).map fun info => (info.publicKey, cstr info.comment)

-- When the answer and the preloaded keys can be merged: the blobs are distinct, and the length is not too large.
def Mergeable (answer : IdentitiesAnswer) (keys : PreloadedKeys) : Prop :=
  if ∀ id ∈ answer.ids, Readable id then
    answer.blobs.Nodup ∧ (∀ str ∈ strings (missing answer.blobs keys.infos), Short str) ∧
      5 + (payload (answer.ids ++ missing answer.blobs keys.infos)).length < 2 ^ 32
  else missing answer.blobs keys.infos = []

end Wire

section Lemmas

variable {buffer rest val : Bytes} {offset : Nat} {ids ids' : List (Bytes × Bytes)} {answer : IdentitiesAnswer}
variable {strs strs' : List Bytes} {val' : Bytes} {len len' count count' : UInt32} {data data' : Bytes}

theorem drop_append_length (h : buffer.drop offset = val ++ rest) : buffer.drop (offset + val.length) = rest := by
  rw [← List.drop_drop, h, List.drop_left]

theorem length_of_drop (h : buffer.drop offset = val ++ rest) (hval : val ≠ []) :
    offset + val.length + rest.length = buffer.length := by
  have hlen := congrArg List.length h
  rw [List.length_drop, List.length_append] at hlen
  have hpos := List.length_pos_iff.mpr hval
  omega

theorem getUint32_of_drop {v : UInt32} (h : buffer.drop offset = encodeUint32 v ++ rest) :
    getUint32 buffer offset = some (v, offset + 4) := by
  have hlen := length_of_drop h (by simp [encodeUint32])
  rw [Buffer.length_encodeUint32] at hlen
  rw [getUint32, if_neg (by omega), h]
  have hdecode : decodeUint32 (encodeUint32 v ++ rest) = decodeUint32 (encodeUint32 v) := rfl
  rw [hdecode, decodeUint32_encode]

theorem toNat_length (h : val.length < 2 ^ 32) : (UInt32.ofNat val.length).toNat = val.length :=
  UInt32.toNat_ofNat_of_lt' h

-- A string is read if it is short, and must not be the length of a missing value.
theorem getByteArray_of_drop (h : buffer.drop offset = encodeString val ++ rest) (hlt : val.length < 2 ^ 32 - 1) :
    getByteArray buffer offset = if Short val then some (some val, offset + (encodeString val).length) else none := by
  have hlen : (UInt32.ofNat val.length).toNat = val.length := toNat_length (by omega)
  have hne : UInt32.ofNat val.length ≠ 0xffffffff := by
    intro heq
    rw [heq] at hlen
    have h0 : (0xffffffff : UInt32).toNat = 2 ^ 32 - 1 := by decide
    omega
  have hlong : 0x7fffffff ≤ UInt32.ofNat val.length ↔ ¬Short val := by
    rw [UInt32.le_iff_toNat_le, hlen, Nat.not_lt]
    rfl
  rw [encodeString, List.append_assoc] at h
  have hrest := drop_append_length h
  have hle := length_of_drop h (by simp [encodeUint32])
  rw [Buffer.length_encodeUint32, List.length_append] at hle
  rw [Buffer.length_encodeUint32] at hrest
  rw [getByteArray, getUint32_of_drop h, Option.bind_some]
  dsimp only
  rw [if_neg hne, hlen]
  by_cases hshort : Short val
  case pos =>
    rw [if_neg fun hle => hlong.mp hle hshort, if_neg (by omega), hrest, List.take_left, if_pos hshort, encodeString, List.length_append,
      Buffer.length_encodeUint32, Nat.add_assoc]
  case neg => rw [if_pos (hlong.mpr hshort), if_neg hshort]

-- A string is read like a byte array, and must have no NUL.
theorem getString_eq (buffer : Bytes) (offset : Nat) :
    getString buffer offset = (getByteArray buffer offset).bind fun (str, offset) =>
      if 0 ∈ str.getD [] then none else some (str, offset) := by
  rw [getString, getByteArray]
  cases getUint32 buffer offset with
  | none   => rfl
  | some v =>
    dsimp only [Option.bind]
    split
    case isTrue => rfl
    case isFalse =>
      split
      case isTrue => rfl
      case isFalse =>
        split
        case isTrue  => rfl
        case isFalse => rfl

-- The strings of a packet end where their bytes say, so they can be read back.
theorem encodeString_append_inj (h : encodeString val ++ data = encodeString val' ++ data') (hval : val.length < 2 ^ 32)
    (hval' : val'.length < 2 ^ 32) : val = val' ∧ data = data' := by
  rw [encodeString, encodeString, List.append_assoc, List.append_assoc] at h
  obtain ⟨hlen, h⟩ := List.append_inj h rfl
  have hdecode := congrArg decodeUint32 hlen
  rw [decodeUint32_encode, decodeUint32_encode] at hdecode
  have heq := congrArg UInt32.toNat hdecode
  rw [toNat_length hval, toNat_length hval'] at heq
  exact List.append_inj h heq

theorem four_le_encodeString (val : Bytes) : 4 + val.length ≤ (encodeString val).length := by
  rw [encodeString, List.length_append, Buffer.length_encodeUint32]

theorem length_le_payload {str : Bytes} (h : str ∈ strs) : 4 + str.length ≤ (strs.flatMap encodeString).length := by
  induction strs with
  | nil => cases h
  | cons s strs ih =>
    rw [List.flatMap_cons, List.length_append]
    cases h with
    | head   => exact Nat.le_trans (four_le_encodeString str) (Nat.le_add_right _ _)
    | tail _ h => exact Nat.le_trans (ih h) (Nat.le_add_left _ _)

theorem flatMap_encodeString_inj (h : strs.flatMap encodeString = strs'.flatMap encodeString)
    (hlt : (strs.flatMap encodeString).length < 2 ^ 32) : strs = strs' := by
  induction strs generalizing strs' with
  | nil =>
    cases strs' with
    | nil         => rfl
    | cons s strs' =>
      have hle := four_le_encodeString s
      have hlen := congrArg List.length h
      rw [List.flatMap_nil, List.flatMap_cons, List.length_append, List.length_nil] at hlen
      omega
  | cons s strs ih =>
    have hs := length_le_payload (List.mem_cons_self (a := s) (l := strs))
    cases strs' with
    | nil =>
      have hlen := congrArg List.length h
      rw [List.flatMap_nil, List.length_nil] at hlen
      omega
    | cons s' strs' =>
      have hs' := length_le_payload (List.mem_cons_self (a := s') (l := strs'))
      rw [← h] at hs'
      rw [List.flatMap_cons, List.flatMap_cons] at h
      obtain ⟨rfl, htail⟩ := encodeString_append_inj h (by omega) (by omega)
      rw [List.flatMap_cons, List.length_append] at hlt
      rw [ih htail (by omega)]

theorem packet_inj (h : packet len count data = packet len' count' data') : len = len' ∧ count = count' ∧ data = data' := by
  obtain ⟨hlen, h⟩ := List.append_inj h rfl
  obtain ⟨hcount, hdata⟩ := List.append_inj (List.cons.inj h).2 rfl
  have hdecode := congrArg decodeUint32 hlen
  have hdecode' := congrArg decodeUint32 hcount
  rw [decodeUint32_encode, decodeUint32_encode] at hdecode hdecode'
  exact ⟨hdecode, hdecode', hdata⟩

theorem strings_cons (id : Bytes × Bytes) (ids : List (Bytes × Bytes)) : strings (id :: ids) = id.1 :: id.2 :: strings ids :=
  rfl

theorem strings_append (ids ids' : List (Bytes × Bytes)) : strings (ids ++ ids') = strings ids ++ strings ids' :=
  List.flatMap_append

theorem payload_append (ids ids' : List (Bytes × Bytes)) : payload (ids ++ ids') = payload ids ++ payload ids' := by
  rw [payload, strings_append, List.flatMap_append]
  rfl

theorem length_strings (ids : List (Bytes × Bytes)) : (strings ids).length = 2 * ids.length := by
  induction ids with
  | nil => rfl
  | cons id ids ih =>
    rw [strings_cons, List.length_cons, List.length_cons, List.length_cons, ih]
    omega

theorem strings_inj (h : strings ids = strings ids') : ids = ids' := by
  induction ids generalizing ids' with
  | nil =>
    cases ids' with
    | nil  => rfl
    | cons => cases h
  | cons id ids ih =>
    cases ids' with
    | nil => cases h
    | cons id' ids' =>
      rw [strings_cons, strings_cons] at h
      injection h with hblob h
      injection h with hcomment h
      rw [ih h, Prod.ext hblob hcomment]

theorem length_le_length_payload (ids : List (Bytes × Bytes)) : ids.length ≤ (payload ids).length := by
  induction ids with
  | nil => exact Nat.le_refl _
  | cons id ids ih =>
    have hle := four_le_encodeString id.1
    rw [payload, strings_cons, List.flatMap_cons, List.flatMap_cons, List.length_append, List.length_append, List.length_cons]
    rw [payload] at ih
    omega

-- A packet is that of one answer only.
theorem IdentitiesAnswer.bytes_inj {answer' : IdentitiesAnswer} (h : answer.bytes = answer'.bytes) :
    answer.ids = answer'.ids := by
  have hfits := answer.fits
  obtain ⟨-, -, hdata⟩ := packet_inj h
  exact strings_inj (flatMap_encodeString_inj hdata (by rw [payload] at hfits; omega))

theorem IdentitiesAnswer.count_toNat (answer : IdentitiesAnswer) :
    (UInt32.ofNat answer.ids.length).toNat = answer.ids.length := by
  have hfits := answer.fits
  have hle := length_le_length_payload answer.ids
  exact UInt32.toNat_ofNat_of_lt' (show _ < 2 ^ 32 by omega)

end Lemmas

section Parse

variable {buffer rest : Bytes} {offset : Nat} {ids : List (Bytes × Bytes)} {answer : IdentitiesAnswer}

theorem getString_of_drop {str : Bytes} (h : buffer.drop offset = encodeString str ++ rest) (hlt : str.length < 2 ^ 32 - 1) :
    getString buffer offset = if Short str ∧ 0 ∉ str then some (some str, offset + (encodeString str).length) else none := by
  rw [getString_eq, getByteArray_of_drop h hlt]
  by_cases hshort : Short str
  case neg => rw [if_neg hshort, if_neg fun hand => hshort hand.1, Option.bind_none]
  case pos =>
    rw [if_pos hshort, Option.bind_some]
    dsimp only [Option.getD_some]
    by_cases hnul : 0 ∈ str
    case pos => rw [if_pos hnul, if_neg fun hand => hand.2 hnul]
    case neg => rw [if_neg hnul, if_pos ⟨hshort, hnul⟩]

-- The keys of the answer are all read, or none is.
theorem parseIdentities_of_drop (h : buffer.drop offset = payload ids ++ rest) (hlt : (payload ids).length < 2 ^ 32 - 1) :
    parseIdentities buffer offset ids.length = if ∀ id ∈ ids, Readable id then some (ids.map Prod.fst) else none := by
  induction ids generalizing offset with
  | nil => rw [if_pos (List.forall_mem_nil _)]; rfl
  | cons id ids ih =>
    have hcons : payload (id :: ids) = encodeString id.1 ++ (encodeString id.2 ++ payload ids) := rfl
    have hblob := four_le_encodeString id.1
    have hcomment := four_le_encodeString id.2
    rw [hcons, List.length_append, List.length_append] at hlt
    rw [hcons, List.append_assoc, List.append_assoc] at h
    have h' := drop_append_length h
    rw [List.length_cons, parseIdentities, getByteArray_of_drop h (by omega)]
    by_cases hshort : Short id.1
    case neg =>
      have hnot : ¬∀ i ∈ id :: ids, Readable i := fun hall => hshort (hall id List.mem_cons_self).1
      rw [if_neg hshort, if_neg hnot, Option.bind_none]
    case pos =>
      rw [if_pos hshort, Option.bind_some]
      dsimp only
      rw [getString_of_drop h' (by omega)]
      by_cases hread : Short id.2 ∧ 0 ∉ id.2
      case neg =>
        have hnot : ¬∀ i ∈ id :: ids, Readable i := fun hall => hread (hall id List.mem_cons_self).2
        rw [if_neg hread, if_neg hnot, Option.bind_none]
      case pos =>
        rw [if_pos hread, Option.bind_some]
        dsimp only
        rw [ih (drop_append_length h') (by omega)]
        by_cases hall : ∀ i ∈ ids, Readable i
        case pos => rw [if_pos hall, if_pos (List.forall_mem_cons.mpr ⟨⟨hshort, hread⟩, hall⟩)]; rfl
        case neg => rw [if_neg hall, if_neg fun hcons => hall (List.forall_mem_cons.mp hcons).2]; rfl

theorem parseIdentitiesAnswer_bytes (answer : IdentitiesAnswer) :
    parseIdentitiesAnswer answer.bytes = if ∀ id ∈ answer.ids, Readable id then some answer.blobs else none := by
  have hfits := answer.fits
  have hcount : answer.bytes.drop 5 = encodeUint32 (UInt32.ofNat answer.ids.length) ++ payload answer.ids := rfl
  have hdata : answer.bytes.drop 9 = payload answer.ids ++ [] := by
    rw [List.append_nil]
    rfl
  have hop : getByte answer.bytes 4 = some (12, 5) := rfl
  rw [parseIdentitiesAnswer, hop, Option.bind_some]
  dsimp only
  rw [if_neg (by decide), getUint32_of_drop hcount, Option.bind_some]
  dsimp only
  rw [answer.count_toNat, parseIdentities_of_drop hdata (by omega)]
  rfl

end Parse

section Add

variable {resp buffer rest data : Bytes} {val : UInt32} {len count : UInt32} {infos : List KeyInfo} {answer : List Bytes}

-- What is added of the strings: those that are short.
def added (strs : List Bytes) : Bytes :=
  (strs.filter Short).flatMap encodeString

theorem addByteArray_eq (buffer str : Bytes) : addByteArray buffer str = buffer ++ added [str] := by
  rw [addByteArray, added]
  by_cases hshort : Short str
  case pos =>
    rw [if_neg (Nat.not_le_of_lt hshort), List.filter_cons_of_pos (by simpa using hshort), List.filter_nil, List.flatMap_singleton,
      encodeString, List.append_assoc]
  case neg =>
    rw [if_pos (Nat.le_of_not_lt hshort), List.filter_cons_of_neg (by simpa using hshort), List.filter_nil, List.flatMap_nil,
      List.append_nil]

theorem added_append (strs strs' : List Bytes) : added (strs ++ strs') = added strs ++ added strs' := by
  rw [added, List.filter_append, List.flatMap_append]
  rfl

theorem addPreloaded_eq (answer : List Bytes) (infos : List KeyInfo) (resp : Bytes) (n : UInt32) :
    addPreloaded answer infos (resp, n) =
      (resp ++ added (strings (missing answer infos)), n + UInt32.ofNat (missing answer infos).length) := by
  induction infos generalizing resp n with
  | nil => simp [addPreloaded, missing, strings, added]
  | cons info infos ih =>
    rw [addPreloaded]
    by_cases hmem : info.publicKey ∈ answer
    case pos =>
      have hmissing : missing answer (info :: infos) = missing answer infos := by
        rw [missing, List.filter_cons_of_neg (by simpa using hmem)]
        rfl
      rw [if_pos hmem, ih, hmissing]
    case neg =>
      have hmissing : missing answer (info :: infos) = (info.publicKey, cstr info.comment) :: missing answer infos := by
        rw [missing, List.filter_cons_of_pos (by simpa using hmem)]
        rfl
      have hstrings : strings (missing answer (info :: infos)) =
          [info.publicKey] ++ ([cstr info.comment] ++ strings (missing answer infos)) := by
        rw [hmissing]
        rfl
      rw [if_neg hmem, ih, addString, addByteArray_eq, addByteArray_eq, hstrings, added_append, added_append,
        List.append_assoc, List.append_assoc, hmissing, List.length_cons, Nat.add_comm, UInt32.ofNat_add, UInt32.add_assoc]
      rfl

theorem setUint32_count : setUint32 (packet len count data) 5 val = packet len val data := by
  have hlen : (packet len count data).length = 9 + data.length := by
    simp [packet, Buffer.length_encodeUint32]
    omega
  rw [setUint32, if_neg (by omega)]
  rfl

theorem setUint32_len : setUint32 (packet len count data) 0 val = packet val count data := by
  have hlen : (packet len count data).length = 9 + data.length := by
    simp [packet, Buffer.length_encodeUint32]
    omega
  rw [setUint32, if_neg (by omega)]
  rfl

end Add

section Merge

variable {answer : IdentitiesAnswer} {keys : PreloadedKeys} {resp : Bytes}

-- The bytes behind the count: those of the answer and what is added of the preloaded keys.
def mergedData (answer : IdentitiesAnswer) (infos : List KeyInfo) : Bytes :=
  payload answer.ids ++ added (strings (missing answer.blobs infos))

theorem opRequestIdentities_readable (h : ∀ id ∈ answer.ids, Readable id) (infos : List KeyInfo) :
    opRequestIdentities answer.bytes infos = packet (UInt32.ofNat (5 + (mergedData answer infos).length))
      (UInt32.ofNat ((missing answer.blobs infos).length + answer.blobs.toFinset.card)) (mergedData answer infos) := by
  have happend (len count : UInt32) (data rest : Bytes) : packet len count data ++ rest = packet len count (data ++ rest) := by
    simp only [packet, List.append_assoc, List.cons_append]
  have hlen (len count : UInt32) (data : Bytes) : (packet len count data).length - 4 = 5 + data.length := by
    simp only [packet, List.length_append, List.length_cons, Buffer.length_encodeUint32]
    omega
  rw [opRequestIdentities, parseIdentitiesAnswer_bytes, if_pos h]
  dsimp only
  rw [addPreloaded_eq, IdentitiesAnswer.bytes, happend]
  dsimp only
  rw [setUint32_count, setUint32_len, hlen, UInt32.zero_add, ← UInt32.ofNat_add]
  rfl

theorem opRequestIdentities_unreadable (h : ¬∀ id ∈ answer.ids, Readable id) (infos : List KeyInfo) :
    opRequestIdentities answer.bytes infos = answer.bytes := by
  rw [opRequestIdentities, parseIdentitiesAnswer_bytes, if_neg h]

theorem mem_missing (answer : List Bytes) (infos : List KeyInfo) (blob : Bytes) :
    blob ∈ (missing answer infos).map Prod.fst ↔ blob ∉ answer ∧ ∃ info ∈ infos, info.publicKey = blob := by
  simp only [missing, List.map_map, List.mem_map, List.mem_filter, decide_eq_true_eq, Function.comp_apply]
  constructor
  case mp =>
    rintro ⟨info, ⟨hmem, hnot⟩, rfl⟩
    exact ⟨hnot, info, hmem, rfl⟩
  case mpr =>
    rintro ⟨hnot, info, hmem, rfl⟩
    exact ⟨info, ⟨hmem, hnot⟩, rfl⟩

theorem nodup_missing (answer : List Bytes) (keys : PreloadedKeys) : ((missing answer keys.infos).map Prod.fst).Nodup := by
  rw [missing, List.map_map]
  exact keys.nodup.sublist (List.filter_sublist.map _)

-- There is no other list of the keys that are missing, up to their order.
theorem length_rest {rest : List Bytes} (hnodup : rest.Nodup)
    (hmem : ∀ blob, blob ∈ rest ↔ blob ∉ answer.blobs ∧ ∃ info ∈ keys.infos, info.publicKey = blob) :
    rest.length = (missing answer.blobs keys.infos).length := by
  have hperm : rest.Perm ((missing answer.blobs keys.infos).map Prod.fst) :=
    (List.perm_ext_iff_of_nodup hnodup (nodup_missing _ _)).mpr fun blob => (hmem blob).trans (mem_missing _ _ _).symm
  rw [hperm.length_eq, List.length_map]

theorem nodup_of_card {blobs : List Bytes} (h : blobs.toFinset.card = blobs.length) : blobs.Nodup := by
  rw [List.card_toFinset] at h
  exact List.dedup_eq_self.mp ((List.dedup_sublist blobs).eq_of_length h)

theorem Merged.mergeable (h : Merged answer keys (opRequestIdentities answer.bytes keys.infos)) : Mergeable answer keys := by
  obtain ⟨merged, rest, hbytes, hblobs, hnodup, hmem⟩ := h
  have hrest := length_rest hnodup hmem
  have hlen := congrArg List.length hblobs
  rw [List.length_append, IdentitiesAnswer.blobs, IdentitiesAnswer.blobs, List.length_map, List.length_map, hrest] at hlen
  rw [Mergeable]
  split
  case isTrue hreadable =>
    rw [opRequestIdentities_readable hreadable] at hbytes
    obtain ⟨-, hcount, hdata⟩ := packet_inj hbytes
    have hfits := merged.fits
    rw [mergedData, payload, added, ← List.flatMap_append] at hdata
    -- The strings of the packet are those of the answer and the short ones of the preloaded keys.
    have hstrings := flatMap_encodeString_inj hdata (by rw [hdata]; omega)
    have hshort := congrArg List.length hstrings
    rw [List.length_append, length_strings, length_strings] at hshort
    have hall : ∀ str ∈ strings (missing answer.blobs keys.infos), decide (Short str) = true := by
      refine List.length_filter_eq_length_iff.mp ?_
      rw [length_strings]
      omega
    refine ⟨nodup_of_card ?_, fun str hstr => of_decide_eq_true (hall str hstr), ?_⟩
    · have hle := List.toFinset_card_le answer.blobs
      have hblobsLen : answer.blobs.length = answer.ids.length := List.length_map _
      have hmerged := merged.count_toNat
      have hlt : merged.ids.length < 2 ^ 32 := hmerged ▸ UInt32.toNat_lt _
      rw [← hcount, UInt32.toNat_ofNat_of_lt' (show _ < 2 ^ 32 by omega)] at hmerged
      omega
    · rw [List.filter_eq_self.mpr hall, ← strings_append] at hstrings
      rw [strings_inj hstrings]
      exact hfits
  case isFalse hreadable =>
    rw [opRequestIdentities_unreadable hreadable] at hbytes
    rw [← IdentitiesAnswer.bytes_inj hbytes] at hlen
    exact List.length_eq_zero_iff.mp (by omega)

theorem Mergeable.merged (h : Mergeable answer keys) : Merged answer keys (opRequestIdentities answer.bytes keys.infos) := by
  rw [Mergeable] at h
  split at h
  case isTrue hreadable =>
    obtain ⟨hnodup, hshort, hfits⟩ := h
    refine ⟨⟨_, hfits⟩, (missing answer.blobs keys.infos).map Prod.fst, ?_, List.map_append, nodup_missing _ _, mem_missing _ _⟩
    have hdata : mergedData answer keys.infos = payload (answer.ids ++ missing answer.blobs keys.infos) := by
      rw [mergedData, added, List.filter_eq_self.mpr fun str hstr => decide_eq_true (hshort str hstr), payload_append]
      rfl
    have hcount : (missing answer.blobs keys.infos).length + answer.blobs.toFinset.card =
        (answer.ids ++ missing answer.blobs keys.infos).length := by
      rw [List.toFinset_card_of_nodup hnodup, List.length_append, Nat.add_comm, IdentitiesAnswer.blobs, List.length_map]
    rw [opRequestIdentities_readable hreadable, hdata, hcount]
    rfl
  case isFalse hreadable =>
    rw [opRequestIdentities_unreadable hreadable]
    refine ⟨answer, [], rfl, (List.append_nil _).symm, List.nodup_nil, fun blob => ?_⟩
    rw [← mem_missing, h]
    rfl

-- The packet is that of the merged keys exactly when the agent lists no key twice and the lengths are not too large.
theorem opRequestIdentities_merged_iff (answer : IdentitiesAnswer) (keys : PreloadedKeys) :
    Merged answer keys (opRequestIdentities answer.bytes keys.infos) ↔ Mergeable answer keys :=
  ⟨Merged.mergeable, Mergeable.merged⟩

-- An agent that lists a key twice.
def twice : IdentitiesAnswer where
  ids  := [([0], []), ([0], [])]
  fits := by decide

theorem not_merged_twice :
    ¬∀ (answer : IdentitiesAnswer) (keys : PreloadedKeys), Merged answer keys (opRequestIdentities answer.bytes keys.infos) := by
  intro h
  have hmergeable := (h twice ⟨[], List.nodup_nil⟩).mergeable
  rw [Mergeable, if_pos (by decide)] at hmergeable
  exact absurd hmergeable.1 (by decide)

end Merge

end SshAgent
