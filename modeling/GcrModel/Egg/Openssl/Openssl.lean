import GcrModel.Egg.Hex.Theorems.Codec
import GcrModel.Egg.Symkey.Theorems.Pbkdf2
import GcrModel.Library.Table

-- egg-openssl.c: the encryption of PEM data that OpenSSL has, with the cipher and the IV in a header.
namespace Openssl

open GLib

inductive Algo
  | des
  | tripleDes
  | arcfour
  | idea
  | blowfish
  | cast5
  | aes128
  | aes192
  | aes256
  deriving DecidableEq, Repr

inductive Mode
  | ecb
  | cfb
  | stream
  | ofb
  | cbc
  | ctr
  deriving DecidableEq, Repr

def name (desc : String) : Bytes :=
  ascii desc.toList

def opensslAlgos : List (Bytes × Algo × Mode) := [
  (name "DES-ECB", .des, .ecb),
  (name "DES-CFB64", .des, .cfb),
  (name "DES-CFB", .des, .cfb),
  (name "DES-EDE3-ECB", .tripleDes, .ecb),
  (name "DES-EDE3-CFB64", .tripleDes, .cfb),
  (name "DES-EDE3-CFB", .tripleDes, .cfb),
  (name "DES-OFB", .des, .ofb),
  (name "DES-EDE3-OFB", .tripleDes, .ofb),
  (name "DES-CBC", .des, .cbc),
  (name "DES-EDE3-CBC", .tripleDes, .cbc),
  (name "RC4", .arcfour, .stream),
  (name "RC4-40", .arcfour, .stream),
  (name "IDEA-ECB", .idea, .ecb),
  (name "IDEA-CFB64", .idea, .cfb),
  (name "IDEA-OFB", .idea, .ofb),
  (name "IDEA-CBC", .idea, .cbc),
  (name "BF-ECB", .blowfish, .ecb),
  (name "BF-CBC", .blowfish, .cbc),
  (name "BF-CFB64", .blowfish, .cfb),
  (name "BF-CFB", .blowfish, .cfb),
  (name "BF-OFB", .blowfish, .ofb),
  (name "CAST5-ECB", .cast5, .ecb),
  (name "CAST5-CBC", .cast5, .cbc),
  (name "CAST5-CFB64", .cast5, .cfb),
  (name "CAST5-CFB", .cast5, .cfb),
  (name "CAST5-OFB", .cast5, .ofb),
  (name "AES-128-ECB", .aes128, .ecb),
  (name "AES-128-CBC", .aes128, .cbc),
  (name "AES-128-CFB128", .aes128, .cfb),
  (name "AES-128-CFB", .aes128, .cfb),
  (name "AES-128-OFB", .aes128, .ofb),
  (name "AES-128-CTR", .aes128, .ctr),
  (name "AES-192-ECB", .aes192, .ecb),
  (name "AES-192-CBC", .aes192, .cbc),
  (name "AES-192-CFB128", .aes192, .cfb),
  (name "AES-192-CFB", .aes192, .cfb),
  (name "AES-192-OFB", .aes192, .ofb),
  (name "AES-192-CTR", .aes192, .ctr),
  (name "AES-256-ECB", .aes256, .ecb),
  (name "AES-256-CBC", .aes256, .cbc),
  (name "AES-256-CFB128", .aes256, .cfb),
  (name "AES-256-CFB", .aes256, .cfb),
  (name "AES-256-OFB", .aes256, .ofb),
  (name "AES-256-CTR", .aes256, .ctr)]

-- There is no algorithm where 0 is returned.
def eggOpensslParseAlgo (desc : Bytes) : Option (Algo × Mode) :=
  (opensslAlgos.find? (·.1 = desc)).map (·.2)

-- libgcrypt. What is encrypted depends on what the handle encrypted before.
structure Gcrypt where
  testAlgo   : Algo → Bool
  blklen     : Algo → Nat
  keylen     : Algo → Nat
  md5        : Symkey.Digest
  cipherOpen : Algo → Mode → Bool
  setkey     : Algo → Bytes → Bool
  setiv      : Algo → Mode → Bytes → Bool
  encrypt    : Algo → Mode → (key iv before : Bytes) → Bytes → Option Bytes
  decrypt    : Algo → Mode → (key iv : Bytes) → Bytes → Option Bytes

-- What a function with checks of its arguments comes to. NULL is returned for a failure, and where there is nothing to
-- allocate. What is written to NULL is an overrun.
inductive Outcome
  | returns (result : Option Bytes)
  | check
  | overrun
  deriving DecidableEq, Repr

variable (lib : Gcrypt)

def parseDekinfo (dek : CString) : Option (Algo × Mode × Bytes) :=
  match dek.bytes.dropWhile (· ≠ 44) with
  | []        => none
  | _ :: part =>
    -- Parse the algorithm name
    (eggOpensslParseAlgo (dek.bytes.takeWhile (· ≠ 44))).bind fun (algo, mode) =>
      -- Make sure this is usable
      if lib.testAlgo algo = false then none
      else
        -- Parse the IV
        (Hex.eggHexDecodeFull part part.length none 1).bind fun iv =>
          if lib.blklen algo ≠ iv.length then none else some (algo, mode, iv)

-- `egg_symkey_generate_simple`, in which a pass gets at least one byte of what is needed.
def generateKey (algo : Algo) (password : Option Bytes) (iv : Bytes) : Option Bytes :=
  match Symkey.eggSymkeyGenerateSimple (lib.keylen algo + lib.blklen algo + 1) lib.md5 (lib.keylen algo) (lib.blklen algo)
      password (some (iv.take 8)) 1 true false with
  | some (some (key, _)) => key
  | _                    => none

def eggOpensslDecryptBlock (dekinfo : CString) (password : Option Bytes) (data : Bytes) : Outcome :=
  match parseDekinfo lib dekinfo with
  | none                  => .returns none
  | some (algo, mode, iv) =>
    -- We assume the iv is at least as long as at 8 byte salt
    if lib.blklen algo < 8 then .check
    else
      -- IV is already set from the DEK info
      match generateKey lib algo password iv with
      | none     => .returns none
      | some key =>
        if lib.cipherOpen algo mode = false ∨ lib.setkey algo key = false ∨ lib.setiv algo mode iv = false then .check
        else
          match lib.decrypt algo mode key iv data with
          | none           => .check
          | some decrypted =>
            -- The output area is secure memory.
            if data = [] then .returns none
            else if secureLimit < data.length then .overrun
            else .returns (some decrypted)

def eggOpensslEncryptBlock (dekinfo : CString) (password : Option Bytes) (data : Bytes) : Outcome :=
  match parseDekinfo lib dekinfo with
  | none                  => .check
  | some (algo, mode, iv) =>
    let ivlen := lib.blklen algo
    -- We assume the iv is at least as long as at 8 byte salt
    if ivlen < 8 then .check
    else
      match generateKey lib algo password iv with
      | none     => .check
      | some key =>
        if lib.cipherOpen algo mode = false ∨ lib.setkey algo key = false ∨ lib.setiv algo mode iv = false then .check
        else
          let nOverflow := data.length % ivlen
          let nPadding := if nOverflow ≠ 0 then ivlen - nOverflow else 0
          let nBatch := data.length - nOverflow
          -- Encrypt everything but the last bit
          match lib.encrypt algo mode key iv [] (data.take nBatch) with
          | none           => .check
          | some encrypted =>
            if nOverflow ≠ 0 then
              -- Encrypt the padded block
              match lib.encrypt algo mode key iv (data.take nBatch) (data.drop nBatch ++ List.replicate nPadding 0) with
              | none      => .check
              | some last => .returns (some (encrypted ++ last))
            else if data = [] then .returns none
            else .returns (some encrypted)

def procType : Bytes := name "Proc-Type"
def dekInfo : Bytes := name "DEK-Info"

-- The nonce has the length of a block of GCRY_CIPHER_3DES.
def eggOpensslPrepDekinfo (iv : Bytes) (headers : Table Bytes Bytes) : Bytes × Table Bytes Bytes :=
  let dekinfo := name "DES-EDE3-CBC," ++ Hex.eggHexEncodeFull iv true none 0
  (dekinfo, Function.update (Function.update headers dekInfo (some dekinfo)) procType (some (name "4,ENCRYPTED")))

section Laws

-- The modes that are about whole blocks.
def Mode.whole : Mode → Bool
  | ecb    => true
  | cbc    => true
  | cfb    => false
  | stream => false
  | ofb    => false
  | ctr    => false

-- A handle with its key and its IV.
structure Gcrypt.Ready (algo : Algo) (mode : Mode) (key iv : Bytes) : Prop where
  opened : lib.cipherOpen algo mode = true
  keyed  : lib.setkey algo key = true
  setiv  : lib.setiv algo mode iv = true

-- What is promised of libgcrypt. A key is not taken if it is weak, which is up to the cipher.
structure Gcrypt.Lawful : Prop where
  tripleDes : lib.testAlgo .tripleDes = true
  keylen {algo} : lib.testAlgo algo = true → 0 < lib.keylen algo
  opens {desc algo mode} : lib.testAlgo algo = true → (desc, algo, mode) ∈ opensslAlgos → lib.cipherOpen algo mode = true
  sets {algo mode iv} : iv.length = lib.blklen algo → lib.setiv algo mode iv = true
  encrypts {algo mode key iv before data} : lib.Ready algo mode key iv → before.length % lib.blklen algo = 0 →
    data.length % lib.blklen algo = 0 → ∃ out, lib.encrypt algo mode key iv before data = some out ∧ out.length = data.length
  decrypts {algo mode key iv data} : lib.Ready algo mode key iv →
    ((lib.decrypt algo mode key iv data).isSome ↔ (mode.whole = true → data.length % lib.blklen algo = 0))
  chained {algo mode key iv a b c d} : lib.Ready algo mode key iv → lib.encrypt algo mode key iv [] a = some c →
    lib.encrypt algo mode key iv a b = some d → lib.decrypt algo mode key iv (c ++ d) = some (a ++ b)

-- The key that comes of the password and the salt.
def derivedKey (algo : Algo) (password : Option Bytes) (iv : Bytes) : Bytes :=
  (Symkey.material lib.md5 password (some (iv.take 8)) 1 (lib.keylen algo + lib.blklen algo)).take (lib.keylen algo)

-- What is expected of the functions for a header, a password, data to encrypt and data to decrypt.
structure Meets (dek : CString) (password : Option Bytes) (plain cipher : Bytes) : Prop where
  roundTrip {algo mode iv} : parseDekinfo lib dek = some (algo, mode, iv) → 8 ≤ lib.blklen algo →
    ∃ encrypted n, eggOpensslEncryptBlock lib dek password plain = .returns (some encrypted) ∧
      eggOpensslDecryptBlock lib dek password encrypted = .returns (some (plain ++ List.replicate n 0)) ∧
      n < lib.blklen algo ∧ (plain.length + n) % lib.blklen algo = 0
  prepared {iv} (headers : Table Bytes Bytes) : iv.length = lib.blklen .tripleDes →
    ∃ dek', dek'.bytes = (eggOpensslPrepDekinfo iv headers).1 ∧ parseDekinfo lib dek' = some (.tripleDes, .cbc, iv)
  decrypted : ∃ result, eggOpensslDecryptBlock lib dek password cipher = .returns result ∧
    ∀ text ∈ result, ∃ algo mode iv, parseDekinfo lib dek = some (algo, mode, iv) ∧
      lib.decrypt algo mode (derivedKey lib algo password iv) iv cipher = some text

def padding (blklen n : Nat) : Nat :=
  if n % blklen ≠ 0 then blklen - n % blklen else 0

-- When the functions do so: if the header is one of a cipher with large blocks that takes the key, there is something to
-- encrypt, the data to decrypt are whole blocks where the mode needs them, and neither is too large for secure memory.
structure Suits (password : Option Bytes) (plain cipher : Bytes) (algo : Algo) (mode : Mode) (iv : Bytes) :
    Prop where
  block       : 8 ≤ lib.blklen algo
  key         : lib.setkey algo (derivedKey lib algo password iv) = true
  nonempty    : plain ≠ []
  plainLimit  : plain.length + padding (lib.blklen algo) plain.length ≤ secureLimit
  whole       : mode.whole = true → cipher.length % lib.blklen algo = 0
  cipherLimit : cipher.length ≤ secureLimit

end Laws

section Key

variable {lib} {algo : Algo}

-- Each pass leaves less to do.
theorem passRound_lt {md : Symkey.Digest} {password salt : Option Bytes} (s t : Symkey.Simple)
    (h : Loop.Next (Symkey.passRound md password salt 1) s t) : t.neededKey + t.neededIv < s.neededKey + s.neededIv := by
  have hpos := md.pos
  rw [Loop.Next, Symkey.passRound] at h
  simp only [Symkey.copy_eq, Nat.sub_self, Function.iterate_zero_apply] at h
  split at h
  case isTrue => cases h
  case isFalse hmore =>
    cases h
    simp only [List.length_drop, md.length] at hmore ⊢
    omega

theorem generateKey_eq (h : lib.Lawful) (htest : lib.testAlgo algo = true) (password : Option Bytes) (iv : Bytes) :
    generateKey lib algo password iv = some (derivedKey lib algo password iv) := by
  have hkeylen : lib.keylen algo ≠ 0 := Nat.ne_of_gt (h.keylen htest)
  obtain ⟨fuel, hrun⟩ := @Symkey.eggSymkeyGenerateSimple_eq lib.md5 (lib.keylen algo) (lib.blklen algo) password
    (some (iv.take 8)) 1 (Int.le_refl 1) true (fun _ => hkeylen) false
  obtain ⟨r, hend⟩ := Loop.run_of_measure (fun s : Symkey.Simple => s.neededKey + s.neededIv)
    (@passRound_lt lib.md5 password (some (iv.take 8))) ⟨none, some [], none, lib.keylen algo, lib.blklen algo⟩
  have hfuel (n : Nat) : Symkey.eggSymkeyGenerateSimple n lib.md5 (lib.keylen algo) (lib.blklen algo) password
      (some (iv.take 8)) 1 true false = (Loop.run (Symkey.passRound lib.md5 password (some (iv.take 8)) 1) n
        ⟨none, some [], none, lib.keylen algo, lib.blklen algo⟩).map some := by
    rw [Symkey.eggSymkeyGenerateSimple, if_neg (by decide), if_neg fun hand => hkeylen hand.2]
    rfl
  rw [hfuel, Option.map_eq_some_iff] at hrun
  obtain ⟨r', hrun', hr'⟩ := hrun
  cases hr'
  rw [generateKey, hfuel, hend, Loop.run_unique hend hrun']
  rfl

end Key

section Header

variable {lib} {algo : Algo} {mode : Mode} {iv : Bytes} {dek : CString}

-- What is known of a header that is accepted.
theorem parseDekinfo_spec (h : parseDekinfo lib dek = some (algo, mode, iv)) :
    lib.testAlgo algo = true ∧ iv.length = lib.blklen algo ∧ ∃ desc, (desc, algo, mode) ∈ opensslAlgos := by
  rw [parseDekinfo] at h
  split at h
  case h_1 => cases h
  case h_2 part _ =>
    obtain ⟨⟨algo', mode'⟩, hparse, h⟩ := Option.bind_eq_some_iff.mp h
    dsimp only at h
    split at h
    case isTrue => cases h
    case isFalse htest =>
      obtain ⟨iv', -, h⟩ := Option.bind_eq_some_iff.mp h
      split at h
      case isTrue => cases h
      case isFalse hlen =>
        cases h
        obtain ⟨⟨desc, _, _⟩, hfind, heq⟩ := Option.map_eq_some_iff.mp hparse
        cases heq
        exact ⟨Bool.eq_true_of_not_eq_false htest, (Classical.not_not.mp hlen).symm, desc, List.mem_of_find?_eq_some hfind⟩

theorem encodeFrom_zero (upperCase : Bool) (k : Nat) (data : Bytes) :
    Hex.encodeFrom upperCase none 0 k data = Hex.encodeFrom upperCase none 1 k data := by
  induction data generalizing k with
  | nil => rfl
  | cons c data ih => rw [Hex.encodeFrom, Hex.encodeFrom, ih]

-- The header that is made is that of its IV.
theorem prepared (h : lib.Lawful) (headers : Table Bytes Bytes) (hiv : iv.length = lib.blklen .tripleDes) :
    ∃ dek', dek'.bytes = (eggOpensslPrepDekinfo iv headers).1 ∧ parseDekinfo lib dek' = some (.tripleDes, .cbc, iv) := by
  have htext : Hex.HexText none 1 (Hex.eggHexEncodeFull iv true none 1) iv := Hex.hexText_encode (Nat.le_refl 1) iv true none
  have hencode : Hex.eggHexEncodeFull iv true none 0 = Hex.eggHexEncodeFull iv true none 1 := encodeFrom_zero true 0 iv
  have hclean := htext.isClean (Nat.le_refl 1)
  rw [← hencode] at htext hclean
  generalize htail : Hex.eggHexEncodeFull iv true none 0 = part at htext hclean
  have hnul : 0 ∉ name "DES-EDE3-CBC," ++ part := by
    rw [List.mem_append]
    exact not_or.mpr ⟨by decide, hclean.nul⟩
  have hdecode : Hex.eggHexDecodeFull part part.length none 1 = some iv := by
    rw [Hex.eggHexDecodeFull_eq_some_iff (Nat.le_refl 1), Hex.text, if_neg (by omega), Int.toNat_natCast, List.take_length]
    exact htext.lax
  have hdrop : (name "DES-EDE3-CBC," ++ part).dropWhile (· ≠ 44) = 44 :: part := rfl
  have htake : (name "DES-EDE3-CBC," ++ part).takeWhile (· ≠ 44) = name "DES-EDE3-CBC" := rfl
  have hparse : eggOpensslParseAlgo (name "DES-EDE3-CBC") = some (.tripleDes, .cbc) := by decide
  refine ⟨⟨name "DES-EDE3-CBC," ++ part, hnul⟩, by rw [eggOpensslPrepDekinfo, htail], ?_⟩
  rw [parseDekinfo, hdrop]
  dsimp only
  rw [htake, hparse, Option.bind_some]
  dsimp only
  rw [if_neg (by rw [h.tripleDes]; decide), hdecode, Option.bind_some, if_neg fun hne => hne hiv.symm]

end Header

section Blocks

variable {lib} {algo : Algo} {mode : Mode} {iv : Bytes} {dek : CString} {password : Option Bytes} {data : Bytes}

theorem Gcrypt.Lawful.ready (h : lib.Lawful) (hdek : parseDekinfo lib dek = some (algo, mode, iv))
    {key : Bytes} (hkey : lib.setkey algo key = true) : lib.Ready algo mode key iv := by
  obtain ⟨htest, hiv, desc, hmem⟩ := parseDekinfo_spec hdek
  exact ⟨h.opens htest hmem, hkey, h.sets hiv⟩

-- What decrypting comes to where the header is accepted.
theorem eggOpensslDecryptBlock_eq (h : lib.Lawful) (hdek : parseDekinfo lib dek = some (algo, mode, iv)) (data : Bytes) :
    eggOpensslDecryptBlock lib dek password data =
      if lib.blklen algo < 8 ∨ lib.setkey algo (derivedKey lib algo password iv) = false then .check
      else
        match lib.decrypt algo mode (derivedKey lib algo password iv) iv data with
        | none      => .check
        | some text =>
          if data = [] then .returns none else if secureLimit < data.length then .overrun else .returns (some text) := by
  obtain ⟨htest, hiv, desc, hmem⟩ := parseDekinfo_spec hdek
  rw [eggOpensslDecryptBlock, hdek]
  dsimp only
  rw [generateKey_eq h htest password iv]
  dsimp only
  by_cases hblock : lib.blklen algo < 8
  case pos => rw [if_pos hblock, if_pos (.inl hblock)]
  case neg =>
    rw [if_neg hblock]
    cases hkey : lib.setkey algo (derivedKey lib algo password iv) with
    | false => rw [if_pos (.inr (.inl rfl)), if_pos (.inr rfl)]
    | true  => rw [h.opens htest hmem, h.sets hiv, if_neg (by simp), if_neg (by simp [hblock])]

-- Encrypting comes to whole blocks that are decrypted to the data and the padding.
theorem eggOpensslEncryptBlock_spec (h : lib.Lawful) (hdek : parseDekinfo lib dek = some (algo, mode, iv))
    (hblock : 8 ≤ lib.blklen algo) (hkey : lib.setkey algo (derivedKey lib algo password iv) = true) (hne : data ≠ []) :
    ∃ encrypted, eggOpensslEncryptBlock lib dek password data = .returns (some encrypted) ∧
      encrypted.length = data.length + padding (lib.blklen algo) data.length ∧
      lib.decrypt algo mode (derivedKey lib algo password iv) iv encrypted =
        some (data ++ List.replicate (padding (lib.blklen algo) data.length) 0) := by
  obtain ⟨htest, hiv, desc, hmem⟩ := parseDekinfo_spec hdek
  have hready := h.ready hdek hkey
  have hsplit := Nat.div_add_mod data.length (lib.blklen algo)
  have hbatch : (data.take (data.length - data.length % lib.blklen algo)).length % lib.blklen algo = 0 := by
    rw [List.length_take, Nat.min_eq_left (Nat.sub_le _ _)]
    rw [show data.length - data.length % lib.blklen algo = lib.blklen algo * (data.length / lib.blklen algo) by omega,
      Nat.mul_mod_right]
  obtain ⟨first, hfirst, hfirstLen⟩ := @Gcrypt.Lawful.encrypts lib h _ _ _ _ [] _ hready (Nat.zero_mod _) hbatch
  rw [eggOpensslEncryptBlock, hdek]
  dsimp only
  rw [if_neg (by omega), generateKey_eq h htest password iv]
  dsimp only
  rw [h.opens htest hmem, h.sets hiv, hkey, if_neg (by simp), hfirst, padding]
  dsimp only
  by_cases hoverflow : data.length % lib.blklen algo = 0
  case pos =>
    -- There is no padded block, so nothing is encrypted behind the batch.
    obtain ⟨none, hnone, hlen⟩ := @Gcrypt.Lawful.encrypts lib h _ _ _ _ _ [] hready hbatch (Nat.zero_mod _)
    rw [List.eq_nil_of_length_eq_zero hlen] at hnone
    have hdecrypt := h.chained hready hfirst hnone
    rw [hoverflow, Nat.sub_zero, List.take_length] at hfirstLen hdecrypt
    rw [if_neg (not_not.mpr hoverflow), if_neg hne, if_neg (not_not.mpr hoverflow)]
    exact ⟨first, rfl, hfirstLen, by rwa [List.append_nil, ← List.replicate_zero] at hdecrypt⟩
  case neg =>
    have hpadded : (data.drop (data.length - data.length % lib.blklen algo) ++
        List.replicate (lib.blklen algo - data.length % lib.blklen algo) 0).length = lib.blklen algo := by
      have hlt := Nat.mod_lt data.length (show lib.blklen algo > 0 by omega)
      have hle := Nat.mod_le data.length (lib.blklen algo)
      rw [List.length_append, List.length_drop, List.length_replicate]
      omega
    obtain ⟨last, hlast, hlastLen⟩ := h.encrypts hready hbatch (by rw [hpadded, Nat.mod_self])
    have hdecrypt := h.chained hready hfirst hlast
    rw [← List.append_assoc, List.take_append_drop] at hdecrypt
    rw [if_pos hoverflow, if_pos hoverflow, hlast]
    refine ⟨first ++ last, rfl, ?_, hdecrypt⟩
    have hle := Nat.mod_le data.length (lib.blklen algo)
    have hlt := Nat.mod_lt data.length (show lib.blklen algo > 0 by omega)
    rw [List.length_append, hfirstLen, hlastLen, hpadded, List.length_take, Nat.min_eq_left (Nat.sub_le _ _)]
    omega

-- Nothing is allocated for no data.
theorem eggOpensslEncryptBlock_nil (h : lib.Lawful) (hdek : parseDekinfo lib dek = some (algo, mode, iv))
    (hblock : 8 ≤ lib.blklen algo) (hkey : lib.setkey algo (derivedKey lib algo password iv) = true) :
    eggOpensslEncryptBlock lib dek password [] = .returns none := by
  obtain ⟨htest, hiv, desc, hmem⟩ := parseDekinfo_spec hdek
  obtain ⟨_, hfirst, -⟩ :=
    @Gcrypt.Lawful.encrypts lib h _ _ _ _ [] [] (h.ready hdek hkey) (Nat.zero_mod _) (Nat.zero_mod _)
  rw [eggOpensslEncryptBlock, hdek]
  dsimp only
  rw [if_neg (by omega), generateKey_eq h htest password iv]
  dsimp only
  rw [h.opens htest hmem, h.sets hiv, hkey, if_neg (by simp), List.take_nil, hfirst]
  dsimp only
  rw [if_neg (by simp), if_pos rfl]

theorem padding_lt {blklen : Nat} (h : 8 ≤ blklen) (n : Nat) : padding blklen n < blklen ∧ (n + padding blklen n) % blklen = 0 := by
  have hlt := Nat.mod_lt n (show blklen > 0 by omega)
  rw [padding]
  split
  case isTrue hne =>
    refine ⟨by omega, ?_⟩
    have hsplit := Nat.div_add_mod n blklen
    have heq : n + (blklen - n % blklen) = blklen * (n / blklen + 1) := by
      rw [Nat.mul_add_one]
      omega
    rw [heq, Nat.mul_mod_right]
  case isFalse heq => exact ⟨by omega, not_not.mp heq⟩

end Blocks

section Meets

variable {lib} {algo : Algo} {mode : Mode} {iv : Bytes} {dek : CString} {password : Option Bytes} {plain cipher : Bytes}

theorem Suits.roundTrip (s : Suits lib password plain cipher algo mode iv) (h : lib.Lawful)
    (hdek : parseDekinfo lib dek = some (algo, mode, iv)) :
    ∃ encrypted, eggOpensslEncryptBlock lib dek password plain = .returns (some encrypted) ∧
      eggOpensslDecryptBlock lib dek password encrypted =
        .returns (some (plain ++ List.replicate (padding (lib.blklen algo) plain.length) 0)) := by
  obtain ⟨encrypted, hencrypt, hlen, hdecrypt⟩ := eggOpensslEncryptBlock_spec h hdek s.block s.key s.nonempty
  refine ⟨encrypted, hencrypt, ?_⟩
  have hpos := List.length_pos_iff.mpr s.nonempty
  have hlimit := s.plainLimit
  have hne : encrypted ≠ [] := List.length_pos_iff.mp (by omega)
  have hblock := s.block
  rw [eggOpensslDecryptBlock_eq h hdek, s.key, if_neg (by simp [hblock]), hdecrypt]
  dsimp only
  rw [if_neg hne, if_neg (by omega)]

theorem Suits.meets (h : lib.Lawful)
    (hs : ∀ algo mode iv, parseDekinfo lib dek = some (algo, mode, iv) → Suits lib password plain cipher algo mode iv) :
    Meets lib dek password plain cipher where
  roundTrip hdek hblock := by
    have s := hs _ _ _ hdek
    obtain ⟨encrypted, hencrypt, hdecrypt⟩ := s.roundTrip h hdek
    obtain ⟨hlt, hmod⟩ := padding_lt hblock plain.length
    exact ⟨encrypted, _, hencrypt, hdecrypt, hlt, hmod⟩
  prepared headers hiv := Openssl.prepared h headers hiv
  decrypted := by
    cases hdek : parseDekinfo lib dek with
    | none =>
      refine ⟨none, ?_, nofun⟩
      rw [eggOpensslDecryptBlock, hdek]
    | some parsed =>
      obtain ⟨algo, mode, iv⟩ := parsed
      have s := hs _ _ _ hdek
      have hblock := s.block
      have hlimit := s.cipherLimit
      obtain ⟨text, htext⟩ := Option.isSome_iff_exists.mp ((h.decrypts (h.ready hdek s.key)).mpr s.whole)
      rw [eggOpensslDecryptBlock_eq h hdek, s.key, if_neg (by simp [hblock]), htext]
      dsimp only
      by_cases hempty : cipher = []
      case pos =>
        rw [if_pos hempty]
        exact ⟨none, rfl, nofun⟩
      case neg =>
        rw [if_neg hempty, if_neg (by omega)]
        refine ⟨some text, rfl, fun text' htext' => ?_⟩
        cases htext'
        exact ⟨algo, mode, iv, rfl, htext⟩

theorem Meets.suits (m : Meets lib dek password plain cipher) (h : lib.Lawful)
    (hdek : parseDekinfo lib dek = some (algo, mode, iv)) : Suits lib password plain cipher algo mode iv := by
  obtain ⟨result, hresult, -⟩ := m.decrypted
  rw [eggOpensslDecryptBlock_eq h hdek] at hresult
  split at hresult
  case isTrue => cases hresult
  case isFalse hnot =>
    obtain ⟨hblock, hkey⟩ := not_or.mp hnot
    have hkey := Bool.eq_true_of_not_eq_false hkey
    have hblock := Nat.not_lt.mp hblock
    obtain ⟨encrypted, n, hencrypt, hdecrypt, -⟩ := m.roundTrip hdek hblock
    have hne : plain ≠ [] := by
      rintro rfl
      rw [eggOpensslEncryptBlock_nil h hdek hblock hkey] at hencrypt
      cases hencrypt
    obtain ⟨encrypted', hencrypt', hlen, htext⟩ := eggOpensslEncryptBlock_spec h hdek hblock hkey hne
    rw [hencrypt] at hencrypt'
    cases hencrypt'
    refine ⟨hblock, hkey, hne, ?_, ?_, ?_⟩
    · rw [eggOpensslDecryptBlock_eq h hdek, hkey, if_neg (by simp [hblock]), htext] at hdecrypt
      dsimp only at hdecrypt
      split at hdecrypt
      case isTrue => cases hdecrypt
      case isFalse =>
        split at hdecrypt
        case isTrue       => cases hdecrypt
        case isFalse hle => omega
    · refine (h.decrypts (h.ready hdek hkey)).mp ?_
      split at hresult
      case h_1 => cases hresult
      case h_2 htext' => exact Option.isSome_of_eq_some htext'
    · by_cases hempty : cipher = []
      case pos =>
        rw [hempty]
        exact Nat.zero_le _
      case neg =>
        split at hresult
        case h_1 => cases hresult
        case h_2 =>
          rw [if_neg hempty] at hresult
          split at hresult
          case isTrue      => cases hresult
          case isFalse hle => omega

-- The functions do what is expected of them exactly for the headers and the data that suit.
theorem openssl_meets_iff (h : lib.Lawful) (dek : CString) (password : Option Bytes) (plain cipher : Bytes) :
    Meets lib dek password plain cipher ↔
      ∀ algo mode iv, parseDekinfo lib dek = some (algo, mode, iv) → Suits lib password plain cipher algo mode iv :=
  ⟨fun m _ _ _ hdek => m.suits h hdek, Suits.meets h⟩

def blockLength : Algo → Nat
  | .arcfour => 1
  | .aes128  => 16
  | .aes192  => 16
  | .aes256  => 16
  | _        => 8

def keyLength : Algo → Nat
  | .des       => 8
  | .tripleDes => 24
  | .aes192    => 24
  | .aes256    => 32
  | _          => 16

-- Ciphers that leave the data as they are, with the lengths of the real ones.
def identity : Gcrypt where
  testAlgo _       := true
  blklen           := blockLength
  keylen           := keyLength
  md5              := ⟨fun _ => List.replicate 16 0, 16, by decide, fun _ => List.length_replicate⟩
  cipherOpen _ _   := true
  setkey _ _       := true
  setiv _ _ _      := true
  encrypt algo mode _ _ _ data := if mode.whole = true → data.length % blockLength algo = 0 then some data else none
  decrypt algo mode _ _ data   := if mode.whole = true → data.length % blockLength algo = 0 then some data else none

theorem identity_lawful : identity.Lawful where
  tripleDes := rfl
  keylen {algo} _ := by
    cases algo
    all_goals decide
  opens _ _ := rfl
  sets _ := rfl
  encrypts _ _ hdata := ⟨_, if_pos fun _ => hdata, rfl⟩
  decrypts {_ _ _ _ data} _ := by
    change (Option.isSome (if _ then some data else none)) = true ↔ _
    split
    case isTrue hwhole   => exact iff_of_true rfl hwhole
    case isFalse hpartial => exact iff_of_false Bool.noConfusion hpartial
  chained {algo mode _ _ a b c d} _ hfirst hlast := by
    obtain ⟨ha, hc⟩ := Option.ite_none_right_eq_some.mp hfirst
    obtain ⟨hb, hd⟩ := Option.ite_none_right_eq_some.mp hlast
    cases hc
    cases hd
    refine if_pos fun hwhole => ?_
    rw [List.length_append, Nat.add_mod, ha hwhole, hb hwhole]
    rfl

-- `DES-CFB,0000000000000000`
def desCfb : CString :=
  ⟨[68, 69, 83, 45, 67, 70, 66, 44] ++ List.replicate 16 48, by decide⟩

theorem openssl_meets_desCfb : identity.Lawful ∧ Meets identity desCfb (some [112]) [1, 2, 3] (List.replicate 9 4) := by
  refine ⟨identity_lawful, (openssl_meets_iff identity_lawful desCfb _ _ _).mpr fun algo mode iv h => ?_⟩
  have hdek : parseDekinfo identity desCfb = some (.des, .cfb, List.replicate 8 0) := by decide
  cases hdek.symm.trans h
  exact ⟨by decide, rfl, by decide, by decide, by decide, by decide⟩

-- `RC4,00`
theorem not_openssl_meets : ¬∀ lib : Gcrypt, lib.Lawful → ∀ dek password plain cipher, Meets lib dek password plain cipher := by
  intro h
  obtain ⟨result, hresult, -⟩ := (h identity identity_lawful ⟨[82, 67, 52, 44, 48, 48], by decide⟩ none [1] [1]).decrypted
  have hcheck : eggOpensslDecryptBlock identity ⟨[82, 67, 52, 44, 48, 48], by decide⟩ none [1] = .check := by decide
  rw [hcheck] at hresult
  cases hresult

end Meets

end Openssl
