import GcrModel.Gcr.Parser.Theorems.Pkcs12

-- Whole files, with all the formats of a parser.
namespace Parser

open GLib

variable {s s' : State} {as : List Announcement} {data : Bytes} {code : Code} {x y : ParserM Code}
  {lib : Library} {backend : Backend} {want : Option Inner} {found : Armor.Found × Bytes}

section Armor

-- The function for encrypted armor returns with its own item still on the stack.
def Abandons (lib : Library) (backend : Backend) (found : Armor.Found × Bytes) : Prop :=
  backend = .gnutls ∧ (formatsForArmorType found.1.type).isSome ∧ ∃ headers, encryptedHeaders found.1.headers = some headers ∧
    (lib.gnutls.privkeyInit = false ∨ headers.lookup dekInfo = none)

-- What stops the functions for the formats inside of armor.
inductive Inner.Stops (lib : Library) (backend : Backend) (data : Bytes) : Inner → Fault → Prop
  | openpgp {fault : Openpgp.Fault} (h : lib.openpgp data = .error fault) : Stops lib backend data .openpgpPacket (.openpgp fault)
  | pkcs12 {fault : Fault} (hbackend : backend = .gnutls) (h : Gnutls.Frees lib data fault) : Stops lib backend data .derPkcs12 fault

theorem parseOpenpgpPackets_unless (data : Bytes) :
    BalancedUnless (Inner.Stops lib backend data .openpgpPacket) (parseOpenpgpPackets lib data) := by
  intro s
  rw [parseOpenpgpPackets]
  cases hblocks : lib.openpgp data
  case error fault =>
    exact .inr ⟨.openpgp fault, rfl, .openpgp hblocks⟩
  case ok blocks   => exact .inl (handleOpenpgpBlocks_gives blocks s).any

theorem parseDerPkcs12_unless (data : Bytes) :
    BalancedUnless (Inner.Stops lib backend data .derPkcs12) (backend.parseDerPkcs12 lib data) := by
  cases backend
  case libgcrypt => exact (Libgcrypt.parseDerPkcs12_balanced lib data).unless
  case gnutls    => exact (Gnutls.parseDerPkcs12_unless lib data).mono fun _ h => .pkcs12 rfl h

theorem function_unless (inner : Inner) (data : Bytes) :
    BalancedUnless (inner.Stops lib backend data) (inner.function lib backend data) := by
  cases inner
  case derPkcs12     => exact parseDerPkcs12_unless data
  case openpgpPacket => exact parseOpenpgpPackets_unless data
  all_goals apply Balanced.unless
  case derPrivateKey       => exact .of_gives (parseDerPrivateKey_gives lib backend data)
  case derPrivateKeyRsa    => exact .of_gives (parseDerPrivateKeyRsa_gives backend lib data)
  case derPrivateKeyDsa    => exact .of_gives (parseDerPrivateKeyDsa_gives backend lib data)
  case derPrivateKeyEc     => exact .of_gives (parseDerPrivateKeyEc_gives backend lib data)
  case derSubjectPublicKey => exact .of_gives (parseDerSubjectPublicKey_gives lib data)
  case derCertificateX509  => exact .of_gives (parseDerCertificate_gives lib data)
  case derPkcs7            => exact parseDerPkcs7_balanced lib data
  case derPkcs8Plain       => exact .of_gives (parseDerPkcs8Plain_gives lib backend data)
  case derPkcs8Encrypted   => exact parseDerPkcs8Encrypted_balanced lib backend data
  case derPkcs10           => exact .of_gives (parseDerPkcs10_gives lib data)

theorem handlePlainPem_unless (inner : Inner) (data : Bytes) :
    BalancedUnless (inner.Stops lib backend data) (handlePlainPem lib backend inner want data) :=
  .ite (fun _ => (Balanced.pure _).unless) fun _ => function_unless inner data

-- What is decrypted may be what stops the function for it.
theorem Libgcrypt.handleEncryptedPem_unless (inner : Inner) (headers : Armor.Headers) (data : Bytes) : BalancedUnless
    (fun fault => ∃ val password plain, lib.gcrypt.decryptBlock val password data = some plain ∧
      inner.Stops lib .libgcrypt (unpad lib plain) fault) (handleEncryptedPem lib inner want headers data) := by
  rw [handleEncryptedPem]
  cases headers.lookup dekInfo
  case none     => exact (Balanced.pure _).unless
  case some val =>
    apply BalancedUnless.eachPassword
    intro password s
    cases hdecrypted : lib.gcrypt.decryptBlock val password data
    case none       => exact .inl (Tries.pure trivial)
    case some plain =>
      exact ((handlePlainPem_unless inner _).mono fun _ h => ⟨val, password, plain, hdecrypted, h⟩).tries s

-- Where it gets to the loop, its item is taken off the stack.
theorem Gnutls.handleEncryptedPem_balanced {headers : Armor.Headers} {outer : Bytes} (hinit : lib.gnutls.privkeyInit = true)
    {val : Bytes} (hval : headers.lookup dekInfo = some val) : Balanced (handleEncryptedPem lib headers data outer) := by
  have hloop : Balanced (eachPassword (tryPem lib data outer)) := by
    apply Balanced.eachPassword
    intro password s₁ hknown
    apply Tries.attempts hknown
    intro s₂
    cases lib.gnutls.importPem outer password
    case none         => exact Tries.pure trivial
    case some privkey => exact Gives.tries (Gnutls.handlePrivateKey_gives lib privkey data s₂).any fun _ => id
  have heq : handleEncryptedPem lib headers data outer = withParsed fun _ => eachPassword (tryPem lib data outer) := by
    rw [handleEncryptedPem, withParsed, hval]
    simp only [hinit, not_true_eq_false, if_false]
  rw [heq]
  exact .withParsed fun s s₁ h₁ => (hloop s₁).inside h₁

-- Otherwise it is still there when the item below is to be taken off.
theorem handleBlock_abandons (h : Abandons lib .gnutls found) (s : State) :
    handleBlock lib .gnutls want found s = .error .assertion := by
  obtain ⟨-, hformats, headers, hheaders, hearly⟩ := h
  obtain ⟨⟨inner, outerFormat⟩, hformats⟩ := Option.isSome_iff_exists.mp hformats
  have hearly' : ∃ code, Gnutls.handleEncryptedPem lib headers found.1.data found.2 = pushParsed >>= fun _ => pure code := by
    by_cases hinit : lib.gnutls.privkeyInit
    case neg =>
      refine ⟨.unrecognized, ?_⟩
      rw [Gnutls.handleEncryptedPem]
      simp only [hinit]
      rfl
    case pos =>
      refine ⟨.failure, ?_⟩
      have hnone : headers.lookup dekInfo = none := by
        rcases hearly with hearly | hearly
        · exact absurd (hinit.symm.trans hearly) (by decide)
        · exact hearly
      rw [Gnutls.handleEncryptedPem, hnone]
      simp only [hinit, not_true_eq_false, if_false]
  obtain ⟨code, hearly'⟩ := hearly'
  obtain ⟨_, s₁, hpush, rfl, h₁⟩ := pushParsed_returns s
  obtain ⟨_, s₂, hblock, h₂⟩ := parsingBlock_returns h₁ rfl outerFormat found.2
  have hbody : (do
      parsingBlock s.parsed.length outerFormat found.2
      handlePemBlock lib .gnutls want inner found.1 found.2) s₁ = .ok (code, { s₂ with parsed := {} :: s₂.parsed }) := by
    rw [Returns.bind_ok hblock, handlePemBlock, hheaders]
    simp only [Backend.handleEncryptedPem, hearly']
    rfl
  have hpop : popParsed s.parsed.length { s₂ with parsed := {} :: s₂.parsed } = .error .assertion := by
    have hlength := h₂.length
    rw [popParsed]
    exact if_neg (by omega)
  rw [handleBlock, hformats]
  dsimp only
  rw [withParsed, Returns.bind_ok hpush, Returns.bind_ok hbody, Returns.bind_error hpop]

-- What stops the handling of a block: it is given up in the middle, or what is inside stops the function for it.
inductive BlockStops (lib : Library) (backend : Backend) (found : Armor.Found × Bytes) : Fault → Prop
  | abandoned (h : Abandons lib backend found) : BlockStops lib backend found .assertion
  | plain {inner : Inner} {format : DataFormat} {fault : Fault} (hformats : formatsForArmorType found.1.type = some (inner, format))
    (h : inner.Stops lib backend found.1.data fault) : BlockStops lib backend found fault
  | decrypted {inner : Inner} {format : DataFormat} {fault : Fault} {val plain : Bytes} {password : Password}
    (hformats : formatsForArmorType found.1.type = some (inner, format)) (hbackend : backend = .libgcrypt)
    (hdecrypted : lib.gcrypt.decryptBlock val password found.1.data = some plain)
    (h : inner.Stops lib .libgcrypt (Libgcrypt.unpad lib plain) fault) : BlockStops lib backend found fault

theorem handlePemBlock_unless {inner : Inner} {outerFormat : DataFormat}
    (hformats : formatsForArmorType found.1.type = some (inner, outerFormat)) (h : ¬Abandons lib backend found) :
    BalancedUnless (BlockStops lib backend found) (handlePemBlock lib backend want inner found.1 found.2) := by
  rw [handlePemBlock]
  cases hheaders : encryptedHeaders found.1.headers
  case none         => exact (handlePlainPem_unless inner _).mono fun _ => .plain hformats
  case some headers =>
    cases backend
    case libgcrypt =>
      exact (Libgcrypt.handleEncryptedPem_unless inner headers _).mono fun _ ⟨_, _, _, hdecrypted, hstops⟩ =>
        .decrypted hformats rfl hdecrypted hstops
    case gnutls    =>
      have hearly : ¬(lib.gnutls.privkeyInit = false ∨ headers.lookup dekInfo = none) := by
        intro hearly
        exact h ⟨rfl, Option.isSome_iff_exists.mpr ⟨_, hformats⟩, headers, hheaders, hearly⟩
      rw [not_or, Bool.not_eq_false] at hearly
      obtain ⟨val, hval⟩ := Option.ne_none_iff_exists'.mp hearly.2
      exact (Gnutls.handleEncryptedPem_balanced hearly.1 hval).unless

theorem handleBlock_unless (want : Option Inner) (found : Armor.Found × Bytes) :
    BalancedUnless (BlockStops lib backend found) (handleBlock lib backend want found) := by
  by_cases h : Abandons lib backend found
  case pos =>
    obtain rfl := h.1
    exact fun s => .inr ⟨_, handleBlock_abandons h s, .abandoned h⟩
  case neg =>
    rw [handleBlock]
    cases hformats : formatsForArmorType found.1.type
    case none         => exact (Balanced.pure _).unless
    case some formats => exact .withBlock _ _ (handlePemBlock_unless hformats h)

theorem handlePemBlocks_unless (want : Option Inner) (blocks : List (Armor.Found × Bytes)) (result : Code) :
    BalancedUnless (fun fault => ∃ found ∈ blocks, BlockStops lib backend found fault)
      (handlePemBlocks lib backend want result blocks) := by
  refine .foldlM ?_ _
  intro found hmem result
  have hblock := (@handleBlock_unless lib backend want found).mono fun _ h =>
    (⟨found, hmem, h⟩ : ∃ found ∈ blocks, BlockStops lib backend found _)
  refine .ite (fun _ => (Balanced.pure _).unless) fun _ => ?_
  rw [handleBlock] at hblock
  cases hformats : formatsForArmorType found.1.type
  case none         => exact (Balanced.pure _).unless
  case some formats =>
    rw [hformats] at hblock
    exact hblock.bind fun _ => (Balanced.pure _).unless

end Armor

section Whole

-- What stops a parse: the function for what the data is or for what a block has inside, a block that is given up in the
-- middle, or the armor parser itself.
inductive Halts (lib : Library) (backend : Backend) (data : Bytes) : Fault → Prop
  | inner {inner : Inner} {fault : Fault} (h : inner.Stops lib backend data fault) : Halts lib backend data fault
  | armor {fault : Armor.Fault} (h : lib.armor data = .error fault) : Halts lib backend data (.armor fault)
  | block {blocks : List (Armor.Found × Bytes)} {found : Armor.Found × Bytes} {fault : Fault} (hblocks : lib.armor data = .ok blocks)
    (hfound : found ∈ blocks) (h : BlockStops lib backend found fault) : Halts lib backend data fault

theorem handlePemFormat_unless (want : Option Inner) (data : Bytes) :
    BalancedUnless (Halts lib backend data) (handlePemFormat lib backend want data) := by
  refine .ite (fun _ => (Balanced.pure _).unless) fun _ s => ?_
  cases hblocks : lib.armor data
  case error fault => exact .inr ⟨.armor fault, rfl, .armor hblocks⟩
  case ok blocks   =>
    exact (handlePemBlocks_unless want blocks .unrecognized).mono (fun _ ⟨_, hfound, h⟩ => .block hblocks hfound h) s

theorem parserFunction_unless (format : DataFormat) (data : Bytes) :
    BalancedUnless (Halts lib backend data) (parserFunction lib backend format data) := by
  have hinner : ∀ inner : Inner, BalancedUnless (Halts lib backend data) (inner.function lib backend data) :=
    fun inner => (function_unless inner data).mono fun _ => .inner
  cases format
  case derPrivateKey       => exact hinner .derPrivateKey
  case derPrivateKeyRsa    => exact hinner .derPrivateKeyRsa
  case derPrivateKeyDsa    => exact hinner .derPrivateKeyDsa
  case derPrivateKeyEc     => exact hinner .derPrivateKeyEc
  case derSubjectPublicKey => exact hinner .derSubjectPublicKey
  case derCertificateX509  => exact hinner .derCertificateX509
  case derPkcs7            => exact hinner .derPkcs7
  case derPkcs8            => exact .orElse (hinner .derPkcs8Plain) (hinner .derPkcs8Encrypted)
  case derPkcs8Plain       => exact hinner .derPkcs8Plain
  case derPkcs8Encrypted   => exact hinner .derPkcs8Encrypted
  case derPkcs10           => exact hinner .derPkcs10
  case derSpkac            => exact Balanced.unless (.of_gives (parseDerSpkac_gives lib data))
  case base64Spkac         => exact Balanced.unless (.of_gives (parseBase64Spkac_gives lib data))
  case derPkcs12           => exact hinner .derPkcs12
  case opensshPublic       => exact Balanced.unless (.of_gives (parseOpensshPublic_gives lib data))
  case openpgpPacket       => exact hinner .openpgpPacket
  case pemPrivateKey       => exact (Balanced.pure _).unless
  all_goals exact handlePemFormat_unless _ data

theorem parseBytes_unless (formats : List DataFormat) (data : Bytes) :
    BalancedUnless (Halts lib backend data) (parseBytes lib backend formats data) := by
  refine .ite (fun _ => (Balanced.pure _).unless) fun _ => ?_
  induction formats
  case nil                  => exact (Balanced.pure _).unless
  case cons format rest ih => exact (parserFunction_unless format data).orElse ih

-- Along a parse only passwords that are known are tried, and the handlers are asked when everything known was tried. What
-- they add is there from then on, and nothing else becomes of the passwords.
theorem parseBytes_prompts {formats : List DataFormat} (h : parseBytes lib backend formats data s = .ok (code, s')) :
    Prompts s s' := by
  obtain ⟨code', s'', heq, as, hruns, -⟩ | ⟨fault, heq, -⟩ := parseBytes_unless formats data s
  · cases h.symm.trans heq
    exact hruns.prompts
  · cases h.symm.trans heq

-- A library that takes everything for an encrypted key, and nothing for what is inside.
def lockedLibrary : Library :=
  { exampleLibrary with
    asn1   := { exampleLibrary.asn1 with encryptedPrivateKeyInfo := fun _ => some ⟨some [1], none, some [2]⟩ }
    gcrypt := { exampleLibrary.gcrypt with readCipher := fun _ _ _ => some some } }

-- The handlers have another password the first time they are asked.
def lockedState : State where
  passwords := [some [3]]
  answers   := [⟨[some [4]], true⟩]

def refusedState : State :=
  { lockedState with
    passwords := [some [3], some [4]]
    answers   := []
    events    := [.tried (some [3]), .authenticate 0, .tried (some [4]), .authenticate 1] }

theorem parseBytes_prompts_locked : Prompts lockedState refusedState :=
  parseBytes_prompts
    (by decide +kernel : parseBytes lockedLibrary .libgcrypt [.derPkcs8Encrypted] [48] lockedState = .ok (.cancelled, refusedState))

end Whole

section Announced

variable (lib backend)

-- The item that the function for a format is to announce.
def itemOf (data : Bytes) : DataFormat → Item → Prop
  | .derPrivateKey       => PrivateKeyItem lib backend data
  | .derPrivateKeyRsa    => fun i => backend.rsaItem lib data = some i
  | .derPrivateKeyDsa    => fun i => backend.dsaItem lib data = some i
  | .derPrivateKeyEc     => fun i => backend.ecItem lib data = some i
  | .derSubjectPublicKey => SubjectPublicKeyItem lib data
  | .derCertificateX509  => fun i => certificateItem lib data = some i
  | .derPkcs8            => fun i => Pkcs8Item lib backend data i ∨ backend = .libgcrypt ∧ EncryptedKeyItem lib backend data i
  | .derPkcs8Plain       => Pkcs8Item lib backend data
  | .derPkcs8Encrypted   => fun i => backend = .libgcrypt ∧ EncryptedKeyItem lib backend data i
  | .derPkcs10           => fun i => pkcs10Item lib data = some i
  | .derSpkac            => fun i => i = spkacItem data
  | .base64Spkac         => fun i => ∃ spkac, lib.base64 data = some spkac ∧ i = spkacItem spkac
  | _                    => fun _ => False

def itemFormats : List DataFormat :=
  [.derPrivateKey, .derPrivateKeyRsa, .derPrivateKeyDsa, .derPrivateKeyEc, .derSubjectPublicKey, .derCertificateX509, .derPkcs8,
    .derPkcs8Plain, .derPkcs8Encrypted, .derPkcs10, .derSpkac, .base64Spkac]

-- The keys that GnuTLS decrypts are never announced.
def Mute (format : DataFormat) : Prop :=
  backend = .gnutls ∧ (format = .derPkcs8 ∨ format = .derPkcs8Encrypted)

variable {lib backend}

-- What comes of the function for an item.
inductive Announces (own : Item → Prop) (mute : Prop) : Code → List Announcement → Prop
  | announced {i : Item} {a : Announcement} (hi : own i) (ha : a.Is i) : Announces own mute .success [a]
  | failed {code : Code} (hcode : code ≠ .success) : Announces own mute code []
  | mute (h : mute) : Announces own mute .success []

theorem Gives.announces {own : Announcement → Prop} {own' : Item → Prop} {mute : Prop} (h : Gives x s (Outcome own))
    (himp : ∀ a, own a → ∃ i, own' i ∧ a.Is i) : Gives x s (Announces own' mute) := by
  apply h.mono
  intro code as h
  cases h
  case announced a h =>
    obtain ⟨i, hi, ha⟩ := himp a h
    exact .announced hi ha
  case silent hcode  => exact .failed hcode

theorem Announces.of_silent {own : Item → Prop} {mute : Prop} (h : mute) (has : as = []) : Announces own mute code as := by
  subst has
  by_cases hcode : code = .success
  case pos =>
    subst hcode
    exact .mute h
  case neg => exact .failed hcode

theorem Backend.parseDerPkcs8Encrypted_gives (data : Bytes) (s : State) :
    Gives (backend.parseDerPkcs8Encrypted lib data) s
      (Announces (fun i => backend = .libgcrypt ∧ EncryptedKeyItem lib backend data i) (backend = .gnutls)) := by
  cases backend
  case libgcrypt =>
    apply (Libgcrypt.parseDerPkcs8Encrypted_gives lib data s).announces
    rintro a ⟨i, hi, ha⟩
    exact ⟨i, ⟨rfl, hi⟩, ha⟩
  case gnutls    =>
    apply (Gnutls.parseDerPkcs8Encrypted_gives lib data s).mono
    intro code as has
    exact .of_silent rfl has

theorem Announces.mono {own own' : Item → Prop} {mute mute' : Prop} (h : Announces own mute code as)
    (himp : ∀ i, own i → own' i) (hmute : mute → mute') : Announces own' mute' code as := by
  cases h
  case announced hi ha => exact .announced (himp _ hi) ha
  case failed hcode    => exact .failed hcode
  case mute h          => exact .mute (hmute h)

theorem parseDerPkcs8_gives (data : Bytes) (s : State) :
    Gives (parseDerPkcs8 lib backend data) s (Announces (itemOf lib backend data .derPkcs8) (Mute backend .derPkcs8)) := by
  have hplain : Gives (parseDerPkcs8Plain backend lib data) s
      (Announces (itemOf lib backend data .derPkcs8) (Mute backend .derPkcs8)) := by
    apply (parseDerPkcs8Plain_gives lib backend data s).announces
    rintro a ⟨i, hi, ha⟩
    exact ⟨i, .inl hi, ha⟩
  apply hplain.orElse
  · intro s₁ _
    apply (Backend.parseDerPkcs8Encrypted_gives data s₁).mono
    intro code as h
    exact h.mono (fun i hi => .inr hi) fun hbackend => ⟨hbackend, .inl rfl⟩
  · intro as h
    cases h
    rfl

-- The functions for items announce what they return with success, once and as the item that is in the data, and nothing
-- when they do not. Only the keys that GnuTLS decrypts are not announced.
theorem parserFunction_announces {format : DataFormat} (hformat : format ∈ itemFormats) (lib : Library) (backend : Backend)
    (data : Bytes) (s : State) :
    Gives (parserFunction lib backend format data) s (Announces (itemOf lib backend data format) (Mute backend format)) := by
  have hsome : ∀ {own : Item → Prop} (a : Announcement), Announcement.IsSome own a → ∃ i, own i ∧ a.Is i := fun _ h => h
  have hof : ∀ {item : Option Item} (a : Announcement), Announcement.IsOf item a → ∃ i, item = some i ∧ a.Is i := fun _ h => h
  cases format
  case derPrivateKey       => exact (parseDerPrivateKey_gives lib backend data s).announces hsome
  case derPrivateKeyRsa    => exact (parseDerPrivateKeyRsa_gives backend lib data s).announces hof
  case derPrivateKeyDsa    => exact (parseDerPrivateKeyDsa_gives backend lib data s).announces hof
  case derPrivateKeyEc     => exact (parseDerPrivateKeyEc_gives backend lib data s).announces hof
  case derSubjectPublicKey => exact (parseDerSubjectPublicKey_gives lib data s).announces hsome
  case derCertificateX509  => exact (parseDerCertificate_gives lib data s).announces hof
  case derPkcs8            => exact parseDerPkcs8_gives data s
  case derPkcs8Plain       => exact (parseDerPkcs8Plain_gives lib backend data s).announces hsome
  case derPkcs8Encrypted   =>
    apply (Backend.parseDerPkcs8Encrypted_gives data s).mono
    intro code as h
    exact h.mono (fun _ => id) fun hbackend => ⟨hbackend, .inr rfl⟩
  case derPkcs10           => exact (parseDerPkcs10_gives lib data s).announces hof
  case derSpkac            => exact (parseDerSpkac_gives lib data s).announces fun a ha => ⟨_, rfl, ha⟩
  case base64Spkac         =>
    apply (parseBase64Spkac_gives lib data s).announces
    rintro a ⟨spkac, hspkac, ha⟩
    exact ⟨_, ⟨spkac, hspkac, rfl⟩, ha⟩
  all_goals exact absurd hformat (by decide)

theorem parserFunction_announces_certificate :
    Gives (parserFunction exampleLibrary .gnutls .derCertificateX509 [48, 0]) {}
      (Announces (itemOf exampleLibrary .gnutls [48, 0] .derCertificateX509) (Mute .gnutls .derCertificateX509)) :=
  parserFunction_announces (by decide) exampleLibrary .gnutls [48, 0] {}

end Announced

end Parser
