import GcrModel.Gcr.Parser.Theorems.Encrypted
import GcrModel.Gcr.Parser.Theorems.Pem

-- PKCS#12 files, and the passwords that their contents are behind.
namespace Parser

open GLib

variable {s s₁ s' : State} {data : Bytes} {password : Password} {code : Code} {x y : ParserM Code}
  {format : DataFormat}

-- The passwords until one that is right, if there is one.
structure Opens (right : Password → Prop) (code : Code) (events : List Event) : Prop where
  tried : code = .success → ∃ password, right password ∧ .tried password ∈ events

theorem gathers_opens (right : Password → Prop) : Gathers (fun _ => True) (Opens right) where
  nil      := trivial
  append   := fun _ _ => trivial
  returned := by
    intro code es fs _ h
    refine ⟨fun hcode => ?_⟩
    obtain ⟨password, hright, htried⟩ := h.tried hcode
    exact ⟨password, hright, List.mem_append_right _ htried⟩
  asked    := fun _ => trivial
  refused  := by
    rintro n code (rfl | rfl)
    · exact ⟨fun hcode => absurd hcode (by decide)⟩
    · exact ⟨fun hcode => absurd hcode (by decide)⟩

-- The library is called with each password, and what it says is the end of the loop or none.
def Tells (right : Password → Prop) (attempt : Password → ParserM (Option Code)) : Prop :=
  ∀ password, ∃ r, attempt password = call password r ∧ (r = some .success → right password)

theorem call_bind {α : Type} {result : α} {f : α → ParserM (Option Code)} {r : Option Code} (h : f result = pure r) :
    (call password result >>= f) = call password r :=
  congrArg (call password () >>= fun _ => ·) h

variable {right right' : Password → Prop} {attempt : Password → ParserM (Option Code)}

theorem Tells.mono (h : Tells right attempt) (himp : ∀ password, right password → right' password) :
    Tells right' attempt := by
  intro password
  obtain ⟨r, heq, hright⟩ := h password
  exact ⟨r, heq, fun hr => himp password (hright hr)⟩

theorem Tells.attempted (h : Tells right attempt) (hknown : password ∈ s.passwords) :
    Returns (attempt password) s (Attempted (fun _ => True) (Opens right) password s) := by
  obtain ⟨r, heq, hright⟩ := h password
  rw [heq]
  apply Returns.mono (call_returns hknown r)
  rintro r s₁ ⟨rfl, hruns, -, htried⟩
  refine ⟨⟨[], hruns⟩, htried, ?_⟩
  cases r
  case none      => trivial
  case some code =>
    refine ⟨fun hcode => ⟨password, hright ?_, htried⟩⟩
    rw [hcode]

theorem Tells.silent (h : Tells right attempt) (s : State) : Gives (eachPassword attempt) s Silent := by
  apply eachPassword_gives collects_silent
  intro password s₁ hknown
  obtain ⟨r, heq, -⟩ := h password
  rw [heq]
  apply Returns.mono (call_returns hknown r)
  rintro r s₂ ⟨rfl, hruns, -, htried⟩
  refine ⟨⟨[], hruns, ?_⟩, htried⟩
  cases r
  case none   => rfl
  case some _ => rfl

-- What comes of a file whose contents are behind a loop, but for faults on the condition.
def Guarded (c : Fault → Prop) (right : Password → Prop) (x : ParserM Code) : Prop :=
  ∀ s, (Returns x s fun code s' => ∃ as, Runs s s' [] as ∧
    (code = .success ∨ as ≠ [] → ∃ password, right password ∧ .tried password ∈ s'.since s)) ∨
      ∃ fault, x s = .error fault ∧ c fault

variable {c : Fault → Prop}

theorem Guarded.pure (h : code ≠ .success) : Guarded c right (Pure.pure code) := by
  intro s
  refine .inl (Returns.pure ⟨[], Runs.refl s, ?_⟩)
  rintro (hcode | has)
  · exact absurd hcode h
  · exact absurd rfl has

theorem Guarded.ite {d : Prop} [Decidable d] (hx : Guarded c right x) (hy : Guarded c right y) :
    Guarded c right (if d then x else y) := by
  split
  · exact hx
  · exact hy

-- The contents are parsed when a password was right.
theorem Guarded.of_loop {contents : ParserM Code} (htells : Tells right attempt) (hcontents : BalancedUnless c contents) :
    Guarded c right (do
      let ret ← eachPassword attempt
      if ret = .success then contents else Pure.pure ret) := by
  intro s
  have hopens := eachPassword_returns (gathers_opens right) (fun _ _ => htells.attempted) s
  obtain ⟨ret, s₁, hloop, ⟨as, hruns, rfl⟩, -, hopens⟩ := (htells.silent s).and hopens
  rw [Returns, Returns.bind_ok hloop]
  by_cases hret : ret = .success
  case neg =>
    rw [if_neg hret]
    refine .inl (Returns.pure ⟨[], hruns, ?_⟩)
    rintro (hcode | has)
    · exact absurd hcode hret
    · exact absurd rfl has
  case pos =>
    obtain ⟨password, hright, htried⟩ := hopens.tried hret
    rw [if_pos hret]
    refine (hcontents s₁).imp_left fun hgives => ?_
    apply Returns.mono hgives
    rintro code s₂ ⟨bs, hruns', -⟩
    refine ⟨_, hruns.trans hruns', fun _ => ⟨password, hright, ?_⟩⟩
    rw [since_trans hruns.prompts.events hruns'.prompts.events]
    exact List.mem_append_left _ htried

-- The same behind the push and a block.
theorem Guarded.withBlock (h : Guarded c right x) (format : DataFormat) (data : Bytes) :
    Guarded c right (withParsed fun parsed => do parsingBlock parsed format data; x) := by
  intro s
  obtain ⟨s₁, item, h₁, hstops, hreturns⟩ := withBlock_runs format data x s
  obtain ⟨code, s₂, heq, as, hruns, hguarded⟩ | ⟨fault, heq, hc⟩ := h s₁
  · obtain ⟨s₃, heq', h₃, hevents⟩ := hreturns code s₂ as heq hruns
    refine .inl ⟨code, s₃, heq', as, h₃, fun hcode => ?_⟩
    obtain ⟨password, hright, htried⟩ := hguarded hcode
    refine ⟨password, hright, ?_⟩
    rw [State.since, hevents, ← State.since, since_trans h₁.prompts.events hruns.prompts.events]
    exact List.mem_append_right _ htried
  · exact .inr ⟨fault, hstops fault heq, hc⟩

theorem Guarded.withParsed_pure (h : code ≠ .success) : Guarded c right (withParsed fun _ => Pure.pure code) := by
  intro s
  have hgives : Gives (withParsed fun _ => Pure.pure code) s fun code' as => code' = code ∧ as = [] := by
    apply Gives.withParsed
    intro s₁ h₁
    exact Inside.pure h₁ ⟨rfl, rfl⟩
  refine .inl (Returns.mono hgives ?_)
  rintro _ s₁ ⟨as, hruns, rfl, rfl⟩
  refine ⟨[], hruns, ?_⟩
  rintro (hcode | has)
  · exact absurd hcode h
  · exact absurd rfl has

namespace Libgcrypt

variable (lib : Library)

-- The password gives the code that is in the file.
def Verifies (macData : MacData) (algorithm : Oid) (digest content : Bytes) (password : Password) : Prop :=
  ∃ mac, lib.gcrypt.readMac algorithm password macData = some (mac, digest.length) ∧ mac content = digest

theorem tryMac_tells (macData : MacData) (algorithm : Oid) (digest content : Bytes) :
    Tells (Verifies lib macData algorithm digest content) (tryMac lib macData algorithm digest content) := by
  intro password
  rw [tryMac]
  cases hmac : lib.gcrypt.readMac algorithm password macData
  case none => exact ⟨some .failure, call_bind rfl, fun h => absurd h (by decide)⟩
  case some mac =>
    obtain ⟨mac, length⟩ := mac
    by_cases hlength : length = digest.length
    case neg => exact ⟨some .failure, call_bind (if_pos hlength), fun h => absurd h (by decide)⟩
    case pos =>
      subst hlength
      have hsame : ¬digest.length ≠ digest.length := not_not.mpr rfl
      by_cases hdigest : mac content = digest
      case pos => exact ⟨some .success, call_bind ((if_neg hsame).trans (if_pos hdigest)), fun _ => ⟨mac, hmac, hdigest⟩⟩
      case neg => exact ⟨none, call_bind ((if_neg hsame).trans (if_neg hdigest)), fun h => by cases h⟩

theorem verifyPkcs12Safe_gives (macData : Option MacData) (content : Bytes) (s : State) :
    Gives (verifyPkcs12Safe lib macData content) s Silent := by
  cases macData
  case none         => exact Gives.pure rfl
  case some macData =>
    rw [verifyPkcs12Safe]
    cases macData.algorithm
    case none           => exact Gives.pure rfl
    case some algorithm =>
      cases macData.digest
      case none        => exact Gives.pure rfl
      case some digest => exact (tryMac_tells lib macData algorithm digest content).silent s

-- The password that lets the contents be parsed verifies the MAC.
def Lets (asn : Pfx) (macData : MacData) (password : Password) : Prop :=
  ∃ algorithm digest string, macData.algorithm = some algorithm ∧ macData.digest = some digest ∧
    (asn.content.bind lib.asn1.pkcs7Data).bind id = some string ∧ Verifies lib macData algorithm digest string password

theorem parsePkcs12Content_guarded {asn : Pfx} (macData : MacData) {string : Bytes}
    (hstring : (asn.content.bind lib.asn1.pkcs7Data).bind id = some string) :
    Guarded c (Lets lib asn macData) (parsePkcs12Content lib (some macData) string) := by
  have hfailure : Guarded c (Lets lib asn macData) (Pure.pure .failure) := .pure (by decide)
  rw [parsePkcs12Content, verifyPkcs12Safe]
  cases halgorithm : macData.algorithm
  case none           => exact hfailure
  case some algorithm =>
    cases hdigest : macData.digest
    case none        => exact hfailure
    case some digest =>
      have htells := tryMac_tells lib macData algorithm digest string
      refine .of_loop (htells.mono fun password hverifies => ?_) (handlePkcs12Safe_balanced lib string).unless
      exact ⟨algorithm, digest, string, halgorithm, hdigest, hstring, hverifies⟩

theorem parseDerPkcs12_guarded {asn : Pfx} {macData : MacData} (hasn : lib.asn1.pfx data = some asn)
    (hmac : asn.macData = some macData) : Guarded c (Lets lib asn macData) (parseDerPkcs12 lib data) := by
  simp only [parseDerPkcs12, hasn]
  apply Guarded.withBlock
  apply Guarded.ite
  · exact .pure (by decide)
  · cases hstring : (asn.content.bind lib.asn1.pkcs7Data).bind id
    case none        => exact .pure (by decide)
    case some string =>
      rw [hmac]
      exact parsePkcs12Content_guarded lib macData hstring

theorem parseDerPkcs12_balanced (data : Bytes) : Balanced (parseDerPkcs12 lib data) := by
  rw [parseDerPkcs12]
  cases lib.asn1.pfx data
  case none     => exact .withParsed fun s s₁ h₁ => Inside.pure h₁ trivial
  case some asn =>
    apply Balanced.withBlock
    apply Balanced.ite (.pure _)
    cases (asn.content.bind lib.asn1.pkcs7Data).bind id
    case none        => exact .pure _
    case some string =>
      refine Balanced.bind (.of_gives (verifyPkcs12Safe_gives lib asn.macData string)) fun _ => Balanced.ite ?_ (.pure _)
      exact handlePkcs12Safe_balanced lib string

end Libgcrypt

namespace Gnutls

variable (lib : Library)

theorem tryMac_tells (pkcs12 : Pkcs12) : Tells (pkcs12.verifyMac · = false) (tryMac pkcs12) := by
  intro password
  rw [tryMac]
  cases hverified : pkcs12.verifyMac password
  case true  => exact ⟨none, call_bind rfl, fun h => by cases h⟩
  case false => exact ⟨some .success, call_bind rfl, fun _ => hverified⟩

theorem verifyMacData_gives (macData : Option MacData) (pkcs12 : Pkcs12) (s : State) :
    Gives (verifyMacData macData pkcs12) s Silent := by
  cases macData
  case none   => exact Gives.pure rfl
  case some _ => exact (tryMac_tells pkcs12).silent s

-- The password that lets the contents be parsed does not verify the MAC.
def Lets (data : Bytes) (password : Password) : Prop :=
  ∃ pkcs12, lib.gnutls.importPkcs12 data = some pkcs12 ∧ pkcs12.verifyMac password = false

-- A bag of the file is stale.
def Frees (data : Bytes) (fault : Fault) : Prop :=
  fault = .freed ∧ ∃ pkcs12, lib.gnutls.importPkcs12 data = some pkcs12 ∧ ∃ bag ∈ pkcs12.bags, StaleIn lib bag

theorem handlePkcs12Safe_frees {pkcs12 : Pkcs12} (hpkcs12 : lib.gnutls.importPkcs12 data = some pkcs12) :
    BalancedUnless (Frees lib data) (handlePkcs12Safe lib pkcs12) :=
  (handlePkcs12Safe_unless lib pkcs12).mono fun _ h => ⟨h.1, pkcs12, hpkcs12, h.2⟩

theorem parseDerPkcs12_guarded {asn : Pfx} {macData : MacData} (hasn : lib.asn1.pfx data = some asn)
    (hmac : asn.macData = some macData) : Guarded (Frees lib data) (Lets lib data) (parseDerPkcs12 lib data) := by
  simp only [parseDerPkcs12, hasn]
  cases hpkcs12 : lib.gnutls.importPkcs12 data
  case none        => exact .withParsed_pure (by decide)
  case some pkcs12 =>
    apply Guarded.withBlock
    rw [hmac]
    exact .of_loop ((tryMac_tells pkcs12).mono fun password hverified => ⟨pkcs12, hpkcs12, hverified⟩)
      (handlePkcs12Safe_frees lib hpkcs12)

theorem parseDerPkcs12_unless (data : Bytes) : BalancedUnless (Frees lib data) (parseDerPkcs12 lib data) := by
  rw [parseDerPkcs12]
  cases lib.asn1.pfx data
  case none     => exact Balanced.unless (.withParsed fun s s₁ h₁ => Inside.pure h₁ trivial)
  case some asn =>
    dsimp only
    cases hpkcs12 : lib.gnutls.importPkcs12 data
    case none        => exact Balanced.unless (.withParsed fun s s₁ h₁ => Inside.pure h₁ trivial)
    case some pkcs12 =>
      apply BalancedUnless.withBlock
      refine (Balanced.of_gives (verifyMacData_gives asn.macData pkcs12)).unless.bind fun _ =>
        .ite (fun _ => ?_) fun _ => (Balanced.pure _).unless
      exact handlePkcs12Safe_frees lib hpkcs12

end Gnutls

-- The passwords that let the contents of a file with a MAC be parsed.
def Backend.Lets (backend : Backend) (lib : Library) (data : Bytes) (asn : Pfx) (macData : MacData) (password : Password) :
    Prop :=
  match backend with
  | .libgcrypt => Libgcrypt.Lets lib asn macData password
  | .gnutls    => Gnutls.Lets lib data password

-- Nothing in a file with a MAC is announced, and no success returned, unless one of the passwords that were tried lets it be.
-- With libgcrypt that one verifies the MAC. With GnuTLS it is one that does not, and an element that is released twice may
-- stop the program.
theorem parseDerPkcs12_lets (backend : Backend) (lib : Library) (data : Bytes) (s : State) {asn : Pfx} {macData : MacData}
    (hasn : lib.asn1.pfx data = some asn) (hmac : asn.macData = some macData) :
    (Returns (backend.parseDerPkcs12 lib data) s fun code s' => s'.parsed = s.parsed ∧
      (code = .success ∨ s'.announced ≠ s.announced →
        ∃ password, backend.Lets lib data asn macData password ∧ .tried password ∈ s'.since s)) ∨
      backend.parseDerPkcs12 lib data s = .error .freed ∧ backend = .gnutls ∧ Gnutls.Frees lib data .freed := by
  have hguarded : Guarded (fun fault => backend = .gnutls ∧ Gnutls.Frees lib data fault) (backend.Lets lib data asn macData)
      (backend.parseDerPkcs12 lib data) := by
    cases backend
    case libgcrypt => exact Libgcrypt.parseDerPkcs12_guarded lib hasn hmac
    case gnutls    =>
      intro s
      exact (Gnutls.parseDerPkcs12_guarded lib hasn hmac s).imp_right fun ⟨fault, heq, h⟩ => ⟨fault, heq, rfl, h⟩
  obtain hreturns | ⟨_, heq, hbackend, hfrees⟩ := hguarded s
  · apply Or.inl
    apply Returns.mono hreturns
    rintro code s' ⟨as, hruns, hlets⟩
    refine ⟨hruns.parsed, fun h => hlets (h.imp_right fun hannounced has => hannounced ?_)⟩
    rw [hruns.announced, has, List.append_nil]
  · obtain rfl := hfrees.1
    exact .inr ⟨heq, hbackend, hfrees⟩

-- A file with a MAC that the password [2] verifies, and with a certificate.
def exampleMac : MacData :=
  ⟨some [1], some [2]⟩

def examplePfx : Pfx :=
  ⟨some oidPkcs7Data, some [3], some exampleMac⟩

def pkcs12Library : Library :=
  { exampleLibrary with
    asn1   := { exampleLibrary.asn1 with
      pfx               := fun _ => some examplePfx
      pkcs7Data         := fun data => some (some data)
      certBag           := fun data => some (some data)
      authenticatedSafe := fun _ => some [⟨oidPkcs7Data, some [4]⟩]
      safeContents      := fun _ => some [⟨some oidPkcs12BagCertificate, some [48], none⟩] }
    gcrypt := { exampleLibrary.gcrypt with readMac := fun _ password _ => some (fun _ => password.getD [], 1) } }

-- The first password is wrong.
def passwordState : State where
  passwords := [some [1], some [2]]

theorem parseDerPkcs12_lets_examplePfx :
    (Backend.libgcrypt.parseDerPkcs12 pkcs12Library [48] passwordState).map (·.1) = .ok .success ∧
    ((Returns (Backend.libgcrypt.parseDerPkcs12 pkcs12Library [48]) passwordState fun code s' => s'.parsed = [] ∧
      (code = .success ∨ s'.announced ≠ passwordState.announced →
        ∃ password, Backend.libgcrypt.Lets pkcs12Library [48] examplePfx exampleMac password ∧
          .tried password ∈ s'.since passwordState)) ∨
      Backend.libgcrypt.parseDerPkcs12 pkcs12Library [48] passwordState = .error .freed ∧ Backend.libgcrypt = .gnutls ∧
        Gnutls.Frees pkcs12Library [48] .freed) :=
  ⟨by decide +kernel, parseDerPkcs12_lets .libgcrypt pkcs12Library [48] passwordState rfl rfl⟩

end Parser
