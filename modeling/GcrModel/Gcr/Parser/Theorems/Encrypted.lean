import GcrModel.Gcr.Parser.Theorems.Items

-- The items that are encrypted, and the containers.
namespace Parser

open GLib

variable {s s₁ : State} {as bs : List Announcement} {data : Bytes} {password : Password} {code : Code}
  {p : List Announcement → Prop} {q : Code → List Announcement → Prop} {own : Announcement → Prop}
  {x y : ParserM Code} {attempt : Password → ParserM (Option Code)}

section Collects

-- What is announced by a loop that goes on, and until it returns.
structure Collects (p : List Announcement → Prop) (q : Code → List Announcement → Prop) : Prop where
  nil      : p []
  append   : ∀ {as bs}, p as → p bs → p (as ++ bs)
  returned : ∀ {code as bs}, p as → q code bs → q code (as ++ bs)
  refused  : ∀ code, code = .cancelled ∨ code = .locked → q code []

theorem Collects.gathers (h : Collects p q) : Gathers (p <| announcements ·) fun code es => q code (announcements es) where
  nil      := h.nil
  append   := by
    intro es fs hes hfs
    rw [announcements, List.filterMap_append]
    exact h.append hes hfs
  returned := by
    intro code es fs hes hfs
    rw [announcements, List.filterMap_append]
    exact h.returned hes hfs
  asked    := fun _ => h.nil
  refused  := fun _ => h.refused

-- Nothing is announced with a password that is not the right one.
theorem collects_nil (h : ∀ code, code = .cancelled ∨ code = .locked → q code []) : Collects (· = []) q where
  nil      := rfl
  append   := by
    rintro _ _ rfl rfl
    rfl
  returned := by
    rintro code _ bs rfl hbs
    exact hbs
  refused  := h

theorem collects_outcome (own : Announcement → Prop) : Collects (· = []) (Outcome own) := by
  refine collects_nil fun code hcode => .silent ?_
  rcases hcode with rfl | rfl
  · decide
  · decide

theorem collects_any : Collects (fun _ => True) fun _ _ => True where
  nil      := trivial
  append   := fun _ _ => trivial
  returned := fun _ _ => trivial
  refused  := fun _ _ => trivial

-- What trying a password announces.
def Tries (x : ParserM (Option Code)) (s : State) (p : List Announcement → Prop) (q : Code → List Announcement → Prop) : Prop :=
  Returns x s fun r s' => ∃ as, Runs s s' [] as ∧ r.elim (p as) (q · as)

theorem Tries.pure {r : Option Code} (h : r.elim (p []) (q · [])) : Tries (Pure.pure r) s p q :=
  Returns.pure ⟨[], Runs.refl s, h⟩

-- Unrecognized data stands for a bad password.
theorem Gives.tries (h : Gives x s q) (hp : ∀ as, q .unrecognized as → p as) :
    Tries (do let r ← x; Pure.pure (unlessUnrecognized r)) s p q := by
  apply Returns.bind h
  rintro r s₁ ⟨as, hruns, hq⟩
  refine Returns.pure ⟨as, hruns, ?_⟩
  rw [unlessUnrecognized]
  split
  case isTrue hr =>
    subst hr
    exact hp as hq
  case isFalse   => exact hq

-- What a password comes to that the library is called with.
structure Attempts (p : List Announcement → Prop) (q : Code → List Announcement → Prop) (password : Password) (s : State)
    (r : Option Code) (s' : State) : Prop where
  runs  : ∃ as, Runs s s' [] as ∧ r.elim (p as) (q · as)
  tried : .tried password ∈ s'.since s

theorem Tries.attempts {α : Type} {result : α} {f : α → ParserM (Option Code)} (hknown : password ∈ s.passwords)
    (hf : ∀ s₁, Tries (f result) s₁ p q) : Returns (call password result >>= f) s (Attempts p q password s) := by
  apply Returns.bind (call_returns hknown result)
  rintro a s₁ ⟨rfl, hruns, -, htried⟩
  apply Returns.mono (hf s₁)
  rintro r s₂ ⟨as, hruns', hr⟩
  refine ⟨⟨_, hruns.trans hruns', hr⟩, ?_⟩
  rw [since_trans hruns.prompts.events hruns'.prompts.events]
  exact List.mem_append_left _ htried

theorem eachPassword_gives (hcollects : Collects p q)
    (hattempt : ∀ password s₁, password ∈ s₁.passwords → Returns (attempt password) s₁ (Attempts p q password s₁))
    (s : State) : Gives (eachPassword attempt) s q := by
  have hattempt' : ∀ password s₁, password ∈ s₁.passwords → Returns (attempt password) s₁
      (Attempted (p <| announcements ·) (fun code es => q code (announcements es)) password s₁) := by
    intro password s₁ hknown
    apply Returns.mono (hattempt password s₁ hknown)
    rintro r s₂ ⟨⟨as, hruns, hr⟩, htried⟩
    refine ⟨⟨as, hruns⟩, htried, ?_⟩
    rwa [hruns.announcements]
  apply Returns.mono (eachPassword_returns hcollects.gathers hattempt' s)
  rintro code s' ⟨⟨as, hruns⟩, hq⟩
  rw [hruns.announcements] at hq
  exact ⟨as, hruns, hq⟩

end Collects

variable (lib : Library)

section Keys

theorem Libgcrypt.parseDerPkcs8Encrypted_gives (data : Bytes) (s : State) :
    Gives (Libgcrypt.parseDerPkcs8Encrypted lib data) s
      (Outcome (Announcement.IsSome (EncryptedKeyItem lib .libgcrypt data))) := by
  apply Gives.withParsed
  intro s₁ h₁
  cases hinfo : lib.asn1.encryptedPrivateKeyInfo data
  case none      => exact Gives.unrecognized.inside h₁
  case some info =>
    apply Returns.bind (parsingBlock_returns h₁ rfl _ data)
    intro _ s₂ h₂
    cases hscheme : info.algorithm
    case none        => exact Gives.failure.inside h₂
    case some scheme =>
      refine (eachPassword_gives (collects_outcome _) ?_ s₂).inside h₂
      intro password s₃ hknown
      apply Tries.attempts hknown
      intro s₄
      cases hplain : decrypted lib info (lib.gcrypt.readCipher scheme password info.parameters)
      case none       => exact Tries.pure .failure
      case some plain =>
        refine Gives.tries ((parseDerPkcs8Plain_gives lib .libgcrypt plain s₄).own_mono ?_) fun _ => Outcome.nil
        rintro a ⟨i, hi, ha⟩
        exact ⟨i, ⟨info, scheme, password, plain, hinfo, hscheme, hplain, hi⟩, ha⟩

-- Nothing is announced of a key that is encrypted.
def Silent (_ : Code) (as : List Announcement) : Prop :=
  as = []

theorem collects_silent : Collects (· = []) Silent :=
  collects_nil fun _ _ => rfl

theorem Gnutls.handlePrivateKey_gives (privkey : Privkey) (data : Bytes) (s : State) :
    Gives (withParsed fun parsed => handlePrivateKey lib.asn1 parsed privkey data) s Silent := by
  apply Gives.withParsed
  intro s₁ h₁
  apply Returns.mono (Gnutls.handlePrivateKey_returns lib.asn1 h₁ privkey data)
  intro code s₂ hhandled
  generalize keyItem lib.asn1 privkey data = own at hhandled
  cases hhandled
  case success h      => exact ⟨_, [], h, rfl⟩
  case failure h      => exact ⟨_, [], h, rfl⟩
  case unrecognized h => exact ⟨_, [], h, rfl⟩

theorem Gnutls.handleImported_gives (privkey : Privkey) (data : Bytes) (s : State) :
    Gives (handleImported lib privkey data) s Silent := by
  apply Gives.withParsed
  intro s₁ h₁
  apply Returns.bind (parsingBlock_returns h₁ rfl _ data)
  intro _ s₂ h₂
  exact (Gnutls.handlePrivateKey_gives lib privkey data s₂).inside h₂

theorem Gnutls.parseDerPkcs8Encrypted_gives (data : Bytes) (s : State) :
    Gives (Gnutls.parseDerPkcs8Encrypted lib data) s Silent := by
  apply Gives.withParsed
  intro s₁ h₁
  cases hinfo : lib.asn1.encryptedPrivateKeyInfo data
  case none      => exact Inside.pure h₁ rfl
  case some info =>
    apply Returns.bind (parsingBlock_returns h₁ rfl _ data)
    intro _ s₂ h₂
    apply Returns.ite
    · intro _
      exact Inside.pure h₂ rfl
    · intro _
      refine (eachPassword_gives collects_silent ?_ s₂).inside h₂
      intro password s₃ hknown
      apply Tries.attempts hknown
      intro s₄
      cases lib.gnutls.importDer data password
      case none         => exact Tries.pure rfl
      case some privkey => exact Gives.tries (Gnutls.handleImported_gives lib privkey data s₄) fun _ => id

end Keys

section Balanced

-- It returns from every state, with the stack as it was.
def Balanced (x : ParserM Code) : Prop :=
  ∀ s, Gives x s fun _ _ => True

theorem Gives.any (h : Gives x s q) : Gives x s fun _ _ => True :=
  h.mono fun _ _ _ => trivial

theorem Balanced.of_gives {q : State → Code → List Announcement → Prop} (h : ∀ s, Gives x s (q s)) : Balanced x :=
  fun s => (h s).any

theorem Balanced.pure (code : Code) : Balanced (Pure.pure code) :=
  fun _ => Gives.pure trivial

theorem Balanced.bind {f : Code → ParserM Code} (hx : Balanced x) (hf : ∀ code, Balanced (f code)) : Balanced (x >>= f) := by
  intro s
  apply Gives.bind (hx s)
  intro code as s₁ _ _
  exact hf code s₁

theorem Balanced.ite {c : Prop} [Decidable c] (hx : Balanced x) (hy : Balanced y) : Balanced (if c then x else y) := by
  split
  · exact hx
  · exact hy

theorem Balanced.withParsed {body : Nat → ParserM Code}
    (h : ∀ s s₁, Runs s s₁ [{}] [] → Inside s (body s.parsed.length) s₁ fun _ _ => True) :
    Balanced (Parser.withParsed body) := by
  intro s
  apply Gives.withParsed
  intro s₁ h₁
  exact h s s₁ h₁

-- A block, and what comes behind it.
theorem Balanced.withBlock (format : DataFormat) (data : Bytes) (hx : Balanced x) :
    Balanced (Parser.withParsed fun parsed => do parsingBlock parsed format data; x) := by
  apply Balanced.withParsed
  intro s s₁ h₁
  apply Returns.bind (parsingBlock_returns h₁ rfl _ data)
  intro _ s₂ h₂
  exact (hx s₂).inside h₂

theorem Balanced.eachPassword
    (hattempt : ∀ password s₁, password ∈ s₁.passwords → Returns (attempt password) s₁
      (Attempts (fun _ => True) (fun _ _ => True) password s₁)) : Balanced (Parser.eachPassword attempt) :=
  fun s => eachPassword_gives collects_any hattempt s

section Unless

variable {c : Fault → Prop}

-- It is balanced, but for faults on the condition.
def BalancedUnless (c : Fault → Prop) (x : ParserM Code) : Prop :=
  ∀ s, (Gives x s fun _ _ => True) ∨ ∃ fault, x s = .error fault ∧ c fault

theorem Balanced.unless (h : Balanced x) : BalancedUnless c x :=
  fun s => .inl (h s)

-- A block, and what comes behind it: the whole is stopped when that is, and returns when that does.
theorem withBlock_runs (format : DataFormat) (data : Bytes) (x : ParserM Code) (s : State) : ∃ s₁ item, Runs s s₁ [item] [] ∧
    (∀ fault, x s₁ = .error fault →
      Parser.withParsed (fun parsed => do parsingBlock parsed format data; x) s = .error fault) ∧
    ∀ code s₂ as, x s₁ = .ok (code, s₂) → Runs s₁ s₂ [] as →
      ∃ s₃, Parser.withParsed (fun parsed => do parsingBlock parsed format data; x) s = .ok (code, s₃) ∧
        Runs s s₃ [] as ∧ s₃.events = s₂.events := by
  obtain ⟨_, s₀, hpush, rfl, h₀⟩ := pushParsed_returns s
  obtain ⟨_, s₁, hblock, h₁⟩ := parsingBlock_returns h₀ rfl format data
  have hbody : (do parsingBlock s.parsed.length format data; x) s₀ = x s₁ := Returns.bind_ok hblock
  refine ⟨s₁, _, h₁, fun fault hx => ?_, fun code s₂ as hx hruns => ?_⟩
  · rw [Parser.withParsed, Returns.bind_ok hpush, Returns.bind_error (hbody.trans hx)]
  · obtain ⟨_, s₃, hpop, h₃, hevents⟩ := popParsed_returns (h₁.trans hruns)
    refine ⟨s₃, ?_, h₃, hevents⟩
    rw [Parser.withParsed, Returns.bind_ok hpush, Returns.bind_ok (hbody.trans hx), Returns.bind_ok hpop]
    rfl

-- Where the attempts are others or are stopped, so is the loop.
theorem tryPasswords_unless {attempt' : Password → ParserM (Option Code)} (h : ∀ password s,
    attempt password s = attempt' password s ∨ ∃ fault, attempt password s = .error fault ∧ c fault)
    (fuel : Nat) (state : PasswordState) (s : State) : tryPasswords attempt fuel state s = tryPasswords attempt' fuel state s ∨
      ∃ fault, tryPasswords attempt fuel state s = .error fault ∧ c fault := by
  induction fuel generalizing state s
  case zero         => exact .inl rfl
  case succ fuel ih =>
    rw [tryPasswords, tryPasswords]
    cases hnext : enumNextPassword state s
    case error fault => exact .inl (by rw [Returns.bind_error hnext, Returns.bind_error hnext])
    case ok next     =>
      obtain ⟨_ | ⟨password, state'⟩, s₁⟩ := next
      · exact .inl (by rw [Returns.bind_ok hnext, Returns.bind_ok hnext])
      · rw [Returns.bind_ok hnext, Returns.bind_ok hnext]
        dsimp only
        obtain hsame | ⟨fault, hfault, hc⟩ := h password s₁
        · cases hattempt : attempt' password s₁
          case error fault =>
            exact .inl (by rw [Returns.bind_error (hsame.trans hattempt), Returns.bind_error hattempt])
          case ok r        =>
            rw [Returns.bind_ok (hsame.trans hattempt), Returns.bind_ok hattempt]
            obtain ⟨_ | code, s₂⟩ := r
            · exact ih state' s₂
            · exact .inl rfl
        · exact .inr ⟨fault, Returns.bind_error hfault, hc⟩

-- What returns where `x` is stopped.
def orFailure (x : ParserM (Option Code)) : ParserM (Option Code) := fun s =>
  match x s with
  | .error _ => .ok (some .failure, s)
  | .ok r    => .ok r

namespace BalancedUnless

theorem throw {fault : Fault} (h : c fault) : BalancedUnless c (throw fault) :=
  fun _ => .inr ⟨fault, rfl, h⟩

theorem mono {d : Fault → Prop} (h : BalancedUnless c x) (hcd : ∀ fault, c fault → d fault) : BalancedUnless d x :=
  fun s => (h s).imp_right fun ⟨fault, heq, hc⟩ => ⟨fault, heq, hcd fault hc⟩

theorem bind {f : Code → ParserM Code} (hx : BalancedUnless c x) (hf : ∀ code, BalancedUnless c (f code)) :
    BalancedUnless c (x >>= f) := by
  intro s
  obtain ⟨code, s₁, heq, as, hruns, -⟩ | ⟨fault, heq, hc⟩ := hx s
  · obtain hgives | ⟨fault, heq', hc⟩ := hf code s₁
    · refine .inl ?_
      rw [Gives, Returns, Returns.bind_ok heq]
      apply Returns.mono hgives
      rintro code' s₂ ⟨bs, hruns', -⟩
      exact ⟨as ++ bs, hruns.trans hruns', trivial⟩
    · exact .inr ⟨fault, (Returns.bind_ok heq).trans heq', hc⟩
  · exact .inr ⟨fault, Returns.bind_error heq, hc⟩

theorem ite {d : Prop} [Decidable d] (hx : d → BalancedUnless c x) (hy : ¬d → BalancedUnless c y) :
    BalancedUnless c (if d then x else y) := by
  split
  case isTrue hd  => exact hx hd
  case isFalse hd => exact hy hd

theorem orElse (hx : BalancedUnless c x) (hy : BalancedUnless c y) : BalancedUnless c (Parser.orElse x y) :=
  hx.bind fun _ => .ite (fun _ => hy) fun _ => (Balanced.pure _).unless

theorem foldlM {α : Type} {f : Code → α → ParserM Code} {l : List α} (h : ∀ a ∈ l, ∀ code, BalancedUnless c (f code a))
    (code : Code) : BalancedUnless c (l.foldlM f code) := by
  induction l generalizing code
  case nil            => exact (Balanced.pure code).unless
  case cons a rest ih =>
    rw [List.foldlM_cons]
    obtain ⟨ha, hrest⟩ := List.forall_mem_cons.mp h
    exact (ha code).bind fun code' => ih hrest code'

theorem withBlock (format : DataFormat) (data : Bytes) (hx : BalancedUnless c x) :
    BalancedUnless c (Parser.withParsed fun parsed => do parsingBlock parsed format data; x) := by
  intro s
  obtain ⟨s₁, item, -, hstops, hreturns⟩ := withBlock_runs format data x s
  obtain ⟨code, s₂, heq, as, hruns, -⟩ | ⟨fault, heq, hc⟩ := hx s₁
  · obtain ⟨s₃, heq', h₃, -⟩ := hreturns code s₂ as heq hruns
    exact .inl ⟨code, s₃, heq', as, h₃, trivial⟩
  · exact .inr ⟨fault, hstops fault heq, hc⟩

-- A loop in which the library is called with each password.
theorem eachPassword {α : Type} {result : Password → α} {f : α → ParserM (Option Code)}
    (h : ∀ password s, Tries (f (result password)) s (fun _ => True) (fun _ _ => True) ∨
      ∃ fault, f (result password) s = .error fault ∧ c fault) :
    BalancedUnless c (Parser.eachPassword fun password => call password (result password) >>= f) := by
  have hbalanced : Balanced (Parser.eachPassword fun password =>
      call password (result password) >>= fun a => orFailure (f a)) := by
    apply Balanced.eachPassword
    intro password s₁ hknown
    apply Tries.attempts hknown
    intro s₂
    obtain ⟨r, s₃, hf, hruns⟩ | ⟨fault, hf, -⟩ := h password s₂
    · exact ⟨r, s₃, by rw [orFailure, hf], hruns⟩
    · exact ⟨some .failure, s₂, by rw [orFailure, hf], [], Runs.refl s₂, trivial⟩
  intro s
  have hattempt : ∀ password s, (call password (result password) >>= f) s =
      (call password (result password) >>= fun a => orFailure (f a)) s ∨
      ∃ fault, (call password (result password) >>= f) s = .error fault ∧ c fault := by
    intro password s
    have hcall : call password (result password) s =
        .ok (result password, { s with events := s.events ++ [.tried password] }) := rfl
    rw [Returns.bind_ok hcall, Returns.bind_ok hcall]
    obtain ⟨r, s₃, hf, -⟩ | hf := h password { s with events := s.events ++ [.tried password] }
    · exact .inl (by rw [orFailure, hf])
    · exact .inr hf
  obtain heq | hfault := tryPasswords_unless hattempt (s.supply + 1) {} s
  · obtain ⟨code, s', heq', hruns⟩ := hbalanced s
    exact .inl ⟨code, s', heq.trans heq', hruns⟩
  · exact .inr hfault

-- The body of such a loop.
theorem tries (hx : BalancedUnless c x) (s : State) :
    Tries (do let r ← x; Pure.pure (unlessUnrecognized r)) s (fun _ => True) (fun _ _ => True) ∨
      ∃ fault, (do let r ← x; Pure.pure (unlessUnrecognized r) : ParserM (Option Code)) s = .error fault ∧ c fault := by
  obtain hgives | ⟨fault, heq, hc⟩ := hx s
  · exact .inl (hgives.tries fun _ => id)
  · exact .inr ⟨fault, Returns.bind_error heq, hc⟩

end BalancedUnless

end Unless

variable (backend : Backend)

theorem parseDerPkcs8Encrypted_balanced (data : Bytes) : Balanced (backend.parseDerPkcs8Encrypted lib data) := by
  cases backend
  case libgcrypt => exact .of_gives (Libgcrypt.parseDerPkcs8Encrypted_gives lib data)
  case gnutls    => exact .of_gives (Gnutls.parseDerPkcs8Encrypted_gives lib data)

theorem parseCertificates_balanced (certificates : List Bytes) : Balanced (parseCertificates lib certificates) := by
  induction certificates
  case nil                     => exact .pure _
  case cons certificate rest ih => exact (Balanced.of_gives (parseDerCertificate_gives lib certificate)).bind fun _ => ih.ite (.pure _)

theorem parseDerPkcs7_balanced (data : Bytes) : Balanced (parseDerPkcs7 lib data) := by
  rw [parseDerPkcs7]
  cases lib.asn1.contentInfo data
  case none     => exact .withParsed fun s s₁ h₁ => Inside.pure h₁ trivial
  case some asn =>
    apply Balanced.withBlock
    apply Balanced.ite (.pure _)
    cases asn.content
    case none         => exact .pure _
    case some content =>
      change Balanced (handlePkcs7SignedData lib content)
      rw [handlePkcs7SignedData]
      cases lib.asn1.signedData content
      case none              => exact .pure _
      case some certificates => exact parseCertificates_balanced lib certificates

theorem handlePkcs12CertBag_balanced (data : Bytes) : Balanced (handlePkcs12CertBag lib data) := by
  rw [handlePkcs12CertBag]
  cases lib.asn1.certBag data
  case none         => exact .pure _
  case some element =>
    dsimp only
    cases (element.bind lib.asn1.pkcs7Data).bind id
    case none             => exact .pure _
    case some certificate => exact .of_gives (parseDerCertificate_gives lib certificate)

theorem handleBagElement_balanced (element : BagElement) :
    Balanced (handleBagElement lib backend (backend.parseDerPkcs8Encrypted lib) element) := by
  apply Balanced.withParsed
  intro s s₁ h₁
  apply Returns.bind (setLabel_returns h₁ rfl _)
  intro _ s₂ h₂
  apply Gives.inside _ h₂
  cases element.type
  case pkcs8Key          => exact (parseDerPkcs8Plain_gives lib backend _ s₂).any
  case pkcs8EncryptedKey => exact parseDerPkcs8Encrypted_balanced lib backend _ s₂
  case certificate       => exact handlePkcs12CertBag_balanced lib _ s₂
  case encrypted         => exact Balanced.pure _ s₂
  case other             => exact Balanced.pure _ s₂

namespace Libgcrypt

theorem tryDecrypted_balanced {info : EncryptedInfo} {scheme : Oid} {parse : Bytes → ParserM Code}
    (hparse : ∀ data, Balanced (parse data)) : Balanced (eachPassword (tryDecrypted lib info scheme parse)) := by
  apply Balanced.eachPassword
  intro password s₁ hknown
  apply Tries.attempts hknown
  intro s₂
  cases decrypted lib info (lib.gcrypt.readCipher scheme password info.parameters)
  case none       => exact Tries.pure trivial
  case some plain => exact Gives.tries (hparse plain s₂) fun _ => id

theorem handleSafeBags_balanced (bags : List SafeBag) : Balanced (handleSafeBags lib bags) := by
  induction bags
  case nil              => exact .pure _
  case cons bag rest ih =>
    rw [handleSafeBags]
    cases bag.bagId
    case none     => exact .pure _
    case some oid =>
      cases bag.bagValue
      case none         => exact .pure _
      case some element => exact (handleBagElement_balanced lib .libgcrypt _).bind fun _ => Balanced.ite (.pure _) ih

theorem handlePkcs12Bag_balanced (data : Bytes) : Balanced (handlePkcs12Bag lib data) := by
  rw [handlePkcs12Bag]
  cases lib.asn1.safeContents data
  case none      => exact .pure _
  case some bags => exact handleSafeBags_balanced lib bags

theorem handlePkcs12EncryptedBag_balanced (bag : Bytes) : Balanced (handlePkcs12EncryptedBag lib bag) := by
  rw [handlePkcs12EncryptedBag]
  cases lib.asn1.encryptedData bag
  case none      => exact .pure _
  case some info =>
    dsimp only
    cases info.algorithm
    case none        => exact .pure _
    case some scheme =>
      cases info.parameters
      case none     => exact .pure _
      case some _   => exact tryDecrypted_balanced lib (handlePkcs12Bag_balanced lib)

theorem handleSafeContents_balanced (contents : List ContentInfo) : Balanced (handleSafeContents lib contents) := by
  induction contents
  case nil              => exact .pure _
  case cons asn rest ih =>
    rw [handleSafeContents]
    cases asn.content
    case none     => exact .pure _
    case some bag =>
      refine Balanced.bind (Balanced.ite ?_ (Balanced.ite ?_ (.pure _))) fun _ => Balanced.ite (.pure _) ih
      · cases (lib.asn1.pkcs7Data bag).bind id
        case none         => exact .pure _
        case some content => exact handlePkcs12Bag_balanced lib content
      · exact handlePkcs12EncryptedBag_balanced lib bag

theorem handlePkcs12Safe_balanced (data : Bytes) : Balanced (handlePkcs12Safe lib data) := by
  rw [handlePkcs12Safe]
  cases lib.asn1.authenticatedSafe data
  case none          => exact .pure _
  case some contents => exact handleSafeContents_balanced lib contents

end Libgcrypt

namespace Gnutls

-- There is an element of another type behind one whose bytes are still pointed to.
def hasStale (stale : Bool) : List BagElement → Bool
  | []                  => false
  | element :: elements => stale && !element.type.known || hasStale (stale || element.type.known) elements

theorem handleBagElements_unless (stale : Bool) (elements : List BagElement) :
    BalancedUnless (fun fault => fault = .freed ∧ hasStale stale elements) (handleBagElements lib stale elements) := by
  induction elements generalizing stale
  case nil                  => exact (Balanced.pure _).unless
  case cons element rest ih =>
    rw [handleBagElements]
    refine (handleBagElement_balanced lib .gnutls element).unless.bind fun ret => .ite (fun hstale => .throw ⟨rfl, ?_⟩) fun _ =>
      .ite (fun _ => (Balanced.pure _).unless) fun _ => ?_
    · simp [hasStale, hstale.1, hstale.2]
    · refine (ih (stale ∨ element.type.known)).mono fun fault hfault => ⟨hfault.1, ?_⟩
      have hrest := hfault.2
      simp only [Bool.decide_or, Bool.decide_eq_true] at hrest
      simp [hasStale, hrest]

def Stale (bag : Bag) : Prop :=
  ∃ elements, bag.elements = some elements ∧ hasStale false elements

theorem handlePkcs12Bag_unless (bag : Bag) :
    BalancedUnless (fun fault => fault = .freed ∧ Stale bag) (handlePkcs12Bag lib bag) := by
  rw [handlePkcs12Bag]
  cases helements : bag.elements
  case none          => exact (Balanced.pure _).unless
  case some elements =>
    exact (handleBagElements_unless lib false elements).mono fun fault h => ⟨h.1, elements, helements, h.2⟩

-- The bag itself, or what a password decrypts it to.
def StaleIn (bag : Bag) : Prop :=
  if bag.encrypted then ∃ password bag', lib.gnutls.bagDecrypt bag password = some bag' ∧ Stale bag' else Stale bag

theorem handlePkcs12EncryptedBag_unless (bag : Bag) : BalancedUnless (fun fault => fault = .freed ∧
    ∃ password bag', lib.gnutls.bagDecrypt bag password = some bag' ∧ Stale bag') (handlePkcs12EncryptedBag lib bag) := by
  apply BalancedUnless.eachPassword
  intro password s
  cases hbag : lib.gnutls.bagDecrypt bag password
  case none      => exact .inl (Tries.pure trivial)
  case some bag' =>
    exact ((handlePkcs12Bag_unless lib bag').mono fun fault h => ⟨h.1, password, bag', hbag, h.2⟩).tries s

theorem handleBag_unless (bag : Bag) : BalancedUnless (fun fault => fault = .freed ∧ StaleIn lib bag) (handleBag lib bag) := by
  refine .ite (fun hencrypted => ?_) fun hencrypted => ?_
  · exact (handlePkcs12EncryptedBag_unless lib bag).mono fun fault h => ⟨h.1, (if_pos hencrypted).mpr h.2⟩
  · exact (handlePkcs12Bag_unless lib bag).mono fun fault h => ⟨h.1, (if_neg hencrypted).mpr h.2⟩

theorem handlePkcs12Safe_unless (pkcs12 : Pkcs12) :
    BalancedUnless (fun fault => fault = .freed ∧ ∃ bag ∈ pkcs12.bags, StaleIn lib bag) (handlePkcs12Safe lib pkcs12) := by
  rw [handlePkcs12Safe]
  induction pkcs12.bags
  case nil              => exact (Balanced.pure _).unless
  case cons bag rest ih =>
    refine ((handleBag_unless lib bag).mono fun fault h => ⟨h.1, bag, List.mem_cons_self, h.2⟩).bind fun _ =>
      .ite (fun _ => (Balanced.pure _).unless) fun _ => ih.mono fun fault h => ⟨h.1, ?_⟩
    obtain ⟨bag', hbag', hstale⟩ := h.2
    exact ⟨bag', List.mem_cons_of_mem _ hbag', hstale⟩

end Gnutls

end Balanced

end Parser
