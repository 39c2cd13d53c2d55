import GcrModel.Gcr.Parser.Theorems.Passwords
import GcrModel.Gcr.Parser.Theorems.PrivateKey
import Mathlib.Data.List.Forall2

-- The items that are not encrypted.
namespace Parser

open GLib

variable {s s₁ s₂ : State} {item : Parsed} {as : List Announcement} {data : Bytes} {format : DataFormat} {code : Code}
  {own : Item → Prop}

theorem setSubjectLabel_returns (h : Runs s s₁ [item] as) (hnone : item.label = none) (name : Option Bytes) :
    Returns (setSubjectLabel s.parsed.length name) s₁ fun _ s₂ => ∃ label, Runs s s₂ [{ item with label := label }] as := by
  have hsame : { item with label := none } = item := by
    rw [← hnone]
  apply Returns.bind (getLabel_returns s₁)
  rintro label _ ⟨-, rfl⟩
  cases label
  case some label => exact Returns.pure ⟨none, hsame.symm ▸ h⟩
  case none       =>
    cases name
    case none      => exact Returns.pure ⟨none, hsame.symm ▸ h⟩
    case some name =>
      apply Returns.mono (setLabel_returns h hnone (some name))
      intro _ s₂ h₂
      exact ⟨_, h₂⟩

theorem those_cons (number : Option Bytes × AttributeType) (rest : List (Option Bytes × AttributeType)) :
    those (number :: rest) = those [number] ++ those rest := by
  rw [those, those, those, ← List.filterMap_append, List.singleton_append]

theorem setAsn1Elements_returns (numbers : List (Option Bytes × AttributeType)) (h : Runs s s₁ [item] as) :
    Returns (setAsn1Elements s.parsed.length numbers) s₁ fun _ s₂ =>
      Runs s s₂ [{ item with builder := item.builder ++ those numbers }] as := by
  induction numbers generalizing item s₁
  case nil =>
    refine Returns.pure ?_
    change Runs s s₁ [{ item with builder := item.builder ++ [] }] as
    rwa [List.append_nil]
  case cons number rest ih =>
    apply Returns.bind (setAsn1Number_returns h number.1 number.2)
    rintro found s₂ ⟨h₂, -⟩
    apply Returns.mono (ih h₂)
    intro _ s₃ h₃
    rwa [List.append_assoc, ← those_cons] at h₃

-- An item with a block that is not announced yet, and what it is when it is to be announced.
inductive Prepared (own : Item → Prop) (format : DataFormat) (data : Bytes) (s : State) (ret : Code) (s₂ : State) : Prop
  | mk {attrs : List Attribute} {label : Option Bytes}
      (h : Runs s s₂ [{ builder := attrs, format := some format, data := some data, label := label }] [])
      (hown : ret = .success → own ⟨attrs, format, data⟩)

-- The announcement of an item of a kind.
def Announcement.IsSome (own : Item → Prop) (a : Announcement) : Prop :=
  ∃ i, own i ∧ a.Is i

theorem Prepared.inside (h : Prepared own format data s .success s₁) :
    Inside s (do fireParsed s.parsed.length; pure .success) s₁ (Outcome (Announcement.IsSome own)) := by
  obtain ⟨h, hown⟩ := h
  apply fireParsed_inside h rfl
  exact ⟨_, hown rfl, announcement_is rfl rfl rfl⟩

variable (lib : Library)

section PublicKey

theorem startPublicKey_returns (h : Runs s s₁ [item] as) (type : KeyType) :
    Returns (startPublicKey s.parsed.length type) s₁ fun _ s₂ =>
      Runs s s₂ [{ item with builder := publicKeyAttributes type [] }] as := by
  apply Returns.bind (parsingObject_returns h _)
  intro _ s₂ h₂
  exact setAttribute_returns h₂ _

-- The numbers of a key are behind those attributes that tell what it is.
theorem setNumbers_returns {type : KeyType} {numbers : List (Option Bytes × AttributeType)}
    (h : Runs s s₁ [{ builder := publicKeyAttributes type [], format := some format, data := some data }] [])
    (hown : ∀ attrs, present numbers = some attrs → own ⟨publicKeyAttributes type attrs, format, data⟩) :
    Returns (setNumbers s.parsed.length numbers) s₁ (Prepared own format data s) := by
  apply Returns.bind (setAsn1Numbers_returns numbers h)
  rintro found s₂ ⟨attrs, h₂, hattrs⟩
  cases found
  case true  => exact Returns.pure ⟨h₂, fun _ => hown attrs hattrs⟩
  case false => exact Returns.pure ⟨h₂, fun hcode => absurd hcode (by decide)⟩

theorem handleSubjectPublicKeyRsa_returns {asn : SubjectPublicKeyInfo} (hasn : lib.asn1.subjectPublicKeyInfo data = some asn)
    (halgorithm : asn.algorithm = oidPkix1Rsa)
    (h : Runs s s₁ [{ format := some .derSubjectPublicKey, data := some data }] []) :
    Returns (handleSubjectPublicKeyRsa lib s.parsed.length asn.subjectPublicKey) s₁
      (Prepared (SubjectPublicKeyItem lib data) .derSubjectPublicKey data s) := by
  rw [handleSubjectPublicKeyRsa]
  cases hkey : lib.asn1.rsaPublicKey asn.subjectPublicKey
  case none     => exact Returns.pure ⟨h, fun hcode => absurd hcode (by decide)⟩
  case some key =>
    apply Returns.bind (startPublicKey_returns h .rsa)
    intro _ s₂ h₂
    apply setNumbers_returns h₂
    intro attrs hattrs
    exact .rsa hasn halgorithm hkey hattrs

theorem handleSubjectPublicKeyDsa_returns {asn : SubjectPublicKeyInfo} (hasn : lib.asn1.subjectPublicKeyInfo data = some asn)
    (halgorithm : asn.algorithm = oidPkix1Dsa)
    (h : Runs s s₁ [{ format := some .derSubjectPublicKey, data := some data }] []) :
    Returns (handleSubjectPublicKeyDsa lib s.parsed.length asn.subjectPublicKey asn.parameters) s₁
      (Prepared (SubjectPublicKeyItem lib data) .derSubjectPublicKey data s) := by
  rw [handleSubjectPublicKeyDsa]
  cases hvalue : lib.asn1.dsaPublicPart asn.subjectPublicKey
  case none       => exact Returns.pure ⟨h, fun hcode => absurd hcode (by decide)⟩
  case some value =>
    cases hkey : asn.parameters.bind lib.asn1.dsaParameters
    case none     => exact Returns.pure ⟨h, fun hcode => absurd hcode (by decide)⟩
    case some key =>
      apply Returns.bind (startPublicKey_returns h .dsa)
      intro _ s₂ h₂
      apply setNumbers_returns h₂
      intro attrs hattrs
      exact .dsa hasn halgorithm hvalue hkey hattrs

theorem handleSubjectPublicKeyEc_returns {asn : SubjectPublicKeyInfo} (hasn : lib.asn1.subjectPublicKeyInfo data = some asn)
    (halgorithm : asn.algorithm = oidPkix1Ec)
    (h : Runs s s₁ [{ format := some .derSubjectPublicKey, data := some data }] []) :
    Returns (handleSubjectPublicKeyEc lib s.parsed.length asn.subjectPublicKey asn.parameters) s₁
      (Prepared (SubjectPublicKeyItem lib data) .derSubjectPublicKey data s) := by
  apply Returns.bind (startPublicKey_returns h .ec)
  intro _ s₂ h₂
  apply Returns.bind (setAttribute_returns h₂ _)
  intro _ s₃ h₃
  apply Returns.bind (setAsn1Number_returns h₃ _ .ecPoint)
  rintro found s₄ ⟨h₄, -⟩
  exact Returns.pure ⟨h₄, fun _ => .ec hasn halgorithm⟩

theorem parseDerSubjectPublicKey_gives (data : Bytes) (s : State) :
    Gives (parseDerSubjectPublicKey lib data) s (Outcome (Announcement.IsSome (SubjectPublicKeyItem lib data))) := by
  rw [parseDerSubjectPublicKey]
  cases hasn : lib.asn1.subjectPublicKeyInfo data
  case none     => exact Gives.unrecognized
  case some asn =>
    apply Gives.withParsed
    intro s₁ h₁
    apply Returns.bind (parsingBlock_returns h₁ rfl _ data)
    intro _ s₂ h₂
    have hhandled : Returns (handleSubjectPublicKey lib s.parsed.length asn) s₂
        (Prepared (SubjectPublicKeyItem lib data) .derSubjectPublicKey data s) := by
      apply Returns.ite
      · intro halgorithm
        exact handleSubjectPublicKeyRsa_returns lib hasn halgorithm h₂
      · intro _
        apply Returns.ite
        · intro halgorithm
          exact handleSubjectPublicKeyDsa_returns lib hasn halgorithm h₂
        · intro _
          apply Returns.ite
          · intro halgorithm
            exact handleSubjectPublicKeyEc_returns lib hasn halgorithm h₂
          · intro _
            exact Returns.pure ⟨h₂, fun hcode => absurd hcode (by decide)⟩
    apply Returns.bind hhandled
    intro ret s₃ h₃
    apply Returns.ite
    · rintro rfl
      exact h₃.inside
    · intro hret
      obtain ⟨h₃, -⟩ := h₃
      exact Inside.pure h₃ (.silent hret)

end PublicKey

section PrivateKey

variable (backend : Backend)

theorem parseDerPrivateKey_gives (data : Bytes) (s : State) :
    Gives (parseDerPrivateKey backend lib data) s
      (Outcome (Announcement.IsSome (PrivateKeyItem lib backend data))) := by
  apply Gives.orElse_item
  · apply (parseDerPrivateKeyRsa_gives backend lib data s).own_mono
    rintro a ⟨i, hi, ha⟩
    exact ⟨i, .rsa hi, ha⟩
  · intro s₁
    apply Gives.orElse_item
    · apply (parseDerPrivateKeyDsa_gives backend lib data s₁).own_mono
      rintro a ⟨i, hi, ha⟩
      exact ⟨i, .dsa hi, ha⟩
    · intro s₂
      apply (parseDerPrivateKeyEc_gives backend lib data s₂).own_mono
      rintro a ⟨i, hi, ha⟩
      exact ⟨i, .ec hi, ha⟩

-- The two parts of a DSA key are in the block of the structure.
theorem parsePkcs8Key_gives {asn : PrivateKeyInfo} {keydata : Bytes} {algorithm : Oid}
    (hasn : lib.asn1.privateKeyInfo data = some asn) (halgorithm : asn.algorithm = some algorithm)
    (hkey : asn.privateKey = some keydata)
    (hknown : ¬(algorithm ≠ oidPkix1Rsa ∧ algorithm ≠ oidPkix1Dsa ∧ algorithm ≠ oidPkix1Ec))
    (hformat : getParsedFormat s.parsed = some .derPkcs8Plain) (hbytes : getParsedBytes s.parsed = some data) :
    Gives (parsePkcs8Key backend lib asn keydata algorithm) s
      (Outcome (Announcement.IsSome (Pkcs8Item lib backend data))) := by
  by_cases hrsa : algorithm = oidPkix1Rsa
  case pos =>
    subst hrsa
    rw [parsePkcs8Key, if_pos rfl]
    apply (parseDerPrivateKeyRsa_gives backend lib keydata s).own_mono
    rintro a ⟨i, hi, ha⟩
    exact ⟨i, .rsa hasn halgorithm hkey hi, ha⟩
  by_cases hdsa : algorithm = oidPkix1Dsa
  case pos =>
    subst hdsa
    have hsane : ∀ s, Gives (backend.parseDerPrivateKeyDsa lib keydata) s
        (Outcome (Announcement.IsSome (Pkcs8Item lib backend data))) := by
      intro s
      apply (parseDerPrivateKeyDsa_gives backend lib keydata s).own_mono
      rintro a ⟨i, hi, ha⟩
      exact ⟨i, .dsa hasn halgorithm hkey hi, ha⟩
    rw [parsePkcs8Key, if_neg hrsa, if_pos rfl]
    cases hparams : asn.parameters
    case none        => exact hsane s
    case some params =>
      refine (hsane s).orElse ?_ fun _ => Outcome.nil
      intro s₁ h₁
      apply (parseDerPrivateKeyDsaParts_gives backend lib keydata params s₁).own_mono
      rintro a ⟨attrs, hattrs, ha, haformat, habytes⟩
      have hparsed : s₁.parsed = s.parsed := h₁.parsed
      rw [hparsed] at haformat habytes
      exact ⟨_, .dsaParts hasn halgorithm hkey hparams hattrs, ha, haformat.trans hformat, habytes.trans hbytes⟩
  have hec : algorithm = oidPkix1Ec := by
    by_contra hec
    exact hknown ⟨hrsa, hdsa, hec⟩
  subst hec
  rw [parsePkcs8Key, if_neg hrsa, if_neg hdsa]
  apply (parseDerPrivateKeyEc_gives backend lib keydata s).own_mono
  rintro a ⟨i, hi, ha⟩
  exact ⟨i, .ec hasn halgorithm hkey hi, ha⟩

theorem parseDerPkcs8Plain_gives (data : Bytes) (s : State) :
    Gives (parseDerPkcs8Plain backend lib data) s (Outcome (Announcement.IsSome (Pkcs8Item lib backend data))) := by
  apply Gives.withParsed
  intro s₁ h₁
  cases hasn : lib.asn1.privateKeyInfo data
  case none     => exact Gives.unrecognized.inside h₁
  case some asn =>
    apply Returns.bind (parsingBlock_returns h₁ rfl _ data)
    intro _ s₂ h₂
    cases halgorithm : asn.algorithm
    case none           => exact Gives.failure.inside h₂
    case some algorithm =>
      apply Returns.ite
      · intro _
        exact Gives.unrecognized.inside h₂
      · intro hknown
        cases hkey : asn.privateKey
        case none         => exact Gives.failure.inside h₂
        case some keydata =>
          have hparsed : s₂.parsed = { format := some .derPkcs8Plain, data := some data } :: s.parsed := h₂.parsed
          refine (parsePkcs8Key_gives lib backend hasn halgorithm hkey hknown ?_ ?_).inside h₂
          · rw [hparsed]
            rfl
          · rw [hparsed]
            rfl

end PrivateKey

section Certificate

theorem parseDerCertificate_gives (data : Bytes) (s : State) :
    Gives (parseDerCertificate lib data) s (Outcome (Announcement.IsOf (certificateItem lib data))) := by
  rw [parseDerCertificate]
  cases hasn : lib.asn1.certificate data
  case none     => exact Gives.unrecognized
  case some asn =>
    apply Gives.withParsed
    intro s₁ h₁
    apply Returns.bind (parsingBlock_returns h₁ rfl _ data)
    intro _ s₂ h₂
    apply Returns.bind (parsingObject_returns h₂ _)
    intro _ s₃ h₃
    apply Returns.bind (setAttribute_returns h₃ _)
    intro _ s₄ h₄
    apply Returns.bind (setSubjectLabel_returns h₄ rfl asn.commonName)
    rintro _ s₅ ⟨label, h₅⟩
    apply Returns.bind (setAttribute_returns h₅ _)
    intro _ s₆ h₆
    apply Returns.bind (setAsn1Elements_returns _ h₆)
    intro _ s₇ h₇
    apply fireParsed_inside h₇ rfl
    refine ⟨_, ?_, announcement_is rfl rfl rfl⟩
    simp only [certificateItem, hasn]
    rfl

theorem parseDerPkcs10_gives (data : Bytes) (s : State) :
    Gives (parseDerPkcs10 lib data) s (Outcome (Announcement.IsOf (pkcs10Item lib data))) := by
  rw [parseDerPkcs10]
  cases hasn : lib.asn1.certificationRequest data
  case none     => exact Gives.unrecognized
  case some asn =>
    apply Gives.withParsed
    intro s₁ h₁
    apply Returns.bind (parsingBlock_returns h₁ rfl _ data)
    intro _ s₂ h₂
    apply Returns.bind (parsingObject_returns h₂ _)
    intro _ s₃ h₃
    apply Returns.bind (setAttribute_returns h₃ _)
    intro _ s₄ h₄
    apply Returns.bind (setSubjectLabel_returns h₄ rfl asn.commonName)
    rintro _ s₅ ⟨label, h₅⟩
    apply Returns.bind (setAttribute_returns h₅ _)
    intro _ s₆ h₆
    apply Returns.bind (setAsn1Elements_returns _ h₆)
    intro _ s₇ h₇
    apply fireParsed_inside h₇ rfl
    refine ⟨_, ?_, announcement_is rfl rfl rfl⟩
    simp only [pkcs10Item, hasn]
    rfl

theorem parseDerSpkac_gives (data : Bytes) (s : State) :
    Gives (parseDerSpkac lib data) s (Outcome fun a => a.Is (spkacItem data)) := by
  apply Returns.ite
  · intro _
    exact Gives.unrecognized
  · intro _
    apply Gives.withParsed
    intro s₁ h₁
    apply Returns.bind (parsingBlock_returns h₁ rfl _ data)
    intro _ s₂ h₂
    apply Returns.bind (parsingObject_returns h₂ _)
    intro _ s₃ h₃
    apply Returns.bind (setAttribute_returns h₃ _)
    intro _ s₄ h₄
    apply Returns.bind (setAttribute_returns h₄ _)
    intro _ s₅ h₅
    exact fireParsed_inside h₅ rfl (announcement_is rfl rfl rfl)

-- The request that is decoded has a block of its own.
theorem parseBase64Spkac_gives (data : Bytes) (s : State) :
    Gives (parseBase64Spkac lib data) s (Outcome fun a => ∃ spkac, lib.base64 data = some spkac ∧ a.Is (spkacItem spkac)) := by
  apply Returns.ite
  · intro _
    exact Gives.unrecognized
  · intro _
    apply Gives.withParsed
    intro s₁ h₁
    apply Returns.bind (parsingBlock_returns h₁ rfl _ data)
    intro _ s₂ h₂
    cases hspkac : lib.base64 data
    case none       => exact Gives.failure.inside h₂
    case some spkac =>
      apply Gives.inside _ h₂
      apply (parseDerSpkac_gives lib spkac s₂).own_mono
      intro a ha
      exact ⟨spkac, rfl, ha⟩

-- What is announced is of the items, one after the other.
def AreOf (items : List Item) (as : List Announcement) : Prop :=
  List.Forall₂ (fun item a => a.Is item) items as

theorem onOpenpgpPacket_gives (block : Openpgp.Block) (s : State) :
    Gives (onOpenpgpPacket block) s fun _ as => AreOf (openpgpItem block).toList as := by
  rw [onOpenpgpPacket, openpgpItem]
  split
  case isTrue  => exact Gives.pure .nil
  case isFalse =>
    apply Gives.withParsed
    intro s₁ h₁
    apply Returns.bind (parsingBlock_returns h₁ rfl _ block.outer)
    intro _ s₂ h₂
    apply Returns.bind (parsingObject_returns h₂ _)
    intro _ s₃ h₃
    apply Returns.bind (setAttribute_returns h₃ _)
    intro _ s₄ h₄
    apply Returns.bind (fireParsed_returns h₄ rfl)
    intro _ s₅ h₅
    exact Inside.pure h₅ (.cons (announcement_is rfl rfl rfl) .nil)

theorem onOpensshPublicKeyParsed_gives (key : OpensshKey) (s : State) :
    Gives (onOpensshPublicKeyParsed key) s fun _ as => AreOf [opensshItem key] as := by
  apply Gives.withParsed
  intro s₁ h₁
  apply Returns.bind (parsingBlock_returns h₁ rfl _ key.outer)
  intro _ s₂ h₂
  apply Returns.bind (setAttributes_returns h₂ _)
  intro _ s₃ h₃
  apply Returns.bind (setLabel_returns h₃ rfl key.label)
  intro _ s₄ h₄
  apply Returns.bind (fireParsed_returns h₄ rfl)
  intro _ s₅ h₅
  exact Inside.pure h₅ (.cons (announcement_is rfl rfl rfl) .nil)

-- The calls one after the other.
theorem forEach_returns {α : Type} {callback : α → ParserM Code} {items : α → List Item}
    (h : ∀ a s, Gives (callback a) s fun _ as => AreOf (items a) as) (l : List α) (s : State) :
    Returns (forEach callback l) s fun _ s' => ∃ as, Runs s s' [] as ∧ AreOf (l.flatMap items) as := by
  induction l generalizing s
  case nil            => exact Returns.pure ⟨[], Runs.refl s, .nil⟩
  case cons a rest ih =>
    apply Returns.bind (h a s)
    rintro code s₁ ⟨as, hruns, has⟩
    apply Returns.mono (ih s₁)
    rintro _ s₂ ⟨bs, hruns', hbs⟩
    exact ⟨as ++ bs, hruns.trans hruns', List.rel_append has hbs⟩

theorem handleOpenpgpBlocks_gives (blocks : List Openpgp.Block) (s : State) :
    Gives (handleOpenpgpBlocks blocks) s fun code as => AreOf (blocks.flatMap fun block => (openpgpItem block).toList) as ∧
      code = if blocks.isEmpty then .unrecognized else .success := by
  apply Returns.bind (forEach_returns onOpenpgpPacket_gives _ s)
  rintro _ s₁ ⟨as, hruns, has⟩
  exact Returns.pure ⟨as, hruns, has, rfl⟩

theorem parseOpensshPublic_gives (data : Bytes) (s : State) :
    Gives (parseOpensshPublic lib data) s fun code as => AreOf ((lib.openssh data).flatMap fun key => [opensshItem key]) as ∧
      code = if lib.openssh data = [] then .unrecognized else .success := by
  apply Returns.bind (forEach_returns onOpensshPublicKeyParsed_gives _ s)
  rintro _ s₁ ⟨as, hruns, has⟩
  exact Returns.pure ⟨as, hruns, has, rfl⟩

end Certificate

end Parser
