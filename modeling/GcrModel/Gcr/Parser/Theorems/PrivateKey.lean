import GcrModel.Gcr.Parser.Pem
import GcrModel.Gcr.Parser.Theorems.Parsed

namespace Parser

open GLib

variable {s s₁ : State} {item : Parsed} {as : List Announcement} {own : Announcement → Prop} {data : Bytes}
  {format : DataFormat}

-- An item that has been announced, with the block that it got.
theorem announcement_is {below : List Parsed} {attrs : List Attribute} (hattrs : item.attrs = some attrs)
    (hformat : item.format = some format) (hdata : item.data = some data) :
    (announcement (item :: below)).Is ⟨attrs, format, data⟩ := by
  refine ⟨?_, ?_, ?_⟩
  · simp only [announcement, getParsedAttributes, List.findSome?_cons, hattrs]
  · simp only [announcement, getParsedFormat, List.find?_cons, hdata, Option.isSome_some, Option.bind_some, hformat]
  · simp only [announcement, getParsedBytes, List.findSome?_cons, hdata]

theorem setAsn1Number_returns (h : Runs s s₁ [item] as) (value : Option Bytes) (type : AttributeType) :
    Returns (setAsn1Number s.parsed.length value type) s₁ fun found s₂ =>
      Runs s s₂ [{ item with builder := item.builder ++ those [(value, type)] }] as ∧ found = value.isSome := by
  cases value
  case none =>
    have hsame : { item with builder := item.builder ++ those [(none, type)] } = item := by
      change { item with builder := item.builder ++ [] } = item
      rw [List.append_nil]
    exact Returns.pure ⟨hsame.symm ▸ h, rfl⟩
  case some value =>
    apply Returns.bind (setAttribute_returns h (.data type value))
    intro _ s₂ h₂
    exact Returns.pure ⟨h₂, rfl⟩

theorem setAsn1Numbers_returns (numbers : List (Option Bytes × AttributeType)) (h : Runs s s₁ [item] as) :
    Returns (setAsn1Numbers s.parsed.length numbers) s₁ fun found s₂ => ∃ attrs,
      Runs s s₂ [{ item with builder := item.builder ++ attrs }] as ∧
        present numbers = if found then some attrs else none := by
  induction numbers generalizing item s₁
  case nil =>
    refine Returns.pure ⟨[], ?_, rfl⟩
    rwa [List.append_nil]
  case cons number rest ih =>
    obtain ⟨value, type⟩ := number
    apply Returns.bind (setAsn1Number_returns h value type)
    rintro found s₂ ⟨h₂, rfl⟩
    cases value
    case none       => exact Returns.pure ⟨_, h₂, rfl⟩
    case some value =>
      apply Returns.mono (ih h₂)
      rintro found s₃ ⟨attrs, h₃, hattrs⟩
      rw [List.append_assoc] at h₃
      refine ⟨_, h₃, ?_⟩
      rw [present, hattrs]
      cases found
      case false => rfl
      case true  => rfl

theorem startPrivateKey_returns (h : Runs s s₁ [item] as) (type : KeyType) :
    Returns (startPrivateKey s.parsed.length type) s₁ fun _ s₂ =>
      Runs s s₂ [{ item with builder := privateKeyAttributes type [] }] as := by
  apply Returns.bind (parsingObject_returns h _)
  intro _ s₂ h₂
  apply Returns.bind (setAttribute_returns h₂ _)
  intro _ s₃ h₃
  exact setAttribute_returns h₃ _

-- The numbers of a key are behind those attributes that tell what it is.
theorem fireNumbers_inside (item : Parsed) {type : KeyType} (numbers : List (Option Bytes × AttributeType))
    (h : Runs s s₁ [{ item with builder := privateKeyAttributes type [] }] []) (hnone : item.attrs = none)
    (hown : ∀ attrs, present numbers = some attrs → own (announcement
      ({ item with attrs := some (privateKeyAttributes type attrs), builder := [] } :: s.parsed))) :
    Inside s (fireNumbers s.parsed.length numbers) s₁ (Outcome own) := by
  apply Returns.bind (setAsn1Numbers_returns numbers h)
  rintro found s₂ ⟨attrs, h₂, hattrs⟩
  cases found
  case true  => exact fireParsed_inside h₂ hnone (hown attrs hattrs)
  case false => exact Inside.pure h₂ .failure

-- A key with a block of its own.
theorem fireKey_inside {type : KeyType} (numbers : List (Option Bytes × AttributeType))
    (h : Runs s s₁ [{ builder := privateKeyAttributes type [], format := some format, data := some data }] [])
    (hown : ∀ attrs, present numbers = some attrs → ∀ a : Announcement,
      a.Is ⟨privateKeyAttributes type attrs, format, data⟩ → own a) :
    Inside s (fireNumbers s.parsed.length numbers) s₁ (Outcome own) := by
  apply fireNumbers_inside { format := some format, data := some data } numbers h rfl
  intro attrs hattrs
  exact hown attrs hattrs _ (announcement_is rfl rfl rfl)

-- What an announcement of the item is, unless there is no item.
def Announcement.IsOf (item : Option Item) (a : Announcement) : Prop :=
  ∃ i, item = some i ∧ a.Is i

-- The item before it is announced.
def Item.parsed (item : Item) : Parsed where
  builder := item.attributes
  format  := some item.format
  data    := some item.bytes

namespace Libgcrypt

variable (asn1 : Asn1)

theorem parseDerPrivateKeyRsa_gives (data : Bytes) (s : State) :
    Gives (parseDerPrivateKeyRsa asn1 data) s (Outcome (Announcement.IsOf (rsaItem asn1 data))) := by
  apply Gives.withParsed
  intro s₁ h₁
  cases hasn : asn1.rsaPrivateKey data
  case none     => exact Gives.unrecognized.inside h₁
  case some asn =>
    apply Returns.bind (parsingBlock_returns h₁ rfl _ data)
    intro _ s₂ h₂
    apply Returns.bind (startPrivateKey_returns h₂ .rsa)
    intro _ s₃ h₃
    cases hversion : asn.version
    case none         => exact Gives.failure.inside h₃
    case some version =>
      apply Returns.ite
      · intro _
        exact Gives.unrecognized.inside h₃
      · intro _
        apply fireKey_inside (rsaNumbers asn) h₃
        intro attrs hattrs a ha
        refine ⟨_, ?_, ha⟩
        simp only [rsaItem, hasn, Option.bind_eq_bind, Option.bind_some, hattrs]

theorem parseDerPrivateKeyDsa_gives (data : Bytes) (s : State) :
    Gives (parseDerPrivateKeyDsa asn1 data) s (Outcome (Announcement.IsOf (dsaItem asn1 data))) := by
  apply Gives.withParsed
  intro s₁ h₁
  cases hasn : asn1.dsaPrivateKey data
  case none     => exact Gives.unrecognized.inside h₁
  case some asn =>
    apply Returns.bind (parsingBlock_returns h₁ rfl _ data)
    intro _ s₂ h₂
    apply Returns.bind (startPrivateKey_returns h₂ .dsa)
    intro _ s₃ h₃
    apply fireKey_inside _ h₃
    intro attrs hattrs a ha
    refine ⟨_, ?_, ha⟩
    simp only [dsaItem, hasn, Option.bind_eq_bind, Option.bind_some, hattrs]

theorem parseDerPrivateKeyEc_gives (data : Bytes) (s : State) :
    Gives (parseDerPrivateKeyEc asn1 data) s (Outcome (Announcement.IsOf (ecItem asn1 data))) := by
  apply Gives.withParsed
  intro s₁ h₁
  cases hasn : asn1.ecPrivateKey data
  case none     => exact Gives.unrecognized.inside h₁
  case some asn =>
    dsimp only
    cases hversion : asn.version
    case none         => exact Gives.unrecognized.inside h₁
    case some version =>
      apply Returns.ite
      · intro _
        exact Gives.unrecognized.inside h₁
      · intro _
        apply Returns.bind (parsingBlock_returns h₁ rfl _ data)
        intro _ s₂ h₂
        apply Returns.bind (startPrivateKey_returns h₂ .ec)
        intro _ s₃ h₃
        apply fireKey_inside _ h₃
        intro attrs hattrs a ha
        refine ⟨_, ?_, ha⟩
        simp only [ecItem, hasn, Option.bind_eq_bind, Option.bind_some, hattrs]

-- The format and the block are those of the items below.
theorem parseDerPrivateKeyDsaParts_gives (keydata params : Bytes) (s : State) :
    Gives (parseDerPrivateKeyDsaParts asn1 keydata params) s (Outcome fun a => ∃ attrs,
      dsaPartsAttributes asn1 keydata params = some attrs ∧ a.attributes = some attrs ∧
        a.format = getParsedFormat s.parsed ∧ a.bytes = getParsedBytes s.parsed) := by
  apply Gives.withParsed
  intro s₁ h₁
  cases hparams : asn1.dsaParameters params
  case none           => exact Gives.unrecognized.inside h₁
  case some asnParams =>
    cases hkey : asn1.dsaPrivatePart keydata
    case none     => exact Gives.unrecognized.inside h₁
    case some key =>
      apply Returns.bind (startPrivateKey_returns h₁ .dsa)
      intro _ s₂ h₂
      apply fireNumbers_inside {} _ h₂ rfl
      intro attrs hattrs
      refine ⟨privateKeyAttributes .dsa attrs, ?_, rfl, ?_, rfl⟩
      · simp only [dsaPartsAttributes, hparams, hkey, Option.bind_eq_bind, Option.bind_some, hattrs]
      · simp only [announcement, getParsedFormat, List.find?_cons, Option.isSome_none]

end Libgcrypt

namespace Gnutls

variable (asn1 : Asn1) (gnutls : Gnutls)

-- What the functions for imported keys return, and what they leave on the stack.
inductive Handled (s : State) : Option Item → Code → State → Prop
  | success {item : Item} {s₂ : State} (h : Runs s s₂ [item.parsed] []) : Handled s (some item) .success s₂
  | failure {item : Parsed} {s₂ : State} (h : Runs s s₂ [item] []) : Handled s none .failure s₂
  | unrecognized {item : Parsed} {s₂ : State} (h : Runs s s₂ [item] []) : Handled s none .unrecognized s₂

theorem handlePrivateKeyRsa_returns (h₁ : Runs s s₁ [{}] []) (privkey : Privkey) (data : Bytes) :
    Returns (handlePrivateKeyRsa s.parsed.length privkey data) s₁
      (Handled s (if privkey.pkAlgorithm = .rsa then rsaItem privkey data else none)) := by
  apply Returns.ite
  · intro halgorithm
    rw [if_neg halgorithm]
    exact Returns.pure (.unrecognized h₁)
  · intro halgorithm
    rw [if_pos (not_not.mp halgorithm)]
    apply Returns.bind (parsingBlock_returns h₁ rfl _ data)
    intro _ s₂ h₂
    apply Returns.bind (startPrivateKey_returns h₂ .rsa)
    intro _ s₃ h₃
    cases hraw : privkey.rsaRaw
    case none     =>
      simp only [rsaItem, hraw, Option.map_none]
      exact Returns.pure (.failure h₃)
    case some raw =>
      simp only [rsaItem, hraw, Option.map_some]
      apply Returns.bind (setAttributes_returns h₃ _)
      intro _ s₄ h₄
      exact Returns.pure (.success h₄)

theorem handlePrivateKeyDsa_returns (h₁ : Runs s s₁ [{}] []) (privkey : Privkey) (data : Bytes) :
    Returns (handlePrivateKeyDsa s.parsed.length privkey data) s₁
      (Handled s (if privkey.pkAlgorithm = .dsa then dsaItem privkey data else none)) := by
  apply Returns.ite
  · intro halgorithm
    rw [if_neg halgorithm]
    exact Returns.pure (.unrecognized h₁)
  · intro halgorithm
    rw [if_pos (not_not.mp halgorithm)]
    apply Returns.bind (parsingBlock_returns h₁ rfl _ data)
    intro _ s₂ h₂
    apply Returns.bind (startPrivateKey_returns h₂ .dsa)
    intro _ s₃ h₃
    cases hraw : privkey.dsaRaw
    case none     =>
      simp only [dsaItem, hraw, Option.map_none]
      exact Returns.pure (.failure h₃)
    case some raw =>
      simp only [dsaItem, hraw, Option.map_some]
      apply Returns.bind (setAttributes_returns h₃ _)
      intro _ s₄ h₄
      exact Returns.pure (.success h₄)

theorem handlePrivateKeyEc_returns (h₁ : Runs s s₁ [{}] []) (privkey : Privkey) (data : Bytes) :
    Returns (handlePrivateKeyEc asn1 s.parsed.length privkey data) s₁
      (Handled s (if privkey.pkAlgorithm = .ec then ecItem asn1 privkey data else none)) := by
  apply Returns.ite
  · intro halgorithm
    rw [if_neg halgorithm]
    exact Returns.pure (.unrecognized h₁)
  · intro halgorithm
    rw [if_pos (not_not.mp halgorithm)]
    cases hasn : asn1.ecPrivateKey data
    case none     =>
      simp only [ecItem, hasn, Option.bind_eq_bind, Option.bind_none]
      exact Returns.pure (.unrecognized h₁)
    case some asn =>
      apply Returns.bind (parsingBlock_returns h₁ rfl _ data)
      intro _ s₂ h₂
      apply Returns.bind (startPrivateKey_returns h₂ .ec)
      intro _ s₃ h₃
      apply Returns.bind (setAsn1Numbers_returns _ h₃)
      rintro found s₄ ⟨attrs, h₄, hattrs⟩
      apply Returns.pure
      simp only [ecItem, hasn, Option.bind_eq_bind, Option.bind_some, hattrs]
      cases found
      case true  => exact .success h₄
      case false => exact .failure h₄

theorem handlePrivateKey_returns (h₁ : Runs s s₁ [{}] []) (privkey : Privkey) (data : Bytes) :
    Returns (handlePrivateKey asn1 s.parsed.length privkey data) s₁ (Handled s (keyItem asn1 privkey data)) := by
  cases halgorithm : privkey.pkAlgorithm
  case rsa =>
    have hhandled := handlePrivateKeyRsa_returns h₁ privkey data
    rw [if_pos halgorithm] at hhandled
    simpa only [handlePrivateKey, keyItem, halgorithm] using hhandled
  case dsa =>
    have hhandled := handlePrivateKeyDsa_returns h₁ privkey data
    rw [if_pos halgorithm] at hhandled
    simpa only [handlePrivateKey, keyItem, halgorithm] using hhandled
  case ec =>
    have hhandled := handlePrivateKeyEc_returns asn1 h₁ privkey data
    rw [if_pos halgorithm] at hhandled
    simpa only [handlePrivateKey, keyItem, halgorithm] using hhandled
  case other =>
    simp only [handlePrivateKey, keyItem, halgorithm]
    exact Returns.pure (.unrecognized h₁)

-- What is imported without a password is announced when it is a key of the type.
theorem parseDerPrivateKey_gives (algorithm : PkAlgorithm) (handle : Nat → Privkey → Bytes → ParserM Code)
    (keyItem : Privkey → Option Item)
    (hhandle : ∀ s s₁ privkey, Runs s s₁ [{}] [] → Returns (handle s.parsed.length privkey data) s₁
      (Handled s (if privkey.pkAlgorithm = algorithm then keyItem privkey else none))) (s : State) :
    Gives (parseDerPrivateKey gnutls handle data) s
      (Outcome (Announcement.IsOf ((gnutls.importDer data none).bind keyItem))) := by
  apply Gives.withParsed
  intro s₁ h₁
  cases himport : if gnutls.privkeyInit then gnutls.importDer data none else none
  case none         => exact Gives.unrecognized.inside h₁
  case some privkey =>
    have hprivkey := Option.ite_none_right_eq_some.mp himport
    apply Returns.bind (hhandle s s₁ privkey h₁)
    intro res s₂ hhandled
    generalize hitem : (if privkey.pkAlgorithm = algorithm then keyItem privkey else none) = own at hhandled
    cases hhandled
    case success item h₂ =>
      apply fireParsed_inside h₂ rfl
      refine ⟨item, ?_, announcement_is rfl rfl rfl⟩
      rw [hprivkey.right, Option.bind_some]
      exact (Option.ite_none_right_eq_some.mp hitem).right
    case failure h₂      => exact Inside.pure h₂ .failure
    case unrecognized h₂ => exact Inside.pure h₂ .unrecognized

end Gnutls

variable (backend : Backend) (lib : Library)

theorem parseDerPrivateKeyRsa_gives (data : Bytes) (s : State) :
    Gives (backend.parseDerPrivateKeyRsa lib data) s (Outcome (Announcement.IsOf (backend.rsaItem lib data))) := by
  cases backend
  case libgcrypt => exact Libgcrypt.parseDerPrivateKeyRsa_gives lib.asn1 data s
  case gnutls    =>
    apply Gnutls.parseDerPrivateKey_gives
    intro s s₁ privkey h
    exact Gnutls.handlePrivateKeyRsa_returns h privkey data

theorem parseDerPrivateKeyDsa_gives (data : Bytes) (s : State) :
    Gives (backend.parseDerPrivateKeyDsa lib data) s (Outcome (Announcement.IsOf (backend.dsaItem lib data))) := by
  cases backend
  case libgcrypt => exact Libgcrypt.parseDerPrivateKeyDsa_gives lib.asn1 data s
  case gnutls    =>
    apply Gnutls.parseDerPrivateKey_gives
    intro s s₁ privkey h
    exact Gnutls.handlePrivateKeyDsa_returns h privkey data

theorem parseDerPrivateKeyEc_gives (data : Bytes) (s : State) :
    Gives (backend.parseDerPrivateKeyEc lib data) s (Outcome (Announcement.IsOf (backend.ecItem lib data))) := by
  cases backend
  case libgcrypt => exact Libgcrypt.parseDerPrivateKeyEc_gives lib.asn1 data s
  case gnutls    =>
    apply Gnutls.parseDerPrivateKey_gives
    intro s s₁ privkey h
    exact Gnutls.handlePrivateKeyEc_returns lib.asn1 h privkey data

theorem parseDerPrivateKeyDsaParts_gives (keydata params : Bytes) (s : State) :
    Gives (backend.parseDerPrivateKeyDsaParts lib keydata params) s (Outcome fun a => ∃ attrs,
      backend.dsaPartsAttributes lib keydata params = some attrs ∧ a.attributes = some attrs ∧
        a.format = getParsedFormat s.parsed ∧ a.bytes = getParsedBytes s.parsed) := by
  cases backend
  case libgcrypt => exact Libgcrypt.parseDerPrivateKeyDsaParts_gives lib.asn1 keydata params s
  case gnutls    => exact Gives.unrecognized

end Parser
