import GcrModel.Gcr.SecretExchange.Exchange
import Mathlib.Algebra.Ring.Nat

namespace SecretExchange

open GLib

variable {Priv Key : Type*} {c : Crypto Priv Key} {x y priv : Priv} {k : Key} {self : Exchange Priv Key}
  {pub iv value : Bytes} {enc : Option (Bytes × Bytes)} {plain : Option Bytes}

-- The key that two sides get from their key pairs.
def sharedKey (c : Crypto Priv Key) (x y : Priv) : Option Key :=
  (c.genSecret (c.pubkeyExport y) x).map c.hkdf

theorem sharedKey_comm (h : c.Lawful) (x y : Priv) : sharedKey c x y = sharedKey c y x := by
  rw [sharedKey, sharedKey, h.commutes]

theorem exists_sharedKey (h : c.Lawful) (x y : Priv) : ∃ k, sharedKey c x y = some k := by
  obtain ⟨ikm, hikm⟩ := h.agrees x y
  exact ⟨c.hkdf ikm, by rw [sharedKey, hikm, Option.map_some]⟩

-- A message has a public key, and maybe the encrypted secret and its initialization vector.
def fields (pub : Bytes) (enc : Option (Bytes × Bytes)) : List (Bytes × Bytes) :=
  (publicField, Base64.encode pub) ::
    enc.elim [] fun enc => [(secretField, Base64.encode enc.1), (ivField, Base64.encode enc.2)]

def messageFile (pub : Bytes) (enc : Option (Bytes × Bytes)) : KeyFile :=
  [(protocol1, fields pub enc)]

def message (pub : Bytes) (enc : Option (Bytes × Bytes)) : Bytes :=
  (messageFile pub enc).toData

theorem text_messageFile (pub : Bytes) (enc : Option (Bytes × Bytes)) :
    Exchange.text (messageFile pub enc) = message pub enc :=
  rfl

theorem setBase64_public (pub : Bytes) : keyFileSetBase64 [] publicField pub = messageFile pub none :=
  rfl

theorem setBase64_secret (pub value iv : Bytes) :
    keyFileSetBase64 (keyFileSetBase64 (messageFile pub none) secretField value) ivField iv =
      messageFile pub (some (value, iv)) :=
  rfl

theorem getBase64_encode {file : KeyFile} {field data : Bytes}
    (h : file.getValue protocol1 field = some (Base64.encode data)) : keyFileGetBase64 file field = some data := by
  rw [keyFileGetBase64, h, Option.map_some, Base64.decode, Base64.decodeFrom_encode]

theorem getBase64_public (pub : Bytes) (enc : Option (Bytes × Bytes)) :
    keyFileGetBase64 (messageFile pub enc) publicField = some pub :=
  getBase64_encode rfl

theorem hasKey_secret (pub : Bytes) (enc : Option (Bytes × Bytes)) :
    (messageFile pub enc).hasKey protocol1 secretField = enc.isSome := by
  cases enc <;> rfl

theorem getBase64_secret (pub value iv : Bytes) :
    keyFileGetBase64 (messageFile pub (some (value, iv))) secretField = some value :=
  getBase64_encode rfl

theorem getBase64_iv (pub value iv : Bytes) :
    keyFileGetBase64 (messageFile pub (some (value, iv))) ivField = some iv :=
  getBase64_encode rfl

theorem visible_encode (data : Bytes) : KeyFile.Visible (Base64.encode data) :=
  fun _ hc => UInt8.lt_trans (by decide) (Base64.lt_of_isSome_rank (Base64.isSome_rank_of_mem_encode hc))

theorem plainName_names : KeyFile.PlainName protocol1 ∧ KeyFile.PlainName publicField ∧
    KeyFile.PlainName secretField ∧ KeyFile.PlainName ivField := by
  refine ⟨⟨by decide, ?_⟩, ⟨by decide, ?_⟩, ⟨by decide, ?_⟩, ⟨by decide, ?_⟩⟩
  · simp [protocol1, ascii, KeyFile.encodingKey, KeyFile.equals, KeyFile.bracketOpen, KeyFile.bracketClose]
  · simp [publicField, ascii, KeyFile.encodingKey, KeyFile.equals, KeyFile.bracketOpen, KeyFile.bracketClose]
  · simp [secretField, ascii, KeyFile.encodingKey, KeyFile.equals, KeyFile.bracketOpen, KeyFile.bracketClose]
  · simp [ivField, ascii, KeyFile.encodingKey, KeyFile.equals, KeyFile.bracketOpen, KeyFile.bracketClose]

-- The text carries every byte of the fields.
theorem loadFromData_message (pub : Bytes) (enc : Option (Bytes × Bytes)) :
    KeyFile.loadFromData c.unicharIsalnum (message pub enc) = some (messageFile pub enc) := by
  obtain ⟨hprotocol, hpublic, hsecret, hiv⟩ := plainName_names
  apply KeyFile.loadFromData_toData hprotocol
  · intro pair hpair
    cases enc with
    | none =>
      cases List.mem_singleton.mp hpair
      exact ⟨hpublic, visible_encode pub⟩
    | some enc =>
      simp only [fields, Option.elim, List.mem_cons, List.not_mem_nil, or_false] at hpair
      rcases hpair with rfl | rfl | rfl
      · exact ⟨hpublic, visible_encode pub⟩
      · exact ⟨hsecret, visible_encode enc.1⟩
      · exact ⟨hiv, visible_encode enc.2⟩
  · cases enc with
    | none     => exact (by decide : [publicField].Nodup)
    | some enc => exact (by decide : [publicField, secretField, ivField].Nodup)

-- What is in a message for somebody who has the key.
inductive Carries (c : Crypto Priv Key) (k : Key) : Option (Bytes × Bytes) → Option Bytes → Prop
  | absent : Carries c k none none
  | encrypted {v i p : Bytes} : i.length = exchangeIvLength → v.length % 16 = 0 →
    Padding.pkcs7Unpad 16 (Cbc.decrypt c.cipher 16 k (v.length / 16) i v) = some p → Carries c k (some (v, i)) (some p)

namespace Exchange

-- The object has a certain key pair.
structure Has (c : Crypto Priv Key) (e : Exchange Priv Key) (x : Priv) : Prop where
  generated : e.generated = true
  publi     : e.publi = some (c.pubkeyExport x)
  priv      : e.defaultExchange.map (·.priv) = some x

theorem exists_data (h : Has c self x) : ∃ key, self.defaultExchange = some ⟨x, key⟩ := by
  obtain ⟨data, hdata, rfl⟩ := Option.map_eq_some_iff.mp h.priv
  exact ⟨data.key, hdata⟩

theorem transportKey_eq_some {k : Key} :
    self.transportKey = some k ↔ self.derived = true ∧ self.defaultExchange.bind (·.key) = some k := by
  rw [transportKey]
  split
  case isTrue h  => simp [h]
  case isFalse h => simp [h]

theorem begin_eq (self : Exchange Priv Key) (priv : Priv) : ∃ e, self.begin c priv = (e, message (c.pubkeyExport priv) none) ∧
    Has c e priv ∧ e.derived = false ∧ e.secret = none :=
  ⟨_, rfl, ⟨rfl, rfl, rfl⟩, rfl, rfl⟩

theorem encryptTransportData_spec (h : c.Lawful) (hk : self.transportKey = some k) (iv : Iv) {plainText : Bytes}
    (hle : plainText.length + 16 ≤ secureLimit) : ∃ v, self.encryptTransportData c iv plainText = some v ∧ Carries c k (some (v, iv.bytes)) (some plainText) := by
  obtain ⟨padded, hpadded⟩ := Padding.exists_pkcs7Pad (by decide : 0 < 16) (by decide) plainText
  obtain ⟨-, -, nPad, -, hpad, heq, n, hn⟩ := Padding.pkcs7Pad_eq_some hpadded
  have hfits : ¬secureLimit < padded.length := by
    rw [heq, List.length_append, List.length_replicate]
    omega
  have hdiv : padded.length / 16 = n := by omega
  have hlen : padded.length = n * 16 := by omega
  have henc := Cbc.length_encrypt k h.blocks iv.length hlen
  refine ⟨Cbc.encrypt c.cipher 16 k n iv.bytes padded, ?_, .encrypted iv.length ?_ ?_⟩
  · rw [encryptTransportData, ((transportKey_eq_some).mp hk).2, Option.bind_some, hpadded, Option.bind_some, if_neg hfits, hdiv]
  · rw [henc, Nat.mul_mod_left]
  · rw [henc, Nat.mul_div_cancel n (by decide), Cbc.decrypt_encrypt k h.blocks iv.length hlen,
      Padding.pkcs7Unpad_pkcs7Pad hpadded]

-- What is sent carries the secret for the holder of the same key.
theorem send_spec (h : c.Lawful) (hx : Has c self x) (hk : self.transportKey = some k) (iv : Iv)
    {secret : Option (Bytes × Int)} (hle : ∀ s, secret = some s → (secretBytes s.1 s.2).length + 16 ≤ secureLimit) :
    ∃ enc, self.send c iv secret = some (message (c.pubkeyExport x) enc) ∧
      Carries c k enc (secret.map fun s => secretBytes s.1 s.2) := by
  rw [send, if_pos ((transportKey_eq_some).mp hk).1, hx.publi, Option.getD_some]
  cases secret with
  | none => exact ⟨none, rfl, .absent⟩
  | some secret =>
    obtain ⟨v, hv, hcarries⟩ := encryptTransportData_spec h hk iv (hle secret rfl)
    refine ⟨some (v, iv.bytes), ?_, hcarries⟩
    simp only [performEncrypt, hv, setBase64_public, setBase64_secret, Option.map_some, text_messageFile]

theorem performDecrypt_spec (hk : self.transportKey = some k) {v i : Bytes} {p : Option Bytes}
    (h : Carries c k (some (v, i)) p) : self.performDecrypt c (messageFile pub (some (v, i))) = some p := by
  obtain _ | ⟨hi, hv, hp⟩ := h
  have hne : v ≠ [] := by
    rintro rfl
    cases hp
  simp only [performDecrypt, getBase64_secret, getBase64_iv, decryptTransportData,
    ((transportKey_eq_some).mp hk).2, Option.bind_some, hi, hv, hp, ne_eq, not_true_eq_false, hne, if_false]

theorem deriveKey_spec (hx : Has c self x) (hk : sharedKey c x y = some k) : ∃ e,
    self.deriveKey c (messageFile (c.pubkeyExport y) enc) = (true, e) ∧ Has c e x ∧ e.transportKey = some k := by
  obtain ⟨key, hdata⟩ := exists_data hx
  obtain ⟨ikm, hikm, rfl⟩ := Option.map_eq_some_iff.mp hk
  refine ⟨{ self with defaultExchange := some ⟨x, some (c.hkdf ikm)⟩, derived := true }, ?_, ?_, rfl⟩
  · simp only [deriveKey, getBase64_public, deriveTransportKey, hdata, hikm, Option.bind_some, Option.map_some]
  · exact ⟨hx.generated, hx.publi, rfl⟩

-- The key pair that an object has when a message is received.
theorem receive_eq (self : Exchange Priv Key) (priv : Priv) (pub : Bytes) (enc : Option (Bytes × Bytes)) :
    self.receive c priv (message pub enc) =
      (if self.generated then self else { self.generateExchangeKey c priv with generated := true }).receive c priv
        (message pub enc) := by
  rw [receive, receive, loadFromData_message]
  simp only
  by_cases hg : self.generated <;> simp [hg]

-- A message of the other side is received with what it carries.
theorem receive_spec (priv : Priv) (hx : Has c self x) (hk : sharedKey c x y = some k)
    (hd : self.derived = true → self.transportKey = some k) (henc : Carries c k enc plain) :
    ∃ e, self.receive c priv (message (c.pubkeyExport y) enc) = (true, e) ∧ Has c e x ∧ e.transportKey = some k ∧
      e.getSecret = plain := by
  have hderive : ∃ e, (if self.derived then (true, self) else self.deriveKey c (messageFile (c.pubkeyExport y) enc)) =
      (true, e) ∧ Has c e x ∧ e.transportKey = some k := by
    by_cases h : self.derived
    case pos => exact ⟨self, if_pos h, hx, hd h⟩
    case neg =>
      rw [if_neg h]
      exact deriveKey_spec hx hk
  obtain ⟨e, he, hex, hek⟩ := hderive
  refine ⟨{ e with secret := plain }, ?_, ⟨hex.generated, hex.publi, hex.priv⟩, hek, rfl⟩
  rw [receive, loadFromData_message]
  simp only [hx.generated, if_true, he, hasKey_secret]
  cases enc with
  | none =>
    cases henc
    rfl
  | some enc =>
    rw [performDecrypt_spec hek henc]
    rfl

end Exchange

end SecretExchange

namespace SecretExchange

open GLib

variable {Priv Key : Type*} {c : Crypto Priv Key} {s s' : State Priv Key} {e : Event Priv} {side sender : Side}
  {ts : List (State Priv Key × Event Priv × State Priv Key)}

-- Every message was received, what came with it is there, and both sides hold the same key as soon as
-- both hold one, which is when the first message of `send` was received.
structure Agreement (s : State Priv Key) : Prop where
  succeeded : s.failed = false
  secrets   : ∀ side, (s.exchange side).getSecret = s.last side
  received  : ∀ side, s.phase = .received side → ∃ k, (s.exchange side).transportKey = some k
  complete  : s.complete = true → ∀ side, ∃ k, (s.exchange side).transportKey = some k
  same      : ∀ k k', (s.exchange .left).transportKey = some k → (s.exchange .right).transportKey = some k' → k = k'

-- A message of `begin` is received by an object that has no key yet, and there is secure memory for a secret that is sent.
def Event.Fresh (s : State Priv Key) : Event Priv → Prop
  | begin _ _     => True
  | receive _     => ∀ sender message, s.phase = .opened sender message → (s.exchange sender.other).derived = false
  | send _ secret => ∀ s, secret = some s → (Exchange.secretBytes s.1 s.2).length + 16 ≤ secureLimit

@[simp]
theorem Side.other_other (side : Side) : side.other.other = side := by
  cases side <;> rfl

theorem Side.other_ne (side : Side) : side.other ≠ side := by
  cases side <;> decide

theorem Side.eq_or (side sender : Side) : side = sender ∨ side = sender.other := by
  cases side <;> cases sender <;> decide

-- An object without a key pair has no key either.
structure Made (c : Crypto Priv Key) (e : Exchange Priv Key) : Prop where
  derived : e.generated = false → e.derived = false
  pair    : e.generated = true → ∃ x, e.Has c x

-- One side has the key of both key pairs, and so has the other one when it has a key.
structure Linked (c : Crypto Priv Key) (e e' : Exchange Priv Key) (x y : Priv) (k : Key) : Prop where
  own    : e.Has c x
  peer   : e'.Has c y
  shared : sharedKey c x y = some k
  key    : e.transportKey = some k
  same   : e'.derived = true → e'.transportKey = some k

-- What is known in each phase about the two objects and the message.
def PhaseInv (c : Crypto Priv Key) (s : State Priv Key) : Prop :=
  match s.phase with
  | .idle                          => ∀ side, (s.exchange side).derived = false
  | .opened sender text            => (s.exchange sender).derived = false ∧
    ∃ x, (s.exchange sender).Has c x ∧ text = message (c.pubkeyExport x) none
  | .replied sender text secret    => ∃ x y k enc, Linked c (s.exchange sender) (s.exchange sender.other) x y k ∧
    text = message (c.pubkeyExport x) enc ∧ Carries c k enc secret
  | .received side                 => ∃ x y k, Linked c (s.exchange side) (s.exchange side.other) x y k

structure Inv (c : Crypto Priv Key) (s : State Priv Key) : Prop where
  made      : ∀ side, Made c (s.exchange side)
  phase     : PhaseInv c s
  succeeded : s.failed = false
  secrets   : ∀ side, (s.exchange side).getSecret = s.last side
  complete  : s.complete = true → ∀ side, (s.exchange side).derived = true

theorem Exchange.Has.made {e : Exchange Priv Key} {x : Priv} (h : e.Has c x) : Made c e where
  derived hg := absurd (hg.symm.trans h.generated) (by decide)
  pair _     := ⟨x, h⟩

theorem derived_of_transportKey {e : Exchange Priv Key} {k : Key} (h : e.transportKey = some k) : e.derived = true :=
  (Exchange.transportKey_eq_some.mp h).1

theorem Linked.all {x y : Priv} {k k' : Key} (h : Linked c (s.exchange side) (s.exchange side.other) x y k)
    (side' : Side) (hk : (s.exchange side').transportKey = some k') : k' = k := by
  rcases Side.eq_or side' side with rfl | rfl
  · exact Option.some.inj (hk.symm.trans h.key)
  · exact Option.some.inj (hk.symm.trans (h.same (derived_of_transportKey hk)))

theorem Inv.same (h : Inv c s) {k k' : Key} (hk : (s.exchange side).transportKey = some k)
    (hk' : (s.exchange side.other).transportKey = some k') : k = k' := by
  have hp := h.phase
  unfold PhaseInv at hp
  split at hp
  case h_1 => exact absurd (hp side) (by rw [derived_of_transportKey hk]; decide)
  case h_2 sender text hphase =>
    obtain ⟨hd, -⟩ := hp
    rcases Side.eq_or sender side with rfl | rfl
    · exact absurd hd (by rw [derived_of_transportKey hk]; decide)
    · exact absurd hd (by rw [derived_of_transportKey hk']; decide)
  case h_3 =>
    obtain ⟨x, y, k₀, enc, hl, -⟩ := hp
    rw [hl.all _ hk, hl.all _ hk']
  case h_4 =>
    obtain ⟨x, y, k₀, hl⟩ := hp
    rw [hl.all _ hk, hl.all _ hk']

theorem Inv.exists_key (h : Inv c s) (hd : (s.exchange side).derived = true) :
    (s.exchange side).transportKey.isSome ∨ ∃ sender text, s.phase = .opened sender text := by
  have hp := h.phase
  unfold PhaseInv at hp
  split at hp
  case h_1 => exact absurd (hp side) (by rw [hd]; decide)
  case h_2 sender text hphase => exact .inr ⟨sender, text, hphase⟩
  case h_3 sender text secret hphase =>
    obtain ⟨x, y, k, enc, hl, -⟩ := hp
    rcases Side.eq_or side sender with rfl | rfl
    · simp [hl.key]
    · simp [hl.same hd]
  case h_4 side' hphase =>
    obtain ⟨x, y, k, hl⟩ := hp
    rcases Side.eq_or side side' with rfl | rfl
    · simp [hl.key]
    · simp [hl.same hd]

theorem Inv.toAgreement (h : Inv c s) : Agreement s where
  succeeded := h.succeeded
  secrets   := h.secrets
  received side hside := by
    have hp := h.phase
    rw [PhaseInv, hside] at hp
    obtain ⟨x, y, k, hl⟩ := hp
    exact ⟨k, hl.key⟩
  complete hc side := by
    rcases h.exists_key (h.complete hc side) with hk | ⟨sender, text, hphase⟩
    · exact Option.isSome_iff_exists.mp hk
    · have hp := h.phase
      rw [PhaseInv, hphase] at hp
      exact absurd hp.1 (by rw [h.complete hc]; decide)
  same k k' hk hk' := h.same hk hk'

theorem forall_side {p : Side → Prop} (side : Side) (h : p side) (h' : p side.other) : ∀ side', p side' := by
  intro side'
  rcases Side.eq_or side' side with rfl | rfl
  · exact h
  · exact h'

-- The state after a message was received by an object that has the same key then.
theorem Inv.delivered (h : Inv c s) {x y priv : Priv} {k : Key} {r : Exchange Priv Key} {text : Bytes}
    {secret : Option Bytes} {complete : Bool}
    (hr : (s.exchange sender.other).receive c priv text = (true, r))
    (hl : Linked c r (s.exchange sender) y x k) (hsecret : r.getSecret = secret)
    (hcomplete : complete = true → (s.exchange sender).derived = true) :
    Inv c { s.deliver c sender priv text secret with complete := complete } := by
  have hne : sender ≠ sender.other := (Side.other_ne sender).symm
  have hstate : { s.deliver c sender priv text secret with complete := complete } =
      { exchange := Function.update s.exchange sender.other r,
        phase    := .received sender.other,
        last     := Function.update s.last sender.other secret,
        complete := complete,
        failed   := s.failed || !true } := by
    rw [State.deliver, hr]
    rfl
  rw [hstate]
  refine ⟨forall_side sender.other ?_ ?_, ⟨y, x, k, ?_⟩, ?_, forall_side sender.other ?_ ?_, ?_⟩
  · simpa using hl.own.made
  · simpa [hne] using h.made sender
  · simpa [hne] using hl
  · simpa using h.succeeded
  · simpa using hsecret
  · simpa [hne] using h.secrets sender
  · refine fun hc => forall_side sender.other (p := fun side =>
      (Function.update s.exchange sender.other r side).derived = true) ?_ ?_
    · simpa using derived_of_transportKey hl.key
    · simpa [hne] using hcomplete hc

-- An object without a key gets that of both key pairs from a message of `begin`.
theorem receive_opened (hc : c.Lawful) {r : Exchange Priv Key} (hm : Made c r) (hd : r.derived = false) (x priv : Priv) :
    ∃ y k e, r.receive c priv (message (c.pubkeyExport x) none) = (true, e) ∧ e.Has c y ∧
      sharedKey c y x = some k ∧ e.transportKey = some k ∧ e.getSecret = none := by
  rw [Exchange.receive_eq]
  split
  case isTrue hg =>
    obtain ⟨y, hy⟩ := hm.pair hg
    obtain ⟨k, hk⟩ := exists_sharedKey hc y x
    obtain ⟨e, he⟩ := Exchange.receive_spec priv hy hk (fun h => absurd (hd.symm.trans h) Bool.false_ne_true) .absent
    exact ⟨y, k, e, he.1, he.2.1, hk, he.2.2⟩
  case isFalse =>
    obtain ⟨k, hk⟩ := exists_sharedKey hc priv x
    have hy : { r.generateExchangeKey c priv with generated := true }.Has c priv := ⟨rfl, rfl, rfl⟩
    obtain ⟨e, he⟩ := Exchange.receive_spec priv hy hk (fun h => absurd (hd.symm.trans h) Bool.false_ne_true) .absent
    exact ⟨priv, k, e, he.1, he.2.1, hk, he.2.2⟩

theorem Inv.begin (h : Inv c s) (side : Side) (priv : Priv) (hs : s.after c (.begin side priv) = .ok s') : Inv c s' := by
  obtain ⟨e, he, hx, hd, hsecret⟩ := Exchange.begin_eq (c := c) (s.exchange side) priv
  have hne : side.other ≠ side := Side.other_ne side
  rw [State.after, he] at hs
  cases hs
  refine ⟨forall_side side ?_ ?_, ⟨?_, priv, ?_, rfl⟩, h.succeeded, forall_side side ?_ ?_, ?_⟩
  · simpa [State.set] using hx.made
  · simpa [State.set, hne] using h.made side.other
  · simpa [State.set] using hd
  · simpa [State.set] using hx
  · simpa [State.set, Exchange.getSecret] using hsecret
  · simpa [State.set, hne] using h.secrets side.other
  · exact fun hc => absurd hc Bool.false_ne_true

theorem Inv.receive (hc : c.Lawful) (h : Inv c s) (priv : Priv) (hfresh : (Event.receive priv).Fresh s)
    (hs : s.after c (.receive priv) = .ok s') : Inv c s' := by
  have hp := h.phase
  simp only [State.after] at hs
  unfold PhaseInv at hp
  split at hs
  case h_1 sender text hphase =>
    rw [hphase] at hp
    obtain ⟨hd, x, hx, rfl⟩ := hp
    obtain ⟨y, k, r, hr, hy, hk, hkey, hsecret⟩ :=
      receive_opened hc (h.made sender.other) (hfresh sender _ hphase) x priv
    cases hs
    have hl : Linked c r (s.exchange sender) y x k :=
      ⟨hy, hx, hk, hkey, fun hd' => absurd (hd.symm.trans hd') Bool.false_ne_true⟩
    exact h.delivered hr hl hsecret fun hcomplete => h.complete hcomplete sender
  case h_2 sender text secret hphase =>
    rw [hphase] at hp
    obtain ⟨x, y, k, enc, hl, rfl, henc⟩ := hp
    have hk : sharedKey c y x = some k := (sharedKey_comm hc y x).trans hl.shared
    obtain ⟨r, hr, hy, hkey, hsecret⟩ := Exchange.receive_spec priv hl.peer hk hl.same henc
    cases hs
    exact h.delivered hr ⟨hy, hl.own, hk, hkey, fun _ => hl.key⟩ hsecret fun _ => derived_of_transportKey hl.key
  case h_3 => cases hs

theorem Inv.send (hc : c.Lawful) (h : Inv c s) (iv : Iv) {secret : Option (Bytes × Int)}
    (hfresh : (Event.send iv secret : Event Priv).Fresh s) (hs : s.after c (.send iv secret) = .ok s') : Inv c s' := by
  have hp := h.phase
  simp only [State.after] at hs
  unfold PhaseInv at hp
  split at hs
  case h_1 side hphase =>
    rw [hphase] at hp
    obtain ⟨x, y, k, hl⟩ := hp
    obtain ⟨enc, hsend, henc⟩ := Exchange.send_spec hc hl.own hl.key iv hfresh
    rw [hsend] at hs
    cases hs
    exact ⟨h.made, ⟨x, y, k, enc, hl, rfl, henc⟩, h.succeeded, h.secrets, h.complete⟩
  case h_2 => cases hs

theorem Inv.after (hc : c.Lawful) (h : Inv c s) (hfresh : e.Fresh s) (hs : s.after c e = .ok s') : Inv c s' := by
  cases e with
  | begin side priv => exact h.begin side priv hs
  | receive priv    => exact h.receive hc priv hfresh hs
  | send iv secret  => exact h.send hc iv hfresh hs

abbrev Run (c : Crypto Priv Key) :=
  Transition.Run (σ := State Priv Key) (ε := Event Priv) (· = {}) fun s e s' => s.after c e = .ok s'

theorem inv_initial : Inv c ({} : State Priv Key) :=
  ⟨fun _ => ⟨fun _ => rfl, fun h => absurd h Bool.false_ne_true⟩, fun _ => rfl, rfl, fun _ => rfl,
    fun h => absurd h Bool.false_ne_true⟩

-- As long as messages of `begin` are only received by objects without a key, nothing is lost and both
-- sides have the same key.
theorem Run.agreement (hc : c.Lawful) (r : Run c ts s) (h : ∀ t ∈ ts, t.2.1.Fresh t.1) :
    Agreement s ∧ ∀ t ∈ ts, Agreement t.2.2 := by
  have r' := r.restrict h
  constructor
  case left =>
    exact (r'.invariant (fun _ h₀ => h₀ ▸ inv_initial) fun _ _ _ hi hs => hi.after hc hs.2 hs.1).toAgreement
  case right =>
    exact r'.forall_step (fun _ h₀ => h₀ ▸ inv_initial) (fun _ _ _ hi hs => hi.after hc hs.2 hs.1)
      fun _ _ _ hi hs => (hi.after hc hs.2 hs.1).toAgreement

-- The key agreement with the powers of 6 modulo 251, and a cipher that takes the exclusive or with the first byte of
-- the key.
def Crypto.small : Crypto Nat Bytes where
  pubkeyExport a   := [UInt8.ofNat (Nat.pow 6 a % 251)]
  genSecret peer a := some [UInt8.ofNat (Nat.pow (peer.headD 0).toNat a % 251)]
  hkdf ikm         := ikm
  cipher           := ⟨fun key block => block.map (· ^^^ key.headD 0), fun key block => block.map (· ^^^ key.headD 0)⟩
  unicharIsalnum _ := false

theorem Crypto.small_lawful : Crypto.small.Lawful where
  agrees a b   := ⟨_, rfl⟩
  commutes a b := by
    have hval (n : Nat) : (UInt8.ofNat (n % 251)).toNat = n % 251 := by
      rw [UInt8.toNat_ofNat']
      exact Nat.mod_eq_of_lt (Nat.lt_trans (Nat.mod_lt n (by decide)) (by decide))
    have hpow (a b : Nat) : Nat.pow (Nat.pow 6 b % 251) a % 251 = Nat.pow 6 (b * a) % 251 := by
      simp only [Nat.pow_eq, ← Nat.pow_mod, Nat.pow_mul]
    simp only [small, List.headD_cons, hval, hpow, Nat.mul_comm]
  blocks       := by
    refine ⟨fun key block h => by simpa [small] using h, fun key block _ => ?_⟩
    simp [small, Function.comp_def, UInt8.xor_assoc]

def Iv.zero : Iv :=
  ⟨List.replicate 16 0, rfl⟩

theorem Run.next (r : Run c ts s) (e : Event Priv) (h : s.after c e = .ok s') : Run c ((s, e, s') :: ts) s' :=
  .step r h

theorem Run.agreement_secret : ∃ ts s, Run Crypto.small ts s ∧ s.complete = true ∧
    (s.exchange .left).getSecret = some [1, 0] ∧ Agreement s := by
  have r₀ : Run .small [] {} := .start rfl
  have r₁ := r₀.next (.begin .left 3) rfl
  have r₂ := r₁.next (.receive 5) rfl
  have r₃ := r₂.next (.send .zero (some ([1, 0], 2))) rfl
  have r₄ := r₃.next (.receive 0) rfl
  refine ⟨_, _, r₄, rfl, rfl, (Run.agreement Crypto.small_lawful r₄ ?_).1⟩
  simp only [List.forall_mem_cons, List.not_mem_nil, false_imp_iff, implies_true, and_true]
  refine ⟨?_, ?_, ?_, trivial⟩
  · exact fun _ _ h => Phase.noConfusion h
  · intro s hs
    cases hs
    decide
  · rintro sender message h
    cases h
    rfl

-- The first side starts over, and the other one keeps its old key.
theorem Run.not_agreement : ∃ ts s, Run Crypto.small ts s ∧ ¬Agreement s := by
  have r₀ : Run .small [] {} := .start rfl
  have r₁ := r₀.next (.begin .left 3) rfl
  have r₂ := r₁.next (.receive 5) rfl
  have r₃ := r₂.next (.send .zero none) rfl
  have r₄ := r₃.next (.receive 0) rfl
  have r₅ := r₄.next (.begin .left 7) rfl
  have r₆ := r₅.next (.receive 0) rfl
  have r₇ := r₆.next (.send .zero (some ([1, 0], 2))) rfl
  have r₈ := r₇.next (.receive 0) rfl
  refine ⟨_, _, r₈, fun h => ?_⟩
  have hsame := h.same [UInt8.ofNat (Nat.pow (Nat.pow 6 5 % 251) 7 % 251)] [UInt8.ofNat (Nat.pow (Nat.pow 6 3 % 251) 5 % 251)]
    rfl rfl
  exact absurd hsame (by decide)

end SecretExchange
