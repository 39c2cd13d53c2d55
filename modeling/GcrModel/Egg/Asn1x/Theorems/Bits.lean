import GcrModel.Egg.Asn1x.Build
import GcrModel.Egg.Asn1x.Theorems.Reparse
import GcrModel.Egg.Asn1x.Theorems.Simple

namespace Asn1x

open GLib

variable {asn asn' node node' : GNode} {data content : GBytes} {tlv ctlv : Atlv} {buf s : Bytes} {c : UInt8}
variable {bits nBits empty now : Nat}

-- The bits at the end of a byte are zero.
theorem and_mask_eq_zero_iff (c : UInt8) (h : empty < 8) :
    c &&& UInt8.ofNat (0xFF >>> (8 - empty)) = 0 ↔ c.toNat % 2 ^ empty = 0 := by
  have hall : ∀ (c : Fin 256) (e : Fin 8),
      UInt8.ofNat c.val &&& UInt8.ofNat (0xFF >>> (8 - e.val)) = 0 ↔ c.val % 2 ^ e.val = 0 := by decide +kernel
  simpa using hall ⟨c.toNat, c.toNat_lt⟩ ⟨empty, h⟩

theorem and_not_mask (c : UInt8) (h : empty < 8) (hc : c.toNat % 2 ^ empty = 0) :
    c &&& ~~~UInt8.ofNat (0xFF >>> (8 - empty)) = c := by
  have hall : ∀ (c : Fin 256) (e : Fin 8), c.val % 2 ^ e.val = 0 →
      UInt8.ofNat c.val &&& ~~~UInt8.ofNat (0xFF >>> (8 - e.val)) = UInt8.ofNat c.val := by decide +kernel
  simpa using hall ⟨c.toNat, c.toNat_lt⟩ ⟨empty, h⟩ hc

def ZeroAtEnd (empty : Nat) (buf : Bytes) : Prop :=
  ∀ c ∈ buf.getLast?, c.toNat % 2 ^ empty = 0

-- A content with so many unused bits, which are zero.
inductive BitContent : Bytes → Prop
  | mk {empty : UInt8} {buf : Bytes} : empty < 8 → ZeroAtEnd empty.toNat buf → BitContent (empty :: buf)

-- There are as many bits as are said to be unused, and a `guint` counts the others.
def BitsFit (content : Bytes) : Prop :=
  ∀ empty buf, content = empty :: buf → empty.toNat ≤ 8 * buf.length ∧ 8 * buf.length - empty.toNat < 2 ^ 32

-- What is said of a node into which a content was decoded.
def BitsReported (node : GNode) (content : Bytes) : Prop :=
  ∃ (empty : UInt8) (value : GBytes) (nBits : Nat), content = empty :: value.data ∧
    eggAsn1xGetBitsAsRaw node = some (value, nBits) ∧ nBits + empty.toNat = 8 * value.data.length ∧
    ZeroAtEnd empty.toNat value.data

def BitsJudged (now : Nat) (asn : GNode) (data : GBytes) (content : Bytes) : Prop :=
  ∃ ok asn', eggAsn1xDecode now asn data = some (ok, asn') ∧ (ok → BitsReported asn' content)

theorem decodeBitString_cases (node : GNode) (tlv : Atlv) (hvalue : tlv.value = some content) :
    (¬BitContent content.data → ∃ msg, anodeDecodeBitString node tlv = some (anodeFailure node msg)) ∧
    ∀ empty buf, content.data = empty :: buf → BitContent content.data →
      anodeDecodeBitString node tlv = some (true, node.modify fun an =>
        { an.takeValue ⟨buf, content.behind⟩ with bitsEmpty := empty.toNat }) := by
  rw [anodeDecodeBitString, hvalue]
  dsimp only
  cases hdata : content.data with
  | nil => exact ⟨fun _ => ⟨_, rfl⟩, fun empty buf h => by cases h⟩
  | cons empty buf =>
    dsimp only
    by_cases hlarge : 8 ≤ empty
    case pos =>
      rw [if_pos hlarge]
      refine ⟨fun _ => ⟨_, rfl⟩, fun empty' buf' heq h => ?_⟩
      obtain @⟨_, _, hlt, -⟩ := h
      exact absurd hlt (UInt8.not_lt.mpr hlarge)
    case neg =>
      have hlt : empty.toNat < 8 := UInt8.lt_iff_toNat_lt.mp (UInt8.not_le.mp hlarge)
      have hzero : buf.getLast?.any (· &&& UInt8.ofNat (0xFF >>> (8 - empty.toNat)) ≠ 0) = true ↔
          ¬ZeroAtEnd empty.toNat buf := by
        cases hlast : buf.getLast? with
        | none   => simp [ZeroAtEnd, hlast]
        | some c => simp [ZeroAtEnd, hlast, and_mask_eq_zero_iff c hlt]
      rw [if_neg hlarge]
      by_cases hend : ZeroAtEnd empty.toNat buf
      case pos =>
        rw [if_neg fun h => hzero.mp h hend]
        refine ⟨fun h => absurd (.mk (UInt8.not_le.mp hlarge) hend) h, fun empty' buf' heq _ => ?_⟩
        obtain ⟨rfl, rfl⟩ := List.cons.inj heq
        rfl
      case neg =>
        rw [if_pos (hzero.mpr hend)]
        refine ⟨fun _ => ⟨_, rfl⟩, fun empty' buf' heq h => ?_⟩
        obtain @⟨_, _, -, hend'⟩ := h
        exact absurd hend' hend

theorem getBitsAsRaw_eq (hnode : anodeDefType node = .bitString) (hvalue : node.data.value = some content) :
    eggAsn1xGetBitsAsRaw node = some (content, bitsLength node.data content) := by
  rw [eggAsn1xGetBitsAsRaw, if_neg (not_not.mpr hnode), hvalue, Option.map_some]

-- How many bits there are is the difference where that is a `guint`.
theorem bitsLength_iff (an : Anode) (data : GBytes) :
    bitsLength an data + an.bitsEmpty = 8 * data.data.length ↔
      an.bitsEmpty ≤ 8 * data.data.length ∧ 8 * data.data.length - an.bitsEmpty < 2 ^ 32 := by
  rw [bitsLength, toGuint]
  omega

section Decode

variable (hnode : anodeDefType asn = .bitString) (hparse : atlvParseDer data = some (.ok tlv))
variable (hcarries : Carries asn tlv ctlv) (hchild : ctlv.child = []) (hvalue : ctlv.value = some content)

include hnode hparse hcarries hchild hvalue

theorem decode_bits_refused (now : Nat) (h : ¬BitContent content.data) :
    ∃ asn', eggAsn1xDecode now asn data = some (false, asn') := by
  choose msg hfail using fun n => (decodeBitString_cases n ctlv hvalue).1 h
  have hprimitive : ∀ n, Same asn n → anodeDecodePrimitive n ctlv = some (anodeFailure n (msg n)) := by
    intro n hsame
    have htype : anodeDefType n = .bitString := hsame.type_eq.trans hnode
    rw [← hfail, anodeDecodePrimitive, htype, hchild]
    rfl
  obtain ⟨n, -, -, hdecode⟩ := decode_carried now hparse hcarries hprimitive
  exact hdecode rfl

-- The node has the bytes behind the first one, which is how many bits are not used.
theorem decode_bits_accepted (now : Nat) {empty : UInt8} (hdata : content.data = empty :: buf) (h : BitContent (empty :: buf)) :
    ∃ asn', eggAsn1xDecode now asn data = some (true, asn') ∧ anodeDefType asn' = .bitString ∧
      asn'.data.value = some ⟨buf, content.behind⟩ ∧ asn'.data.bitsEmpty = empty.toNat := by
  have hprimitive : ∀ n, Same asn n → anodeDecodePrimitive n ctlv = some (true, n.modify fun an =>
      { an.takeValue ⟨buf, content.behind⟩ with bitsEmpty := empty.toNat }) := by
    intro n hsame
    have htype : anodeDefType n = .bitString := hsame.type_eq.trans hnode
    rw [← (decodeBitString_cases n ctlv hvalue).2 empty buf hdata (hdata ▸ h), anodeDecodePrimitive, htype, hchild]
    rfl
  obtain ⟨n, hsame, hdecode, -⟩ := decode_carried now hparse hcarries hprimitive
  have hdecode := hdecode rfl
  generalize hasn' : ((n.modify fun an => { an.takeValue ⟨buf, content.behind⟩ with bitsEmpty := empty.toNat }).modify
    ({ · with parsed := some tlv })) = asn' at hdecode
  have htype : anodeDefType asn' = .bitString := by
    rw [← hasn']
    exact hsame.type_eq.trans hnode
  have hset : asn'.data.value = some ⟨buf, content.behind⟩ ∧ asn'.data.bitsEmpty = empty.toNat := by
    rw [← hasn']
    exact ⟨rfl, rfl⟩
  rw [validate_value hset.1 (by simp [htype]), anodeValidateValue, htype] at hdecode
  exact ⟨asn', hdecode, htype, hset⟩

theorem decode_bits_iff : BitsJudged now asn data content.data ↔ (BitContent content.data → BitsFit content.data) := by
  by_cases hcontent : BitContent content.data
  case neg =>
    obtain ⟨asn', hdecode⟩ := decode_bits_refused hnode hparse hcarries hchild hvalue now hcontent
    exact iff_of_true ⟨false, asn', hdecode, by simp⟩ fun h => absurd h hcontent
  case pos =>
    generalize hdata : content.data = bytes at hcontent
    obtain @⟨empty, buf, hlt, hzero⟩ := hcontent
    obtain ⟨asn', hdecode, htype, hset, hempty⟩ :=
      decode_bits_accepted hnode hparse hcarries hchild hvalue now hdata (.mk hlt hzero)
    have hfit : BitsFit (empty :: buf) ↔ empty.toNat ≤ 8 * buf.length ∧ 8 * buf.length - empty.toNat < 2 ^ 32 := by
      constructor
      · exact fun h => h empty buf rfl
      · intro h empty' buf' heq
        obtain ⟨rfl, rfl⟩ := List.cons.inj heq
        exact h
    have hlength := bitsLength_iff asn'.data ⟨buf, content.behind⟩
    have hraw := getBitsAsRaw_eq htype hset
    rw [hempty] at hlength
    rw [BitsJudged, hdecode, hfit, ← hlength]
    constructor
    · rintro ⟨ok, node, h, hreported⟩ -
      cases h
      obtain ⟨empty', value, nBits, hcons, hget, hsum, -⟩ := hreported rfl
      obtain ⟨rfl, rfl⟩ := Prod.mk.inj (Option.some.inj (hraw.symm.trans hget))
      obtain ⟨rfl, -⟩ := List.cons.inj hcons
      exact hsum
    · intro h
      exact ⟨true, asn', rfl, fun _ => ⟨empty, _, _, rfl, hraw, h (.mk hlt hzero), hzero⟩⟩

end Decode

-- The bytes that the bits of an `unsigned long` become.
def bitsOctets (bits nBits : Nat) : Bytes :=
  (Radix.fixed 256 (nBits / 8 + if emptyBits nBits ≠ 0 then 1 else 0) (bits * 2 ^ emptyBits nBits % 2 ^ 64)).map UInt8.ofNat

theorem octets_bits (nBits : Nat) : 8 * (nBits / 8 + if emptyBits nBits ≠ 0 then 1 else 0) = nBits + emptyBits nBits := by
  rw [emptyBits]
  by_cases h : 0 < nBits % 8
  case pos =>
    rw [if_pos h, if_pos (by omega)]
    omega
  case neg =>
    rw [if_neg h, if_neg (by omega)]
    omega

theorem emptyBits_lt (nBits : Nat) : emptyBits nBits < 8 := by
  rw [emptyBits]
  split
  all_goals omega

theorem setBitsAsUlong_eq (hnode : anodeDefType node = .bitString) (h : nBits ≤ 64) : ∃ behind,
    eggAsn1xSetBitsAsUlong node bits nBits = node.modify fun an =>
      { an.takeValue ⟨bitsOctets bits nBits, behind⟩ with bitsEmpty := emptyBits nBits } := by
  have hoctets : ∀ len, (List.range len).map (fun i => UInt8.ofNat
      (((bits <<< emptyBits nBits) % 2 ^ 64) >>> ((len - (i + 1)) * 8) % 256)) =
      (Radix.fixed 256 len (bits * 2 ^ emptyBits nBits % 2 ^ 64)).map UInt8.ofNat := by
    intro len
    rw [Radix.fixed_eq_map, List.map_map]
    refine List.map_congr_left fun i _ => ?_
    rw [Function.comp_apply, Nat.shiftLeft_eq, Nat.shiftRight_eq_div_pow, Nat.pow_mul']
  refine ⟨List.replicate (8 - (nBits / 8 + if emptyBits nBits ≠ 0 then 1 else 0)) 0, ?_⟩
  rw [eggAsn1xSetBitsAsUlong, if_neg (by simp [hnode]; omega)]
  dsimp only
  rw [hoctets, ← bitsOctets]

-- The loop over the bytes of a value that an `unsigned long` has room for.
theorem foldl_octets (h : s.length ≤ 8) :
    s.foldl (fun value p => (value <<< 8) % 2 ^ 64 ||| p.toNat) 0 = Radix.value 256 (s.map UInt8.toNat) := by
  induction s using List.reverseRecOn with
  | nil => rfl
  | append_singleton s c ih =>
    rw [List.length_append, List.length_singleton] at h
    have hlt : Radix.value 256 (s.map UInt8.toNat) < 256 ^ 7 := by
      have hvalue := @Radix.value_lt 256 (s.map UInt8.toNat) (List.forall_mem_map.mpr fun c _ => c.toNat_lt) (by decide)
      rw [List.length_map] at hvalue
      exact Nat.lt_of_lt_of_le hvalue (Nat.pow_le_pow_right (by decide) (by omega))
    have hc : c.toNat < 2 ^ 8 := c.toNat_lt
    rw [List.foldl_append, ih (by omega), List.map_append, List.map_singleton, Radix.value_concat, List.foldl_cons,
      List.foldl_nil, Nat.shiftLeft_eq, Nat.mod_eq_of_lt (by omega), Nat.mul_comm _ (2 ^ 8),
      ← Nat.two_pow_add_eq_or_of_lt hc, Nat.mul_comm]

theorem getBitsAsUlong_eq (hnode : anodeDefType node = .bitString) (hbits : nBits ≤ 64) {behind : Bytes}
    (hvalue : node.data.value = some ⟨bitsOctets bits nBits, behind⟩) (hempty : node.data.bitsEmpty = emptyBits nBits) :
    eggAsn1xGetBitsAsUlong node = some (some (bits % 2 ^ nBits, nBits)) := by
  have hcount := octets_bits nBits
  have hlen : (bitsOctets bits nBits).length = nBits / 8 + if emptyBits nBits ≠ 0 then 1 else 0 := by
    rw [bitsOctets, List.length_map, Radix.length_fixed]
  have hlength : bitsLength node.data ⟨bitsOctets bits nBits, behind⟩ = nBits := by
    rw [bitsLength, toGuint, hlen, hempty]
    omega
  have hlt := emptyBits_lt nBits
  have hvalues : (bitsOctets bits nBits).map UInt8.toNat = Radix.fixed 256 (nBits / 8 + if emptyBits nBits ≠ 0 then 1 else 0)
      (bits * 2 ^ emptyBits nBits % 2 ^ 64) :=
    map_toNat_ofNat fun d hd => Radix.lt_of_mem_fixed (by decide) hd
  have hpow : 256 ^ (nBits / 8 + if emptyBits nBits ≠ 0 then 1 else 0) = 2 ^ nBits * 2 ^ emptyBits nBits := by
    rw [← Nat.pow_add, ← hcount, Nat.pow_mul]
  have hdvd : 2 ^ nBits * 2 ^ emptyBits nBits ∣ 2 ^ 64 := by
    rw [← Nat.pow_add]
    exact Nat.pow_dvd_pow 2 (by omega)
  rw [eggAsn1xGetBitsAsUlong, if_neg (not_not.mpr hnode), hvalue]
  dsimp only
  rw [hlength, if_neg (by omega), if_neg (by omega), foldl_octets (by omega), hvalues, Radix.value_fixed, hpow,
    Nat.mod_mod_of_dvd _ hdvd, Nat.mul_mod_mul_right, hempty, Nat.shiftRight_eq_div_pow,
    Nat.mul_div_cancel _ (Nat.two_pow_pos _)]

end Asn1x
