import GcrModel.Egg.Asn1x.Decode
import GcrModel.Egg.Asn1x.Theorems.Element
import GcrModel.Egg.Asn1x.Theorems.Sort
import Mathlib.Data.List.ModifyLast
import Mathlib.Data.Nat.Digits.Lemmas

-- What is unparsed is parsed again as what it was.
namespace Asn1x

open GLib

variable {tlv : Atlv} {cls : UInt8} {tag n m nData : Nat} {len : Int} {header octets rest content : Bytes} {ds : List Nat}

theorem toGulong_natCast (h : n < 2 ^ 64) : toGulong n = n := by
  rw [toGulong]
  omega

theorem toNat_ofNat_of_lt (h : n < 256) : (UInt8.ofNat n).toNat = n := by
  rw [UInt8.toNat_ofNat', Nat.mod_eq_of_lt h]

theorem map_toNat_ofNat (h : ∀ d ∈ ds, d < 256) : (ds.map UInt8.ofNat).map UInt8.toNat = ds := by
  rw [List.map_map, List.map_congr_left fun d hd => ?_, List.map_id]
  exact toNat_ofNat_of_lt (h d hd)

theorem length_unparsed (h : n < 2 ^ 31) (content : Bytes) :
    Der.Length (atlvUnparseLen n ++ content) (atlvUnparseLen n).length n content := by
  rw [atlvUnparseLen]
  split
  case isTrue hlt =>
    have hnat := toNat_ofNat_of_lt (show n < 256 by omega)
    have hshort := @Der.Length.short (UInt8.ofNat n) content (UInt8.lt_iff_toNat_lt.mpr (by rw [hnat]; exact hlt))
    rwa [hnat] at hshort
  case isFalse hge =>
    have hk : (Nat.digits 256 n).length ≤ 4 :=
      (Nat.digits_length_le_iff (by decide) n).mpr (Nat.lt_trans h (by decide))
    have hpos : 0 < (Nat.digits 256 n).length :=
      List.length_pos_of_ne_nil (Nat.digits_ne_nil_iff_ne_zero.mpr (by omega))
    have hnat : (UInt8.ofNat ((Nat.digits 256 n).length % 128 + 128)).toNat = (Nat.digits 256 n).length + 128 := by
      rw [Nat.mod_eq_of_lt (by omega), toNat_ofNat_of_lt (by omega)]
    have hvalue : Radix.value 256 (((Nat.digits 256 n).reverse.map UInt8.ofNat).map UInt8.toNat) = n := by
      have hlt : ∀ d ∈ Radix.digits 256 n, d < 256 := fun d hd => Radix.lt_of_mem_digits (by decide) hd
      exact (congrArg (Radix.value 256) (map_toNat_ofNat hlt)).trans Radix.value_digits
    have hgt : 128 < UInt8.ofNat ((Nat.digits 256 n).length % 128 + 128) :=
      UInt8.lt_iff_toNat_lt.mpr (by rw [hnat]; exact Nat.lt_add_of_pos_left hpos)
    have hlong := @Der.Length.long _ ((Nat.digits 256 n).reverse.map UInt8.ofNat) content hgt (by rw [hnat]; simp)
    rw [hvalue] at hlong
    simpa [Nat.add_comm] using hlong

theorem atlvUnparseLen_ne_nil (n : Nat) : atlvUnparseLen n ≠ [] := by
  rw [atlvUnparseLen]
  split
  all_goals simp

theorem parseLength_unparsed (h : n < 2 ^ 31) (hdata : nData = (atlvUnparseLen n).length + content.length)
    (hfits : nData < 2 ^ 32) (beyond : Bytes) :
    atlvParseLength (atlvUnparseLen n ++ content ++ beyond) nData = some ((n : Int), ((atlvUnparseLen n).length : Int)) := by
  have hlength : Der.Length (atlvUnparseLen n ++ content ++ []) _ n content :=
    (List.append_nil (atlvUnparseLen n ++ content)).symm ▸ length_unparsed h content
  have hwindow : nData % 2 ^ 32 = (atlvUnparseLen n ++ content).length := by
    rw [List.length_append, ← hdata, Nat.mod_eq_of_lt hfits]
  obtain ⟨v, hparse, hv⟩ := parseLength_spec (by simp [atlvUnparseLen_ne_nil]) hwindow beyond
  obtain ⟨hannounces, hcounted⟩ := announces_of_length hlength (by simp) h
  obtain ⟨hpos, ha⟩ | ⟨-, -, hnot⟩ := hv
  · have heq := ha.unique hannounces
    have hv : v = n := by omega
    rw [hparse, hcounted, hv]
  · exact absurd hannounces (hnot n)

theorem class_and_low (cls : UInt8) (h : n < 32) :
    ((cls &&& 0xE0) + UInt8.ofNat n) &&& 0xE0 = cls &&& 0xE0 ∧ ((cls &&& 0xE0) + UInt8.ofNat n) &&& 0x1F = UInt8.ofNat n := by
  have hall : ∀ (c : Fin 256) (n : Fin 32),
      ((UInt8.ofNat c.val &&& 0xE0) + UInt8.ofNat n.val) &&& 0xE0 = UInt8.ofNat c.val &&& 0xE0 ∧
      ((UInt8.ofNat c.val &&& 0xE0) + UInt8.ofNat n.val) &&& 0x1F = UInt8.ofNat n.val := by decide +kernel
  simpa using hall ⟨cls.toNat, cls.toNat_lt⟩ ⟨n, h⟩

-- The octets of a tag in the long form.
theorem tagOctets_spec (h : tag ≠ 0) : ∃ more last, tagOctets tag = more ++ [last] ∧ (∀ d ∈ more, 128 ≤ d) ∧ last < 128 ∧
    septets (tagOctets tag) = Radix.digits 128 tag := by
  have hne : (Nat.digits 128 tag).reverse ≠ [] := by simpa [Nat.digits_ne_nil_iff_ne_zero] using h
  have hlt : ∀ d ∈ (Nat.digits 128 tag).reverse, d < 128 := fun d hd => Radix.lt_of_mem_digits (by decide) hd
  rw [Radix.digits, tagOctets]
  obtain ⟨front, d, hsplit⟩ : ∃ front d, (Nat.digits 128 tag).reverse = front ++ [d] :=
    ⟨_, _, (List.dropLast_append_getLast hne).symm⟩
  rw [hsplit] at hlt ⊢
  have hd : d < 128 := hlt d (by simp)
  have hlast : UInt8.ofNat (d + 128) - 128 = UInt8.ofNat d := by
    rw [UInt8.ofNat_add]
    exact UInt8.add_sub_cancel _ _
  have hnat : ∀ e ∈ front, (UInt8.ofNat (e + 128)).toNat = e + 128 := fun e he =>
    toNat_ofNat_of_lt (by have := hlt e (by simp [he]); omega)
  have hoctets : ((front ++ [d]).map fun temp => UInt8.ofNat (temp + 128)).modifyLast (· - 128) =
      (front.map fun temp => UInt8.ofNat (temp + 128)) ++ [UInt8.ofNat d] := by
    rw [List.map_append, List.map_singleton, List.modifyLast_concat, hlast]
  refine ⟨_, _, hoctets, ?_, ?_, ?_⟩
  · intro c hc
    obtain ⟨e, he, rfl⟩ := List.mem_map.mp hc
    rw [UInt8.le_iff_toNat_le, hnat e he]
    exact Nat.le_add_left 128 e
  · exact UInt8.lt_iff_toNat_lt.mpr (by rw [toNat_ofNat_of_lt (by omega)]; exact hd)
  · rw [hoctets, septets_append, septets, List.map_map]
    congr 1
    · rw [List.map_congr_left fun e he => ?_, List.map_id]
      rw [Function.comp_apply, Octet.toNat_and_127, hnat e he, Nat.add_mod_right, Nat.mod_eq_of_lt (hlt e (by simp [he])), id]
    · rw [septets_cons, Octet.toNat_and_127, toNat_ofNat_of_lt (by omega), Nat.mod_eq_of_lt hd]
      rfl

-- What is read of the digits of a tag.
def readTag (tag : Nat) : Option Nat :=
  Radix.read (2 ^ 32) 128 0 (Radix.digits 128 tag)

theorem readTag_of_lt (h : tag < 2 ^ 32) : readTag tag = some tag := by
  have hread := @Radix.read_of_lt 128 (2 ^ 32) (Radix.digits 128 tag) (by decide) (by rwa [Radix.value_digits])
  rwa [Radix.value_digits] at hread

-- The octets of the tag are read again, if something is behind them.
theorem parseClsTag_unparsed (h : atlvUnparseClsTagLen cls tag len = some header) :
    ∃ octets, header = octets ++ atlvUnparseLen (toGulong len) ∧
      ∀ rest nData, octets.length < nData → nData < 2 ^ 31 →
        atlvParseClsTag (octets ++ rest) nData =
          some ((readTag tag).map fun n => (cls &&& 0xE0, n, (octets.length : Int))) := by
  rw [atlvUnparseClsTagLen] at h
  split at h
  case isTrue htag =>
    obtain rfl := Option.some.inj h
    obtain ⟨hcls, hlow⟩ := class_and_low cls (show tag < 32 by omega)
    have hnat := toNat_ofNat_of_lt (show tag < 256 by omega)
    have hshort : UInt8.ofNat tag ≠ 0x1F := fun heq => by
      have h := congrArg UInt8.toNat heq
      rw [hnat] at h
      exact absurd htag (by rw [h]; decide)
    refine ⟨[(cls &&& 0xE0) + UInt8.ofNat tag], rfl, fun rest nData hn hfits => ?_⟩
    rw [List.length_singleton] at hn
    unfold atlvParseClsTag
    rw [readTag_of_lt (by omega), Nat.mod_eq_of_lt (by omega), if_neg (by omega)]
    simp only [List.singleton_append, hlow, hcls, if_pos hshort, hnat]
    rfl
  case isFalse htag =>
    split at h
    case isTrue => cases h
    case isFalse =>
      obtain rfl := Option.some.inj h
      obtain ⟨hcls, hlow⟩ := class_and_low cls (show 31 < 32 by decide)
      obtain ⟨more, last, heq, hmore, hlast, hdigits⟩ := tagOctets_spec (show tag ≠ 0 by omega)
      refine ⟨((cls &&& 0xE0) + 31) :: tagOctets tag, rfl, fun rest nData hn hfits => ?_⟩
      rw [List.length_cons] at hn
      have hlen : (tagOctets tag).length = more.length + 1 := by simp [heq]
      have hstop := @parseTagOctets_stop rest more last nData 0 1 hmore hlast (by omega) (by omega)
      rw [← heq, hdigits, ← readTag] at hstop
      have happend : tagOctets tag ++ rest = more ++ last :: rest := by simp [heq]
      rw [← happend] at hstop
      have h31 : (UInt8.ofNat 31 : UInt8) = 31 := rfl
      rw [h31] at hcls hlow
      unfold atlvParseClsTag
      rw [Nat.mod_eq_of_lt (by omega), if_neg (by omega)]
      simp only [List.cons_append, hlow, hcls, ne_eq, not_true_eq_false, if_false, hstop]
      cases readTag tag with
      | none   => rfl
      | some n =>
        simp only [Option.map_some]
        rw [if_neg (by omega), toGint_of_lt (by omega), List.length_cons, Nat.add_comm]

-- A header is read again where the content that it announces is there.
theorem parseHeader_unparsed (h : atlvUnparseClsTagLen cls tag n = some header) (hn : header.length + n ≤ nData)
    (hfits : nData < 2 ^ 31) (hrest : nData ≤ header.length + rest.length) :
    atlvParseClsTagLen (header ++ rest) nData =
      some ((readTag tag).map fun m => ⟨cls &&& 0xE0, m, header.length, n⟩) := by
  obtain ⟨octets, rfl, hparse⟩ := parseClsTag_unparsed h
  have hn64 : n < 2 ^ 64 := by
    have hlt : n < 2 ^ 31 := by omega
    exact Nat.lt_trans hlt (by decide)
  rw [toGulong_natCast hn64] at hn hrest ⊢
  have hpos := List.length_pos_of_ne_nil (atlvUnparseLen_ne_nil n)
  rw [List.length_append] at hn hrest
  rw [atlvParseClsTagLen, List.append_assoc, hparse _ nData (by omega) hfits]
  cases readTag tag with
  | none   => rfl
  | some m =>
    -- What is behind the data is apart.
    obtain ⟨content, beyond, rfl, hcontent⟩ : ∃ content beyond, rest = content ++ beyond ∧
        nData - octets.length = (atlvUnparseLen n).length + content.length := by
      refine ⟨rest.take (nData - octets.length - (atlvUnparseLen n).length), _, (List.take_append_drop _ _).symm, ?_⟩
      rw [List.length_take]
      omega
    have hlength := parseLength_unparsed (show n < 2 ^ 31 by omega) hcontent (by omega) beyond
    rw [List.append_assoc] at hlength
    have hoff : addGint octets.length (atlvUnparseLen n).length =
        some ((octets.length : Int) + ((atlvUnparseLen n).length : Int)) := by
      rw [addGint, if_pos (by omega)]
    dsimp only [Option.map_some]
    rw [advance_left, Option.bind_eq_bind, Option.bind_some, Int.toNat_natCast, hlength, Option.bind_eq_bind, Option.bind_some]
    dsimp only
    rw [if_neg (by omega), hoff, Option.bind_eq_bind, Option.bind_some, if_neg (by omega), List.length_append, Nat.cast_add]

theorem header_of_lt (h : tag < 2 ^ 32) (cls : UInt8) (len : Int) : ∃ header, atlvUnparseClsTagLen cls tag len = some header := by
  rw [atlvUnparseClsTagLen]
  split
  case isTrue  => exact ⟨_, rfl⟩
  case isFalse =>
    have hdigits : (Nat.digits 128 tag).length ≤ 5 :=
      (Nat.digits_length_le_iff (by decide) tag).mpr (Nat.lt_trans h (by decide))
    rw [if_neg (by omega)]
    exact ⟨_, rfl⟩

theorem header_maxUlong (cls : UInt8) (len : Int) : atlvUnparseClsTagLen cls maxUlong len = none := by
  have hdigits : ¬(Nat.digits 128 maxUlong).length ≤ 8 := fun h =>
    absurd ((Nat.digits_length_le_iff (by decide) maxUlong).mp h) (by decide)
  rw [atlvUnparseClsTagLen, if_neg (by decide), if_pos (Nat.lt_of_not_le hdigits)]

theorem length_header_le (hn : n < 2 ^ 31) (h : atlvUnparseClsTagLen cls tag n = some header) : header.length ≤ 18 := by
  have hlen : (atlvUnparseLen n).length ≤ 9 := by
    have hdigits : (Nat.digits 256 n).length ≤ 8 :=
      (Nat.digits_length_le_iff (by decide) n).mpr (Nat.lt_trans hn (by decide))
    rw [atlvUnparseLen]
    split
    all_goals simp
    omega
  rw [atlvUnparseClsTagLen, toGulong_natCast (Nat.lt_trans hn (by decide))] at h
  split at h
  case isTrue =>
    obtain rfl := Option.some.inj h
    rw [List.length_cons]
    omega
  case isFalse htag =>
    split at h
    case isTrue => cases h
    case isFalse hdigits =>
      obtain rfl := Option.some.inj h
      obtain ⟨more, last, -, -, -, hoctets⟩ := tagOctets_spec (show tag ≠ 0 by omega)
      have hsize := congrArg List.length hoctets
      rw [septets, List.length_map, Radix.digits, List.length_reverse] at hsize
      rw [List.length_cons, List.length_append]
      omega

-- A tag that is parsed has 32 bits.
theorem parseTagOctets_lt {size ris punt r k : Nat} {mem : Bytes} (hris : ris < 2 ^ 32)
    (h : parseTagOctets size ris punt mem = some (some (r, k))) : r < 2 ^ 32 := by
  induction mem generalizing ris punt with
  | nil =>
    rw [parseTagOctets] at h
    split at h
    case isTrue  => cases h
    case isFalse =>
      cases h
      exact hris
  | cons c mem ih =>
    rw [parseTagOctets] at h
    split at h
    case isTrue =>
      cases h
      exact hris
    case isFalse =>
      split at h
      case isTrue => cases h
      case isFalse =>
        split at h
        case h_1 => cases h
        case h_2 ris' haccumulate =>
          have hlt : ris' < 2 ^ 32 := Radix.eq_of_shift haccumulate ▸ Nat.mod_lt _ (by decide)
          split at h
          case isTrue =>
            cases h
            exact hlt
          case isFalse => exact ih hlt h

theorem parseClsTag_lt {mem : Bytes} {off : Int} (h : atlvParseClsTag mem nData = some (some (cls, tag, off))) :
    tag < 2 ^ 32 := by
  unfold atlvParseClsTag at h
  dsimp only at h
  split at h
  case isTrue => cases h
  case isFalse =>
    cases mem with
    | nil => cases h
    | cons c mem =>
      dsimp only at h
      split at h
      case isTrue =>
        cases h
        exact Nat.lt_trans (c &&& 0x1F).toNat_lt (by decide)
      case isFalse =>
        split at h
        case h_1 => cases h
        case h_2 => cases h
        case h_3 ris punt hoctets =>
          split at h
          case isTrue  => cases h
          case isFalse =>
            cases h
            exact parseTagOctets_lt (by decide) hoctets

theorem parseClsTagLen_lt {mem : Bytes} {hd : Header} (h : atlvParseClsTagLen mem nData = some (some hd)) : hd.tag < 2 ^ 32 := by
  unfold atlvParseClsTagLen at h
  split at h
  case h_1 => cases h
  case h_2 => cases h
  case h_3 cls tag off htag =>
    rw [Option.bind_eq_bind, Option.bind_eq_some_iff] at h
    obtain ⟨mem', -, h⟩ := h
    rw [Option.bind_eq_bind, Option.bind_eq_some_iff] at h
    obtain ⟨⟨len, off'⟩, -, h⟩ := h
    dsimp only at h
    split at h
    case isTrue  => cases h
    case isFalse =>
      rw [Option.bind_eq_bind, Option.bind_eq_some_iff] at h
      obtain ⟨sum, -, h⟩ := h
      split at h
      case isTrue  => cases h
      case isFalse =>
        cases h
        exact parseClsTag_lt htag

theorem parseDerTag_tag {data : GBytes} {fuel at' k : Nat} {hd : Header}
    (h : atlvParseDerTag data fuel hd at' = some (.ok (tlv, k))) : tlv.tag = hd.tag := by
  cases fuel with
  | zero => cases h
  | succ fuel =>
    rw [atlvParseDerTag] at h
    dsimp only at h
    split at h
    case isTrue => cases h
    case isFalse =>
      split at h
      case isTrue => cases h
      case isFalse =>
        split at h
        case isTrue => cases h
        case isFalse =>
          split at h
          case isFalse =>
            cases h
            rfl
          case isTrue =>
            rw [Option.map_eq_some_iff] at h
            obtain ⟨result, -, h⟩ := h
            cases result with
            | error msg => cases h
            | ok p =>
              cases h
              rfl

theorem parseDer_tag_lt {data : GBytes} (h : atlvParseDer data = some (.ok tlv)) : tlv.tag < 2 ^ 32 := by
  rw [atlvParseDer] at h
  split at h
  case h_1 => cases h
  case h_2 => cases h
  case h_3 hd hhd =>
    split at h
    case h_1 => cases h
    case h_2 => cases h
    case h_3 tlv' k hparse =>
      split at h
      case isTrue  => cases h
      case isFalse =>
        cases h
        rw [parseDerTag_tag hparse]
        exact parseClsTagLen_lt hhd

-- An element with a definite class and a tag of 32 bits, which is structured where it has no value of its own. Nothing
-- was sorted.
structure Legible (tlv : Atlv) : Prop where
  cls        : tlv.cls &&& 0xE0 = tlv.cls
  structured : tlv.cls &&& classStructured = 0 ↔ tlv.value.isSome
  tag        : tlv.tag < 2 ^ 32
  sorted     : tlv.sorted = false

inductive AllLegible : Atlv → Prop
  | mk {tlv : Atlv} : Legible tlv → (∀ ctlv ∈ tlv.child, AllLegible ctlv) → AllLegible tlv

-- Nothing is sorted, so that the last element is never in question.
theorem AllLegible.lastGreatest (h : AllLegible tlv) : LastGreatest tlv := by
  induction h with
  | mk hlegible _ ih => exact .mk ih fun hsorted => by simp [hlegible.sorted] at hsorted

-- The element that is parsed where another one was unparsed.
inductive ParsedAs : Atlv → Atlv → Prop
  | value {tlv : Atlv} {value : GBytes} {octets behind : Bytes} : tlv.value = some value →
    unparseValue tlv value.data = some octets →
    ParsedAs tlv { cls := tlv.cls, tag := tlv.tag, off := tlv.off, len := tlv.len, value := some ⟨octets, behind⟩ }
  | children {tlv : Atlv} {children : List Atlv} : tlv.value = none → List.Forall₂ ParsedAs tlv.child children →
    ParsedAs tlv { cls := tlv.cls, tag := tlv.tag, off := tlv.off, len := tlv.len, child := children }

-- The encoding is at an offset of the data.
structure EncodedAt (data : GBytes) (at' : Nat) (bytes : Bytes) : Prop where
  found : bytes <+: data.memory.drop at'
  fits  : at' + bytes.length ≤ data.data.length

-- It is parsed there.
def Parses (data : GBytes) (tlv : Atlv) : Prop :=
  ∀ at', EncodedAt data at' (der tlv) → ∃ parsed, ParsedAs tlv parsed ∧
    (∀ stop, at' + (der tlv).length ≤ stop → stop ≤ data.data.length →
      parseHeader data at' stop = some (some ⟨tlv.cls, tlv.tag, tlv.off, tlv.len⟩)) ∧
    ∀ fuel, 2 * (der tlv).length ≤ fuel →
      atlvParseDerTag data fuel ⟨tlv.cls, tlv.tag, tlv.off, tlv.len⟩ at' = some (.ok (parsed, at' + (der tlv).length))

variable {data : GBytes} {at' : Nat} {bytes front back : Bytes} {tlvs : List Atlv}

theorem EncodedAt.left (h : EncodedAt data at' (front ++ back)) : EncodedAt data at' front := by
  refine ⟨(List.prefix_append _ _).trans h.found, ?_⟩
  have hfits := h.fits
  rw [List.length_append] at hfits
  omega

theorem EncodedAt.right (h : EncodedAt data at' (front ++ back)) : EncodedAt data (at' + front.length) back := by
  obtain ⟨rest, hrest⟩ := h.found
  have hfits := h.fits
  rw [List.length_append] at hfits
  refine ⟨⟨rest, ?_⟩, by omega⟩
  rw [← List.drop_drop, ← hrest, List.append_assoc, List.drop_left]

theorem parseHeader_at {content : Bytes} {stop : Nat} (hwritten : atlvUnparseClsTagLen tlv.cls tlv.tag content.length = some header)
    (hlegible : Legible tlv) (hat : EncodedAt data at' (header ++ content)) (hfits : data.data.length < 2 ^ 31)
    (hlow : at' + (header ++ content).length ≤ stop) (hhigh : stop ≤ data.data.length) :
    parseHeader data at' stop = some (some ⟨tlv.cls, tlv.tag, header.length, content.length⟩) := by
  obtain ⟨rest, hrest⟩ := hat.found
  have hmemory : data.memory.length - at' = header.length + (content ++ rest).length := by
    rw [← List.length_drop, ← hrest]
    simp
  have hdata : data.data.length ≤ data.memory.length := by simp [GBytes.memory]
  rw [List.length_append] at hlow
  rw [parseHeader, ← hrest, List.append_assoc,
    parseHeader_unparsed hwritten (by omega) (by omega) (by omega), readTag_of_lt hlegible.tag, Option.map_some,
    hlegible.cls]

-- The children are parsed one after the other.
theorem parseDerChildren_spec {h : Header} (hlen : 0 ≤ h.len) (hparses : ∀ ctlv ∈ tlvs, Parses data ctlv)
    (hne : ∀ ctlv ∈ tlvs, der ctlv ≠ []) (hat : EncodedAt data at' (tlvs.map der).flatten) :
    ∃ children, List.Forall₂ ParsedAs tlvs children ∧
      ∀ fuel, 2 * (tlvs.map der).flatten.length + 1 ≤ fuel →
        parseDerChildren data fuel h (at' + (tlvs.map der).flatten.length) at' =
          some (.ok (children, at' + (tlvs.map der).flatten.length)) := by
  induction tlvs generalizing at' with
  | nil =>
    refine ⟨[], .nil, fun fuel hfuel => ?_⟩
    obtain ⟨fuel, rfl⟩ := Nat.exists_eq_add_of_le' (Nat.le_of_add_left_le hfuel)
    rw [parseDerChildren, if_pos (by simp)]
    rfl
  | cons ctlv tlvs ih =>
    obtain ⟨hctlv, htlvs⟩ := List.forall_mem_cons.mp hparses
    obtain ⟨hder, hnes⟩ := List.forall_mem_cons.mp hne
    rw [List.map_cons, List.flatten_cons] at hat ⊢
    obtain ⟨parsed, hparsed, hheader, htag⟩ := hctlv at' hat.left
    obtain ⟨children, hchildren, hothers⟩ := ih htlvs hnes hat.right
    have hpos := List.length_pos_of_ne_nil hder
    have hfits := hat.fits
    rw [List.length_append] at hfits ⊢
    refine ⟨parsed :: children, .cons hparsed hchildren, fun fuel hfuel => ?_⟩
    obtain ⟨fuel, rfl⟩ := Nat.exists_eq_add_of_le' (Nat.le_of_add_left_le hfuel)
    have hdefinite : ¬h.indefiniteEnd ⟨ctlv.cls, ctlv.tag, ctlv.off, ctlv.len⟩ := fun hend => Int.not_lt.mpr hlen hend.1
    rw [parseDerChildren, if_neg (by omega), hheader _ (by omega) hfits]
    dsimp only
    rw [if_neg hdefinite, htag fuel (by omega)]
    dsimp only
    rw [← Nat.add_assoc, hothers fuel (by omega)]
    rfl

theorem der_ne_nil (h : WellSized tlv) : der tlv ≠ [] := by
  obtain ⟨header, content, hheaded, hder, -⟩ := h.encoded
  rw [hder]
  simp [unparseClsTagLen_ne_nil hheaded.written]

theorem slice_at {beg : Nat} (hat : EncodedAt data beg octets) (hlen : len = octets.length) :
    ∃ behind, data.slice beg len = ⟨octets, behind⟩ := by
  obtain ⟨rest, hrest⟩ := hat.found
  refine ⟨rest, ?_⟩
  rw [GBytes.slice, ← hrest, hlen, Int.toNat_natCast, List.take_left, List.drop_left]

-- Where the header was read, the value or the children are left to parse.
theorem parseDerTag_eq {k m : Nat} (hfits : at' + (k + m) ≤ data.data.length) (cls : UInt8) (tag fuel : Nat) :
    atlvParseDerTag data (fuel + 1) ⟨cls, tag, k, m⟩ at' =
      if cls &&& classStructured ≠ 0 then
        (parseDerChildren data fuel ⟨cls, tag, k, m⟩ (at' + k + m) (at' + k)).map
          (·.map fun (children, at') => ({ cls := cls, tag := tag, off := k, len := m, child := children }, at'))
      else
        some (.ok ({ cls := cls, tag := tag, off := k, len := m, value := some (data.slice (at' + k) m) }, at' + k + m)) := by
  have hcontent : ((at' : Int) + (k : Int)).toNat = at' + k := by omega
  have hdefinite : (0 : Int) ≤ m := Int.natCast_nonneg m
  rw [atlvParseDerTag]
  dsimp only
  rw [if_neg (by omega), if_neg (by omega), if_neg (by omega), hcontent, Int.toNat_natCast]
  simp only [hdefinite, if_true]

-- Each element is parsed where it was unparsed.
theorem parses (hfits : data.data.length < 2 ^ 31) (h : WellSized tlv) (hlegible : AllLegible tlv) : Parses data tlv := by
  have hcontents := h.encoded
  induction h with
  | @value tlv value =>
    obtain ⟨hlegible, -⟩ := hlegible
    intro at' hat
    obtain ⟨header, content, hheaded, hder, hlen, ⟨v, hv, -, hcontent⟩ | ⟨hnone, -⟩⟩ := hcontents
    case inr => cases ‹tlv.value = some _›.symm.trans hnone
    have hoff := hheaded.off
    have hwritten := hheaded.written
    rw [hder] at hat ⊢
    rw [← hlen] at hwritten
    rw [← hoff, ← hlen]
    have hsize := hat.fits
    rw [List.length_append] at hsize
    obtain ⟨behind, hslice⟩ := slice_at hat.right rfl
    refine ⟨_, @ParsedAs.value _ v content behind hv hcontent, ?_, fun fuel hfuel => ?_⟩
    · intro stop hlow hhigh
      exact parseHeader_at hwritten hlegible hat hfits hlow hhigh
    · have hstructured := hlegible.structured.mpr (by simp [hv])
      rw [List.length_append] at hfuel
      have hpos := List.length_pos_of_ne_nil (unparseClsTagLen_ne_nil hwritten)
      obtain ⟨fuel, rfl⟩ := Nat.exists_eq_add_of_le' (show 1 ≤ fuel by omega)
      rw [parseDerTag_eq hsize, if_neg (not_not.mpr hstructured), hslice, List.length_append, Nat.add_assoc, hoff, hlen]
  | @children tlv header hheaded hvalue hlen hchildren ih =>
    obtain ⟨hlegible, hlegibles⟩ := hlegible
    have hparses : ∀ ctlv ∈ tlv.child, Parses data ctlv := fun ctlv hmem =>
      ih ctlv hmem (hlegibles ctlv hmem) (hchildren ctlv hmem).encoded
    intro at' hat
    obtain ⟨header, content, hheaded, hder, hlen, ⟨v, hv, -⟩ | ⟨-, -, hcontent⟩⟩ := hcontents
    case inl => cases hvalue.symm.trans hv
    rw [if_neg (by simp [hlegible.sorted])] at hcontent
    have hoff := hheaded.off
    have hwritten := hheaded.written
    rw [hder] at hat ⊢
    rw [← hlen] at hwritten
    rw [← hoff, ← hlen]
    have hsize := hat.fits
    rw [List.length_append] at hsize
    have hright := hat.right
    rw [hcontent] at hright
    obtain ⟨children, hparsed, hfuel'⟩ := @parseDerChildren_spec _ _ _ ⟨tlv.cls, tlv.tag, header.length, content.length⟩
      (Int.natCast_nonneg _) hparses (fun ctlv hmem => der_ne_nil (hchildren ctlv hmem)) hright
    refine ⟨_, @ParsedAs.children _ children hvalue hparsed, ?_, fun fuel hfuel => ?_⟩
    · intro stop hlow hhigh
      exact parseHeader_at hwritten hlegible hat hfits hlow hhigh
    · have hstructured : tlv.cls &&& classStructured ≠ 0 := fun h => by
        simpa [hvalue] using hlegible.structured.mp h
      rw [List.length_append] at hfuel
      have hpos := List.length_pos_of_ne_nil (unparseClsTagLen_ne_nil hwritten)
      obtain ⟨fuel, rfl⟩ := Nat.exists_eq_add_of_le' (show 1 ≤ fuel by omega)
      rw [← hcontent] at hfuel'
      rw [parseDerTag_eq hsize, if_pos hstructured, hfuel' fuel (by omega), List.length_append, Nat.add_assoc, hoff, hlen]
      rfl

-- The whole data is one element.
theorem parseDer_unparsed (h : WellSized tlv) (hlegible : AllLegible tlv) (behind : Bytes) :
    ∃ parsed, ParsedAs tlv parsed ∧ atlvParseDer ⟨der tlv, behind⟩ = some (.ok parsed) := by
  have hsize : ((der tlv).length : Int) < 2 ^ 31 := by
    obtain ⟨header, content, hheaded, hder, hlen, -⟩ := h.encoded
    rw [hder, List.length_append, Nat.cast_add, hheaded.off, hlen]
    exact hheaded.fits
  have hat : EncodedAt ⟨der tlv, behind⟩ 0 (der tlv) := ⟨List.prefix_append _ _, by simp⟩
  obtain ⟨parsed, hparsed, hheader, htag⟩ := @parses _ ⟨der tlv, behind⟩ (by simpa using hsize) h hlegible 0 hat
  refine ⟨parsed, hparsed, ?_⟩
  rw [atlvParseDer]
  dsimp only
  rw [hheader _ (by simp) (Nat.le_refl _)]
  dsimp only
  rw [htag _ (by simp)]
  simp

end Asn1x
