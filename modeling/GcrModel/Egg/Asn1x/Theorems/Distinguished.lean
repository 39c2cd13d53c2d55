import GcrModel.Egg.Asn1x.Theorems.Plain
import GcrModel.Egg.Asn1x.Theorems.Tiles

-- The encodings that are the same after they are parsed and written again.
namespace Asn1x

open GLib
open Septets (Canonical)

variable {tlv parsed : Atlv} {tlvs children : List Atlv} {cls c : UInt8} {tag length header bytes : Bytes} {n len : Nat}

-- The octets behind the first one of an identifier, no more than are needed, and the number of the tag.
inductive ShortestTag : UInt8 → Bytes → Nat → Prop
  | low {c : UInt8} : c &&& 0x1F ≠ 0x1F → ShortestTag c [] (c &&& 0x1F).toNat
  | high {c : UInt8} {tag : Bytes} : c &&& 0x1F = 0x1F → Canonical tag → 31 ≤ Septets.value tag →
    ShortestTag c tag (Septets.value tag)

-- The octets of a length, no more than are needed.
inductive ShortestLength : Bytes → Nat → Prop
  | short {c : UInt8} : c < 128 → ShortestLength [c] c.toNat
  | long {octets : Bytes} : octets.length < 128 → octets.head? ≠ some 0 → 128 ≤ Radix.value 256 (octets.map UInt8.toNat) →
    ShortestLength (UInt8.ofNat (octets.length + 128) :: octets) (Radix.value 256 (octets.map UInt8.toNat))

-- An encoding with definite lengths and the shortest headers, where the numbers of the tags have 32 bits.
inductive Distinguished : Bytes → Prop
  | primitive {c : UInt8} {tag length content : Bytes} {n : Nat} : c &&& classStructured = 0 → ShortestTag c tag n →
    n < 2 ^ 32 → ShortestLength length content.length → Distinguished (c :: (tag ++ length) ++ content)
  | constructed {c : UInt8} {tag length : Bytes} {parts : List Bytes} {n : Nat} : c &&& classStructured ≠ 0 →
    ShortestTag c tag n → n < 2 ^ 32 → ShortestLength length parts.flatten.length →
    (∀ part ∈ parts, Distinguished part) → Distinguished (c :: (tag ++ length) ++ parts.flatten)

section Octets

theorem class_add_low (c : UInt8) : (c &&& 0xE0 &&& 0xE0) + UInt8.ofNat (c &&& 0x1F).toNat = c := by
  have hall : ∀ c : Fin 256, (UInt8.ofNat c.val &&& 0xE0 &&& 0xE0) + UInt8.ofNat (UInt8.ofNat c.val &&& 0x1F).toNat =
      UInt8.ofNat c.val := by decide +kernel
  simpa using hall ⟨c.toNat, c.toNat_lt⟩

theorem class_structured (c : UInt8) : c &&& 0xE0 &&& classStructured = c &&& classStructured := by
  rw [UInt8.and_assoc]
  rfl

theorem class_class (c : UInt8) : c &&& 0xE0 &&& 0xE0 = c &&& 0xE0 := by
  rw [UInt8.and_assoc]
  rfl

theorem septets_eq (s : Bytes) : septets s = Septets.digits s :=
  List.map_congr_left fun _ _ => Octet.toNat_and_127

theorem head_digits {b : Nat} (h : n ≠ 0) : (Radix.digits b n).head? ≠ some 0 := by
  have hne : Nat.digits b n ≠ [] := Nat.digits_ne_nil_iff_ne_zero.mpr h
  rw [Radix.digits, List.head?_reverse, List.getLast?_eq_some_getLast hne]
  exact fun heq => Nat.getLast_digit_ne_zero b h (Option.some.inj heq)

-- The octets of a tag that are written are the shortest ones.
theorem tagOctets_canonical (h : n ≠ 0) : Canonical (tagOctets n) ∧ Septets.value (tagOctets n) = n := by
  obtain ⟨more, last, heq, hmore, hlast, hdigits⟩ := tagOctets_spec h
  rw [septets_eq] at hdigits
  refine ⟨⟨heq ▸ .mk hmore hlast, fun hhead => ?_⟩, ?_⟩
  · have hzero : (Radix.digits 128 n).head? = some 0 := by
      rw [← hdigits, Septets.digits, List.head?_map, hhead]
      rfl
    exact head_digits h hzero
  · rw [Septets.value, hdigits, Radix.value_digits]

theorem low_lt (h : c &&& 0x1F ≠ 0x1F) : (c &&& 0x1F).toNat < 31 := by
  have hle : (c &&& 0x1F).toNat ≤ 31 := by
    rw [UInt8.toNat_and]
    exact Nat.and_le_right
  refine Nat.lt_of_le_of_ne hle fun heq => h (UInt8.toNat_inj.mp heq)

theorem unparseLen_of_shortest (h : ShortestLength length n) : atlvUnparseLen n = length := by
  cases h with
  | @short c hlt =>
    have hnat : c.toNat < 128 := UInt8.lt_iff_toNat_lt.mp hlt
    rw [atlvUnparseLen, if_pos hnat, UInt8.ofNat_toNat]
  | @long octets hfits hhead hge =>
    have hdigits : Radix.digits 256 (Radix.value 256 (octets.map UInt8.toNat)) = octets.map UInt8.toNat := by
      refine Radix.digits_value (by decide) (fun d hd => ?_) fun hzero => hhead ?_
      · obtain ⟨c, -, rfl⟩ := List.mem_map.mp hd
        exact c.toNat_lt
      · rw [List.head?_map, Option.map_eq_some_iff] at hzero
        obtain ⟨c, hc, hzero⟩ := hzero
        rw [hc, UInt8.toNat_inj.mp (hzero.trans UInt8.toNat_zero.symm)]
    have hlength : (Nat.digits 256 (Radix.value 256 (octets.map UInt8.toNat))).length = octets.length := by
      simpa [Radix.digits] using congrArg List.length hdigits
    rw [Radix.digits] at hdigits
    have hoctets : (octets.map UInt8.toNat).map UInt8.ofNat = octets := by simp [Function.comp_def]
    rw [atlvUnparseLen, if_neg (Nat.not_lt.mpr hge)]
    dsimp only
    rw [hdigits, hoctets, hlength, Nat.mod_eq_of_lt hfits]

theorem shortest_unparseLen (h : n < 2 ^ 31) : ShortestLength (atlvUnparseLen n) n := by
  rw [atlvUnparseLen]
  split
  case isTrue hlt =>
    have hnat := toNat_ofNat_of_lt (show n < 256 by omega)
    have hshort := @ShortestLength.short (UInt8.ofNat n) (UInt8.lt_iff_toNat_lt.mpr (by rw [hnat]; exact hlt))
    rwa [hnat] at hshort
  case isFalse hge =>
    have hfits : (Nat.digits 256 n).length ≤ 4 :=
      (Nat.digits_length_le_iff (by decide) n).mpr (Nat.lt_trans h (by decide))
    have hdigits : ((Nat.digits 256 n).reverse.map UInt8.ofNat).map UInt8.toNat = Radix.digits 256 n :=
      map_toNat_ofNat fun d hd => Radix.lt_of_mem_digits (by decide) hd
    have hvalue : Radix.value 256 (((Nat.digits 256 n).reverse.map UInt8.ofNat).map UInt8.toNat) = n := by
      rw [hdigits, Radix.value_digits]
    have hlong := @ShortestLength.long ((Nat.digits 256 n).reverse.map UInt8.ofNat) (by simp; omega) ?_
      (by rw [hvalue]; omega)
    · rw [hvalue, List.length_map, List.length_reverse] at hlong
      dsimp only
      rwa [Nat.mod_eq_of_lt (by omega)]
    · intro hhead
      refine head_digits (b := 256) (show n ≠ 0 by omega) ?_
      rw [← hdigits, List.head?_map, hhead]
      rfl

-- The shortest header is the one that is written.
theorem unparse_of_shortest (htag : ShortestTag c tag n) (hn : n < 2 ^ 32) (hlength : ShortestLength length len)
    (hlen : len < 2 ^ 31) : atlvUnparseClsTagLen (c &&& 0xE0) n len = some (c :: (tag ++ length)) := by
  rw [atlvUnparseClsTagLen, toGulong_natCast (Nat.lt_trans hlen (by decide)), unparseLen_of_shortest hlength]
  cases htag with
  | low hlow => rw [if_pos (low_lt hlow), class_add_low, List.nil_append]
  | high hhigh hcanonical hge =>
    have hdigits : (Nat.digits 128 (Septets.value tag)).length ≤ 5 :=
      (Nat.digits_length_le_iff (by decide) _).mpr (Nat.lt_trans hn (by decide))
    obtain ⟨hcanonical', hvalue⟩ := tagOctets_canonical (show Septets.value tag ≠ 0 by omega)
    have hc := class_add_low c
    rw [hhigh] at hc
    rw [if_neg (Nat.not_lt.mpr hge), if_neg (by omega), hcanonical'.unique hcanonical hvalue]
    exact congrArg (fun c => some (c :: (tag ++ length))) hc

-- The header that is written is the shortest one.
theorem shortest_of_unparse (h : atlvUnparseClsTagLen cls n len = some header) (hn : n < 2 ^ 32) (hlen : len < 2 ^ 31) :
    ∃ c tag length, header = c :: (tag ++ length) ∧ ShortestTag c tag n ∧ ShortestLength length len ∧
      c &&& 0xE0 = cls &&& 0xE0 := by
  rw [atlvUnparseClsTagLen, toGulong_natCast (Nat.lt_trans hlen (by decide))] at h
  have hlength := shortest_unparseLen hlen
  split at h
  case isTrue hlt =>
    obtain rfl := Option.some.inj h
    obtain ⟨hcls, hlow⟩ := class_and_low cls (show n < 32 by omega)
    have hnat := toNat_ofNat_of_lt (show n < 256 by omega)
    have hshort : UInt8.ofNat n ≠ 0x1F := fun heq => by
      have heq := congrArg UInt8.toNat heq
      rw [hnat] at heq
      exact absurd hlt (by rw [heq]; decide)
    have htag := @ShortestTag.low ((cls &&& 0xE0) + UInt8.ofNat n) (by rwa [hlow])
    rw [hlow, hnat] at htag
    exact ⟨_, [], _, rfl, htag, hlength, hcls⟩
  case isFalse hge =>
    split at h
    case isTrue  => cases h
    case isFalse =>
      obtain rfl := Option.some.inj h
      obtain ⟨hcls, hlow⟩ := class_and_low cls (show 31 < 32 by decide)
      obtain ⟨hcanonical, hvalue⟩ := tagOctets_canonical (show n ≠ 0 by omega)
      have htag := @ShortestTag.high ((cls &&& 0xE0) + 31) (tagOctets n) hlow hcanonical (by rw [hvalue]; omega)
      rw [hvalue] at htag
      exact ⟨_, _, _, rfl, htag, hlength, hcls⟩

end Octets

section Written

def elementOf (cls : UInt8) (tag : Nat) (header content : Bytes) : Atlv where
  cls   := cls
  tag   := tag
  off   := header.length
  len   := content.length
  value := some ⟨content, []⟩

def structureOf (cls : UInt8) (tag : Nat) (header : Bytes) (children : List Atlv) : Atlv where
  cls   := cls
  tag   := tag
  off   := header.length
  len   := (children.map der).flatten.length
  child := children

-- Elements and their encodings, which are as long as they say.
theorem WellSized.length_der (h : WellSized tlv) : ((der tlv).length : Int) = tlv.off + tlv.len := by
  obtain ⟨header, content, hheaded, hder, hlen, -⟩ := h.encoded
  rw [hder, List.length_append, Nat.cast_add, hheaded.off, hlen]

theorem WellSized.toBytes (h : WellSized tlv) (hbuilt : Built tlv) : atlvUnparseToBytes tlv = some (some ⟨der tlv, []⟩) := by
  obtain ⟨bytes, hencoding, -⟩ := ((setsSorted_iff h).mpr hbuilt.allLegible.lastGreatest).encoding_eq
  obtain ⟨l, hsort, htree⟩ := hbuilt.sort
  rw [encoding, hsort, Option.bind_eq_bind, Option.bind_some, htree, Option.bind_eq_bind, Option.bind_some] at hencoding
  rw [hencoding, (hbuilt.toBytes hencoding).2]

theorem exists_elements {parts : List Bytes} (h : ∀ part ∈ parts, ∃ tlv, Built tlv ∧ WellSized tlv ∧ der tlv = part) :
    ∃ tlvs : List Atlv, tlvs.map der = parts ∧ ∀ tlv ∈ tlvs, Built tlv ∧ WellSized tlv := by
  induction parts with
  | nil             => exact ⟨[], rfl, by simp⟩
  | cons part parts ih =>
    obtain ⟨⟨tlv, hbuilt, hsized, rfl⟩, hparts⟩ := List.forall_mem_cons.mp h
    obtain ⟨tlvs, rfl, hall⟩ := ih hparts
    exact ⟨tlv :: tlvs, rfl, List.forall_mem_cons.mpr ⟨⟨hbuilt, hsized⟩, hall⟩⟩

-- Each distinguished encoding is the one of an element.
theorem Distinguished.element (h : Distinguished bytes) (hfits : bytes.length < 2 ^ 31) :
    ∃ tlv, Built tlv ∧ WellSized tlv ∧ der tlv = bytes := by
  induction h with
  | @primitive c tag length content n hprimitive htag hn hlength =>
    rw [List.length_append] at hfits
    have hwritten := unparse_of_shortest htag hn hlength (by omega)
    have hlegible : Legible (elementOf (c &&& 0xE0) n (c :: (tag ++ length)) content) :=
      ⟨class_class c, iff_of_true ((class_structured c).trans hprimitive) rfl, hn, rfl⟩
    have hheaded : Headed (elementOf (c &&& 0xE0) n (c :: (tag ++ length)) content) (c :: (tag ++ length)) :=
      ⟨hwritten, rfl, by dsimp only [elementOf]; omega⟩
    have hvalue : unparseValue (elementOf (c &&& 0xE0) n (c :: (tag ++ length)) content) content = some content := if_pos rfl
    refine ⟨elementOf (c &&& 0xE0) n (c :: (tag ++ length)) content, .mk hlegible (fun _ => rfl) fun ctlv hc => ?_,
      .value hheaded rfl rfl hvalue, ?_⟩
    · exact absurd hc List.not_mem_nil
    · have hsome : (elementOf (c &&& 0xE0) n (c :: (tag ++ length)) content).value = some ⟨content, []⟩ := rfl
      rw [der_eq, hheaded.written, hsome]
      dsimp only
      rw [hvalue]
      rfl
  | @constructed c tag length parts n hstructured htag hn hlength _ ih =>
    rw [List.length_append] at hfits
    have hwritten := unparse_of_shortest htag hn hlength (by omega)
    obtain ⟨tlvs, rfl, hall⟩ := exists_elements fun part hpart => ih part hpart
      (Nat.lt_of_le_of_lt (List.sublist_flatten_of_mem hpart).length_le (by omega))
    have hsum := length_flatten_ders fun ctlv hc => (hall ctlv hc).2.length_der
    have hlegible : Legible (structureOf (c &&& 0xE0) n (c :: (tag ++ length)) tlvs) :=
      ⟨class_class c, iff_of_false (by rwa [structureOf, class_structured]) (by simp [structureOf]), hn, rfl⟩
    have hheaded : Headed (structureOf (c &&& 0xE0) n (c :: (tag ++ length)) tlvs) (c :: (tag ++ length)) :=
      ⟨hwritten, rfl, by dsimp only [structureOf]; omega⟩
    refine ⟨structureOf (c &&& 0xE0) n (c :: (tag ++ length)) tlvs, .mk hlegible (fun hsome => ?_) fun ctlv hc => ?_,
      .children hheaded rfl hsum fun ctlv hc => ?_, ?_⟩
    · cases hsome
    · exact (hall ctlv hc).1
    · exact (hall ctlv hc).2
    · rw [der_eq, hheaded.written]
      rfl

-- The encoding of an element is distinguished.
theorem WellSized.distinguished (h : WellSized tlv) (hlegible : AllLegible tlv) : Distinguished (der tlv) := by
  induction hlegible with
  | @mk tlv hlegible _ ih =>
    obtain ⟨header, content, hheaded, hder, hlen, hcontent⟩ := h.encoded
    have hwritten := hheaded.written
    have hsize : content.length < 2 ^ 31 := by
      have hfits := hheaded.fits
      have hoff := hheaded.off
      omega
    rw [← hlen] at hwritten
    obtain ⟨c, tag, length, rfl, htag, hlength, hcls⟩ := shortest_of_unparse hwritten hlegible.tag hsize
    have hstructured : c &&& classStructured = tlv.cls &&& classStructured := by
      rw [← class_structured c, hcls, class_structured]
    rw [hder]
    obtain ⟨value, hvalue, -, -⟩ | ⟨hnone, hchildren, hparts⟩ := hcontent
    · exact .primitive (hstructured.trans (hlegible.structured.mpr (by rw [hvalue]; rfl))) htag hlegible.tag hlength
    · rw [if_neg (by simp [hlegible.sorted])] at hparts
      rw [hparts] at hlength ⊢
      refine .constructed ?_ htag hlegible.tag hlength fun part hpart => ?_
      · rw [hstructured]
        exact fun hzero => by simpa [hnone] using hlegible.structured.mp hzero
      · obtain ⟨ctlv, hc, rfl⟩ := List.mem_map.mp hpart
        exact ih ctlv hc (hchildren ctlv hc)

theorem unparseValue_plain {tlv' : Atlv} {value octets : Bytes} (h : unparseValue tlv value = some octets)
    (hlen : tlv'.len = tlv.len) (hbits : tlv'.prefixForBitString = false) (hzero : tlv'.prefixWithZeroByte = false) :
    unparseValue tlv' octets = some octets := by
  have hlength := length_of_unparseValue h
  rw [unparseValue, Atlv.prefixes, hbits, hzero]
  exact if_pos (hlength.trans hlen.symm)

theorem same_encodings
    (h : List.Forall₂ (fun ctlv child => Built child ∧ WellSized child ∧ der child = der ctlv) tlvs children) :
    children.map der = tlvs.map der ∧ ∀ child ∈ children, Built child ∧ WellSized child := by
  induction h with
  | nil => exact ⟨rfl, by simp⟩
  | cons hc _ ih =>
    obtain ⟨hbuilt, hsized, hder⟩ := hc
    exact ⟨by rw [List.map_cons, List.map_cons, hder, ih.1], List.forall_mem_cons.mpr ⟨⟨hbuilt, hsized⟩, ih.2⟩⟩

-- What is parsed again of an element has the same encoding.
theorem ParsedAs.der_eq (h : WellSized tlv) (hbuilt : Built tlv) (hparsed : ParsedAs tlv parsed) :
    Built parsed ∧ WellSized parsed ∧ der parsed = der tlv := by
  induction hbuilt generalizing parsed with
  | @mk tlv hlegible _ _ ih =>
    obtain ⟨header, content, ⟨hwritten, hoff, hfits⟩, hder, hlen, hcontent⟩ := h.encoded
    cases hparsed with
    | @value _ value octets behind hvalue hoctets =>
      obtain ⟨value', hvalue', -, hcontent⟩ | ⟨hnone, -⟩ := hcontent
      case inr => cases hvalue.symm.trans hnone
      obtain rfl := Option.some.inj (hvalue.symm.trans hvalue')
      obtain rfl := Option.some.inj (hoctets.symm.trans hcontent)
      have hprimitive := hlegible.structured.mpr (by rw [hvalue]; rfl)
      have hplain : unparseValue (.mk tlv.cls tlv.tag tlv.off tlv.len (some ⟨octets, behind⟩) [] 0 false false false) octets =
          some octets := unparseValue_plain hoctets rfl rfl rfl
      refine ⟨.mk ⟨hlegible.cls, iff_of_true hprimitive rfl, hlegible.tag, rfl⟩ (fun _ => rfl) (by simp),
        .value ⟨hwritten, hoff, hfits⟩ rfl rfl hplain, ?_⟩
      rw [Asn1x.der_eq, hder, hwritten]
      dsimp only
      rw [hplain]
      rfl
    | @children _ children hnone hchildren =>
      obtain ⟨value, hvalue, -⟩ | ⟨-, hsized, hparts⟩ := hcontent
      case inl => cases hnone.symm.trans hvalue
      rw [if_neg (by simp [hlegible.sorted])] at hparts
      have hmem := (List.forall₂_and_left tlv.child children).mpr ⟨fun ctlv hc => hc, hchildren⟩
      obtain ⟨hders, hall⟩ := same_encodings (hmem.imp fun ctlv child ⟨hc, hp⟩ => ih ctlv hc (hsized ctlv hc) hp)
      have hstructured : ¬tlv.cls &&& classStructured = 0 := fun hzero => by
        simpa [hnone] using hlegible.structured.mp hzero
      have hsum := length_flatten_ders fun child hc => (hall child hc).2.length_der
      rw [hders, ← hparts, hlen] at hsum
      refine ⟨.mk ⟨hlegible.cls, iff_of_false hstructured (by simp), hlegible.tag, rfl⟩ (by simp) fun child hc => ?_,
        .children ⟨hwritten, hoff, hfits⟩ rfl hsum fun child hc => ?_, ?_⟩
      · exact (hall child hc).1
      · exact (hall child hc).2
      · rw [Asn1x.der_eq, hder, hwritten, hparts, ← hders]
        rfl

theorem TagNumber.lt (h : TagNumber c tag n) : n < 2 ^ 32 := by
  rw [TagNumber] at h
  split at h
  case isTrue  => exact h ▸ Nat.mod_lt _ (by decide)
  case isFalse => exact Nat.lt_trans (h ▸ (c &&& 0x1F).toNat_lt) (by decide)

theorem Spells.legible {octets : Bytes} {h : Header} {value : Option GBytes} (hs : Spells octets h)
    (hstructured : h.cls &&& classStructured = 0 ↔ value.isSome) :
    Legible { cls := h.cls, tag := h.tag, off := h.off, len := h.len, value := value, child := children } := by
  obtain ⟨c, tag, length, -, -, hcls, htag, -⟩ := hs.parts
  exact ⟨by rw [hcls, class_class], hstructured, htag.lt, rfl⟩

-- Elements that are parsed are like those that are built.
theorem Tiles.built {behind : Bytes} (h : Tiles tlvs bytes behind) : ∀ tlv ∈ tlvs, Built tlv := by
  induction h with
  | nil                 => simp
  | cons _ _ hbuilt ih => exact List.forall_mem_cons.mpr ⟨hbuilt _ (List.mem_singleton_self _), ih⟩
  | primitive hspells hprimitive _ =>
    refine List.forall_mem_singleton.mpr (.mk (hspells.legible (iff_of_true hprimitive rfl)) (fun _ => rfl) ?_)
    exact fun ctlv hc => absurd hc List.not_mem_nil
  | definite hspells hstructured _ _ _ _ ih | indefinite hspells hstructured _ _ _ _ ih =>
    exact List.forall_mem_singleton.mpr (.mk (hspells.legible (iff_of_false hstructured (by simp)))
      (fun hsome => by cases hsome) ih)

end Written

-- The distinguished encodings are exactly those that are parsed as an element that is written as they are.
theorem distinguished_iff (bytes behind : Bytes) (hfits : bytes.length < 2 ^ 31) : Distinguished bytes ↔
    ∃ tlv, atlvParseDer ⟨bytes, behind⟩ = some (.ok tlv) ∧ atlvUnparseToBytes tlv = some (some ⟨bytes, []⟩) := by
  constructor
  case mp =>
    intro h
    obtain ⟨tlv, hbuilt, hsized, rfl⟩ := h.element hfits
    obtain ⟨parsed, hparsed, hparse⟩ := parseDer_unparsed hsized hbuilt.allLegible behind
    obtain ⟨hbuilt', hsized', hder⟩ := hparsed.der_eq hsized hbuilt
    refine ⟨parsed, hparse, ?_⟩
    rw [hsized'.toBytes hbuilt', hder]
  case mpr =>
    rintro ⟨tlv, hparse, hbytes⟩
    have hbuilt := (parseDer_tiles ⟨bytes, behind⟩ tlv hfits hparse).built tlv (List.mem_singleton_self tlv)
    obtain ⟨hsized, heq⟩ := hbuilt.toBytes hbytes
    obtain rfl := congrArg GBytes.data heq
    exact hsized.distinguished hbuilt.allLegible

def exampleSequence : Atlv where
  cls   := 0x20
  tag   := 16
  off   := 2
  len   := 5
  child := [{ cls := 0, tag := 2, off := 2, len := 1, value := some ⟨[5], [5, 0]⟩ },
    { cls := 0, tag := 5, off := 2, len := 0, value := some ⟨[], []⟩ }]

theorem distinguished_iff_exampleSequence : Distinguished [0x30, 0x05, 0x02, 0x01, 0x05, 0x05, 0x00] :=
  (distinguished_iff [0x30, 0x05, 0x02, 0x01, 0x05, 0x05, 0x00] [] (by decide)).mpr ⟨exampleSequence, rfl, by decide +kernel⟩

end Asn1x
