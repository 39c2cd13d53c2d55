import GcrModel.Egg.Asn1x.Theorems.Header

namespace Asn1x

open GLib
open Der (Identifier Element)

variable {data mem rest beyond content tag tag' : Bytes} {m n n' v v' off off' len len' : Nat}

-- The helpers read inside of the buffer and find in it what is an element.
structure Agree (data : Bytes) : Prop where
  clsTag  : (atlvParseClsTag data data.length).isSome
  length  : data ≠ [] → (atlvParseLength data data.length).isSome
  element : ∃ r, eggAsn1xElementLength data = some r ∧
    ∀ n : Nat, r = n ↔ n ≤ data.length ∧ ∃ tag off len, Element (data.take n) tag off len
  content : ∃ r, eggAsn1xElementContent data = some r ∧ ∀ start size, r = some (start, size) →
    ∃ (tag : Bytes) (off len : Nat), start = off ∧ size = len ∧ off + len ≤ data.length ∧
      Element (data.take (off + len)) tag off len

-- There is an element at the front of the buffer.
def Begins (data : Bytes) : Prop :=
  ∃ n tag off len, n ≤ data.length ∧ Element (data.take n) tag off len

-- The octets of the tag end before the buffer. The tag of an element that is there fits 32 bits, the functions know of all
-- of its header, and it is smaller than 2^31 bytes. Where there is no element, the octets of the length that there are do
-- not give one.
structure Regular (data : Bytes) : Prop where
  ends     : ¬RunsOut data
  elements : ∀ n tag off len, n ≤ data.length → Element (data.take n) tag off len →
    ¬Wraps 128 (septets tag) ∧ off ≤ data.length % 2 ^ 32 ∧ n < 2 ^ 31
  header   : ∀ tag rest, Found data tag rest → 1 + tag.length + counted rest < 2 ^ 31
  others   : ∀ tag rest v, Found data tag rest → Announces rest v → Begins data

theorem Announces.unique (h : Announces rest v) (h' : Announces rest v') : v = v' := by
  cases h with
  | short hc =>
    cases h' with
    | short _      => rfl
    | long hc' _ _ => exact absurd (UInt8.lt_trans hc hc') (UInt8.lt_irrefl _)
  | long hc hread _ =>
    cases h' with
    | short hc'      => exact absurd (UInt8.lt_trans hc' hc) (UInt8.lt_irrefl _)
    | long _ hread' _ => exact Option.some.inj (hread.symm.trans hread')

-- A length below 2^31 that is there completely is read as it is.
theorem announces_of_length (h : Der.Length (rest ++ beyond) m len content) (hm : m ≤ rest.length) (hlen : len < 2 ^ 31) :
    Announces rest len ∧ counted rest = m := by
  generalize hs : rest ++ beyond = s at h
  have hne : rest ≠ [] := by
    rintro rfl
    have hz : m = 0 := by simpa using hm
    cases h
    all_goals simp at hz
  obtain ⟨c, s', rfl⟩ := List.exists_cons_of_ne_nil hne
  cases h with
  | short hc =>
    obtain ⟨rfl, -⟩ := List.cons.inj hs
    exact ⟨.short hc, if_pos (UInt8.le_of_lt hc)⟩
  | @long c' octets content hc hlength =>
    obtain ⟨rfl, happend⟩ : c = c' ∧ s' ++ beyond = octets ++ content := by simpa using hs
    have hoctets : s'.take (c.toNat - 128) = octets := by
      have htake := congrArg (List.take (c.toNat - 128)) happend
      rw [← hlength, List.take_left' rfl, List.take_append_of_le_length (by simp at hm; omega)] at htake
      rw [← hlength, htake]
    have heq : lengthOctets c s' = octets.map UInt8.toNat := by rw [lengthOctets, hoctets]
    have hread := Radix.read_of_lt (show 0 < 256 by decide) (Nat.lt_trans hlen (show 2 ^ 31 < 2 ^ 32 by decide))
    rw [← heq] at hread
    refine ⟨.long hc (heq ▸ hread) hlen, ?_⟩
    have hwraps : ¬Wraps 256 (lengthOctets c s') := fun hnone => by cases hread.symm.trans hnone
    rw [counted, if_neg (UInt8.not_le.mpr hc), if_neg hwraps, heq, List.length_map]

-- The element at the front of a buffer.
theorem begins_spec (hn : n ≤ data.length) (h : Element (data.take n) tag off len) :
    ∃ rest m content, Identifier data tag rest ∧ Der.Length rest m len content ∧ off = 1 + tag.length + m ∧
      n = off + len := by
  have hlen := h.length_eq
  obtain ⟨rest, m, content, hi, hl, -, rfl⟩ := h
  have hi := hi.append (data.drop n)
  rw [List.take_append_drop] at hi
  rw [List.length_take, Nat.min_eq_left hn] at hlen
  exact ⟨_, m, _, hi, hl.append _, rfl, hlen⟩

theorem Found.identifier_data (f : Found data tag rest) :
    ∃ beyond, Identifier data tag (rest ++ beyond) ∧ data.drop (1 + tag.length) = rest ++ beyond := by
  obtain ⟨beyond, hdata, -⟩ := exists_beyond data
  have hi := f.identifier.append beyond
  rw [← hdata] at hi
  obtain ⟨c, hc⟩ := hi.eq
  refine ⟨beyond, hi, ?_⟩
  rw [hc, Nat.add_comm, List.drop_succ_cons, List.drop_left]

theorem Found.length_eq (f : Found data tag rest) : 1 + tag.length + rest.length = data.length % 2 ^ 32 := by
  obtain ⟨c, hc⟩ := f.identifier.eq
  rw [← length_window, hc]
  simp
  omega

theorem Found.unique (f : Found data tag rest) {rest' : Bytes} (f' : Found data tag' rest') : tag = tag' ∧ rest = rest' :=
  f.identifier.unique f'.identifier

-- An element whose header is in the window is found there.
theorem found_of_element (hn : n ≤ data.length) (h : Element (data.take n) tag off len)
    (hwraps : ¬Wraps 128 (septets tag)) (hoff : off ≤ data.length % 2 ^ 32) : ∃ rest, Found data tag rest := by
  obtain ⟨rest, m, content, hi, hl, rfl, -⟩ := begins_spec hn h
  have hm : 0 < m := by
    cases hl
    all_goals omega
  have hw : Identifier (window data) tag (rest.take (data.length % 2 ^ 32 - (1 + tag.length))) := hi.take (by omega)
  refine ⟨_, hw, ?_, hwraps⟩
  have hpos := hl.length_eq
  rw [← List.length_pos_iff, List.length_take]
  omega

-- What is found of an element is its header, if it is small enough.
theorem announces_of_element (f : Found data tag' rest) (hn : n ≤ data.length) (h : Element (data.take n) tag off len)
    (hoff : off ≤ data.length % 2 ^ 32) (hlt : n < 2 ^ 31) :
    tag = tag' ∧ Announces rest len ∧ off = 1 + tag'.length + counted rest ∧ n = off + len := by
  obtain ⟨rest', m, content, hi, hl, rfl, rfl⟩ := begins_spec hn h
  obtain ⟨beyond, hi', -⟩ := f.identifier_data
  obtain ⟨rfl, rfl⟩ := hi.unique hi'
  have hlen := f.length_eq
  obtain ⟨ha, rfl⟩ := announces_of_length hl (by omega) (by omega)
  exact ⟨rfl, ha, rfl, rfl⟩

theorem addGint_ofNat (a b : Nat) : addGint a b = if a + b < 2 ^ 31 then some ((a + b : Nat) : Int) else none := by
  unfold addGint
  split
  case isTrue h  => rw [if_pos (by omega), Nat.cast_add]
  case isFalse h => rw [if_neg (by omega)]

section Helpers

variable {cls : UInt8} {t : Nat} (f : Found data tag rest)
  (h : atlvParseClsTag data data.length = some (some (cls, t, toGint (1 + tag.length))))

include f h

-- The length behind the identifier is read.
theorem parsed_of_found (hlt : 1 + tag.length < 2 ^ 31) :
    ∃ len : Int, (0 ≤ len ∧ Announces rest len.toNat ∨ len < 0 ∧ ∀ v, ¬Announces rest v) ∧
      eggAsn1xElementLength data = (addGint (1 + tag.length : Nat) (counted rest)).bind (fun counter =>
        if 0 ≤ len then (addGint len counter).bind fun len => if len ≤ data.length then some len else some (-1)
        else some (-1)) ∧
      eggAsn1xElementContent data = if len < 0 then some none
        else (addGint (1 + tag.length : Nat) (counted rest)).bind fun counter => some (some (counter, len)) := by
  obtain ⟨beyond, -, hdrop⟩ := f.identifier_data
  have hlen := f.length_eq
  have hpos := List.length_pos_of_ne_nil f.more
  rw [toGint_of_lt hlt] at h
  have hadvance : advance data (1 + tag.length : Nat) = some (rest ++ beyond) := by
    rw [advance, if_pos (by omega), Int.toNat_natCast, hdrop]
  have hsize : (data.length - ((1 + tag.length : Nat) : Int).toNat) % 2 ^ 32 = rest.length := by
    rw [Int.toNat_natCast]
    omega
  obtain ⟨len, hparse, hwhat⟩ := parseLength_spec f.more hsize beyond
  refine ⟨len, hwhat.imp_right fun h => ⟨h.1, h.2.2⟩, ?_, ?_⟩
  case refine_1 =>
    rw [eggAsn1xElementLength, h]
    dsimp only
    rw [hadvance, Option.bind_eq_bind, Option.bind_some, hparse, Option.bind_eq_bind, Option.bind_some]
    rfl
  case refine_2 =>
    rw [eggAsn1xElementContent, h]
    dsimp only
    rw [hadvance, Option.bind_eq_bind, Option.bind_some, hparse, Option.bind_eq_bind, Option.bind_some]
    rfl

-- A header of 2^31 bytes is more than the helpers can count.
theorem elementLength_of_large (hlt : ¬1 + tag.length + counted rest < 2 ^ 31) : eggAsn1xElementLength data = none := by
  by_cases htag : 1 + tag.length < 2 ^ 31
  case pos =>
    obtain ⟨len, -, helement, -⟩ := parsed_of_found f h htag
    rw [helement, addGint_ofNat, if_neg hlt]
    rfl
  case neg =>
    have hlen := f.length_eq
    have hneg := toGint_neg htag (by omega)
    unfold eggAsn1xElementLength
    simp only [h, advance, if_neg (show ¬(0 ≤ toGint (1 + tag.length) ∧ toGint (1 + tag.length) ≤ data.length) by omega)]
    rfl

variable (hlt : 1 + tag.length + counted rest < 2 ^ 31)

include hlt

theorem helpers_of_not_announces (hnot : ∀ v, ¬Announces rest v) :
    eggAsn1xElementLength data = some (-1) ∧ eggAsn1xElementContent data = some none := by
  obtain ⟨len, ⟨-, ha⟩ | ⟨hneg, -⟩, helement, hcontent⟩ := parsed_of_found f h (by omega)
  · exact absurd ha (hnot _)
  · rw [helement, hcontent, addGint_ofNat, if_pos hlt, if_pos hneg]
    exact ⟨if_neg (by omega), rfl⟩

theorem helpers_of_announces (ha : Announces rest v) :
    eggAsn1xElementLength data = (addGint (v : Int) (1 + tag.length + counted rest : Nat)).bind (fun len =>
      if len ≤ data.length then some len else some (-1)) ∧
    eggAsn1xElementContent data = some (some (((1 + tag.length + counted rest : Nat) : Int), (v : Int))) := by
  obtain ⟨len, ⟨hle, ha'⟩ | ⟨-, hnot⟩, helement, hcontent⟩ := parsed_of_found f h (by omega)
  · obtain rfl : len = v := by rw [← ha'.unique ha, Int.toNat_of_nonneg hle]
    rw [helement, hcontent, addGint_ofNat, if_pos hlt, if_neg (Int.not_lt.mpr hle), Option.bind_some, Option.bind_some,
      if_pos hle]
    exact ⟨rfl, rfl⟩
  · exact absurd ha (hnot v)

end Helpers

theorem isSome_parseLengthOctets {k size ans punt : Nat} (h : size ≤ punt + mem.length) :
    (parseLengthOctets k size ans punt mem).isSome := by
  induction mem generalizing ans punt with
  | nil =>
    rw [parseLengthOctets, if_neg (by simp at h; omega)]
    rfl
  | cons c mem ih =>
    rw [parseLengthOctets]
    split
    case isFalse => rfl
    case isTrue =>
      split
      case h_1 => rfl
      case h_2 => exact ih (by simp at h; omega)

theorem isSome_atlvParseLength (hne : data ≠ []) : (atlvParseLength data data.length).isSome := by
  obtain ⟨c, s, rfl⟩ := List.exists_cons_of_ne_nil hne
  simp only [atlvParseLength, List.length_cons, Nat.add_one_ne_zero, ↓reduceIte]
  split
  case isTrue => rfl
  case isFalse =>
    split
    case isTrue => rfl
    case isFalse =>
      have hle := Nat.mod_le (s.length + 1) (2 ^ 32)
      have hsome := @isSome_parseLengthOctets s (c &&& 0x7F).toNat ((s.length + 1) % 2 ^ 32) 0 1 (by omega)
      generalize parseLengthOctets (c &&& 0x7F).toNat ((s.length + 1) % 2 ^ 32) 0 1 s = r at hsome
      obtain ⟨r, rfl⟩ := Option.isSome_iff_exists.mp hsome
      cases r
      all_goals rfl

-- There is one element at most at the front of a buffer whose header is found.
theorem Regular.element_unique (g : Regular data) (hn : n ≤ data.length) (h : Element (data.take n) tag off len)
    (hn' : n' ≤ data.length) (h' : Element (data.take n') tag' off' len') : n = n' := by
  obtain ⟨hwraps, hoff, hlt⟩ := g.elements _ _ _ _ hn h
  obtain ⟨rest, f⟩ := found_of_element hn h hwraps hoff
  obtain ⟨-, hoff', hlt'⟩ := g.elements _ _ _ _ hn' h'
  obtain ⟨-, ha, rfl, rfl⟩ := announces_of_element f hn h hoff hlt
  obtain ⟨-, ha', rfl, rfl⟩ := announces_of_element f hn' h' hoff' hlt'
  rw [ha.unique ha']

theorem Regular.not_begins (g : Regular data) (hnot : ∀ tag rest, ¬Found data tag rest) : ¬Begins data := by
  rintro ⟨n, tag, off, len, hn, h⟩
  obtain ⟨hwraps, hoff, -⟩ := g.elements _ _ _ _ hn h
  obtain ⟨rest, f⟩ := found_of_element hn h hwraps hoff
  exact hnot _ _ f

-- No element is there, and the helpers say so.
theorem agree_of_not_begins (hcls : (atlvParseClsTag data data.length).isSome) (hnot : ¬Begins data)
    (helement : eggAsn1xElementLength data = some (-1)) (hcontent : eggAsn1xElementContent data = some none) :
    Agree data where
  clsTag  := hcls
  length  := isSome_atlvParseLength
  element := ⟨-1, helement, fun n => iff_of_false (by omega)
    fun ⟨hn, tag, off, len, h⟩ => hnot ⟨n, tag, off, len, hn, h⟩⟩
  content := ⟨none, hcontent, by simp⟩

theorem Regular.agree (g : Regular data) : Agree data := by
  have hspec := clsTag_spec data
  generalize hcls : atlvParseClsTag data data.length = r at hspec
  cases hspec with
  | outside h => exact absurd h g.ends
  | nothing _ hnot =>
    refine agree_of_not_begins (by simp [hcls]) (g.not_begins hnot) ?_ ?_
    · rw [eggAsn1xElementLength, hcls]
    · rw [eggAsn1xElementContent, hcls]
  | @found tag rest cls t _ f =>
    have hlt := g.header _ _ f
    by_cases hann : ∃ v, Announces rest v
    case neg =>
      obtain ⟨helement, hcontent⟩ := helpers_of_not_announces f hcls hlt (not_exists.mp hann)
      refine agree_of_not_begins (by simp [hcls]) ?_ helement hcontent
      rintro ⟨n, tag', off, len, hn, h⟩
      obtain ⟨-, hoff, hn'⟩ := g.elements _ _ _ _ hn h
      exact hann ⟨len, (announces_of_element f hn h hoff hn').2.1⟩
    case pos =>
      obtain ⟨v, ha⟩ := hann
      obtain ⟨n, tag', off, len, hn, h⟩ := g.others _ _ _ f ha
      obtain ⟨-, hoff, hn'⟩ := g.elements _ _ _ _ hn h
      obtain ⟨rfl, ha', rfl, rfl⟩ := announces_of_element f hn h hoff hn'
      obtain rfl := ha.unique ha'
      obtain ⟨helement, hcontent⟩ := helpers_of_announces f hcls hlt ha
      rw [addGint_ofNat, if_pos (by omega), Option.bind_some, if_pos (by omega)] at helement
      refine ⟨by simp [hcls], isSome_atlvParseLength, ⟨_, helement, fun m => ⟨?_, ?_⟩⟩, _, hcontent, ?_⟩
      · rintro hm
        obtain rfl : v + (1 + tag'.length + counted rest) = m := by omega
        exact ⟨by omega, tag', _, _, (Nat.add_comm _ v) ▸ h⟩
      · rintro ⟨hm, tag'', off', len', h'⟩
        have heq := g.element_unique hm h' hn h
        omega
      · rintro _ _ ⟨⟩
        exact ⟨tag', _, _, rfl, rfl, hn, h⟩

theorem clsTag_of_found (f : Found data tag rest) :
    ∃ cls t, atlvParseClsTag data data.length = some (some (cls, t, toGint (1 + tag.length))) := by
  have hspec := clsTag_spec data
  generalize atlvParseClsTag data data.length = r at hspec
  cases hspec with
  | outside h       => exact absurd h (not_runsOut_of_identifier f.identifier)
  | nothing _ hnot  => exact absurd f (hnot _ _)
  | @found _ _ cls t _ f' =>
    obtain ⟨rfl, -⟩ := f.unique f'
    exact ⟨cls, t, rfl⟩

-- A length that is cut by the window is read as a smaller one.
theorem le_of_announces (h : Der.Length (rest ++ beyond) m len content) (ha : Announces rest v) (hlt : len < 2 ^ 31)
    (heq : m + len = v + counted rest) : m ≤ rest.length := by
  cases ha with
  | @short c s hc =>
    generalize hs : c :: s ++ beyond = t at h
    cases h with
    | short _ => simp
    | @long c' octets content hc' _ =>
      obtain ⟨rfl, -⟩ : c = c' ∧ _ := List.cons.inj hs
      exact absurd (UInt8.lt_trans hc hc') (UInt8.lt_irrefl _)
  | @long c s v hc hread _ =>
    generalize hs : c :: s ++ beyond = t at h
    cases h with
    | short _ => simp
    | @long c' octets content _ hlength =>
      obtain ⟨rfl, happend⟩ : c = c' ∧ s ++ beyond = octets ++ content := by simpa using hs
      by_contra hgt
      simp only [List.length_cons] at hgt
      obtain ⟨more, rfl⟩ : s <+: octets :=
        List.prefix_of_prefix_length_le ⟨beyond, happend⟩ ⟨content, rfl⟩ (by omega)
      have hoctets : lengthOctets c s = s.map UInt8.toNat := by
        rw [lengthOctets, List.take_of_length_le (by simp at hgt hlength; omega)]
      have hcounted : counted (c :: s) = 1 + s.length := by
        have hwraps : ¬Wraps 256 (lengthOctets c s) := fun hnone => by cases hread.symm.trans hnone
        rw [counted, if_neg (UInt8.not_le.mpr hc), if_neg hwraps, hoctets, List.length_map]
      rw [List.map_append] at hlt heq
      have hle := @Radix.le_value_append 256 (s.map UInt8.toNat) (more.map UInt8.toNat) (by decide)
      have hv := Radix.eq_of_read hread
      rw [hoctets, Nat.mod_eq_of_lt (by omega)] at hv
      rw [hcounted] at heq
      simp at hgt heq
      omega

theorem Agree.regular (a : Agree data) : Regular data := by
  obtain ⟨r, helement, hr⟩ := a.element
  obtain ⟨q, hcontent, hq⟩ := a.content
  have hheader : ∀ tag rest, Found data tag rest → 1 + tag.length + counted rest < 2 ^ 31 := by
    intro tag rest f
    obtain ⟨cls, t, hcls⟩ := clsTag_of_found f
    by_contra hlt
    cases helement.symm.trans (elementLength_of_large f hcls hlt)
  refine ⟨?_, ?_, hheader, ?_⟩
  case refine_1 =>
    have hsome := a.clsTag
    have hspec := clsTag_spec data
    generalize atlvParseClsTag data data.length = r at hsome hspec
    cases hspec with
    | outside _   => simp at hsome
    | nothing h _ => exact h
    | found h _   => exact h
  case refine_2 =>
    intro n tag off len hn h
    obtain rfl : r = n := (hr n).mpr ⟨hn, tag, off, len, h⟩
    obtain ⟨rest', m, content, hi, hl, rfl, rfl⟩ := begins_spec hn h
    have hspec := clsTag_spec data
    generalize hcls : atlvParseClsTag data data.length = r at hspec
    cases hspec with
    | outside _   => simpa [hcls] using a.clsTag
    | nothing _ _ =>
      rw [eggAsn1xElementLength, hcls] at helement
      simp at helement
      omega
    | @found tag' rest cls t _ f =>
      obtain ⟨beyond, hi', -⟩ := f.identifier_data
      obtain ⟨rfl, rfl⟩ := hi.unique hi'
      have hlen := f.length_eq
      by_cases hann : ∃ v, Announces rest v
      case neg =>
        rw [(helpers_of_not_announces f hcls (hheader _ _ f) (not_exists.mp hann)).1] at helement
        simp at helement
        omega
      case pos =>
        obtain ⟨v, ha⟩ := hann
        rw [(helpers_of_announces f hcls (hheader _ _ f) ha).1, addGint_ofNat] at helement
        by_cases hlt : v + (1 + tag.length + counted rest) < 2 ^ 31
        case neg =>
          rw [if_neg hlt] at helement
          cases helement
        case pos =>
          rw [if_pos hlt, Option.bind_some] at helement
          split at helement
          case isFalse => simp at helement; omega
          case isTrue =>
            have heq : v + (1 + tag.length + counted rest) = 1 + tag.length + m + len :=
              Int.ofNat.inj (Option.some.inj helement)
            have hle := le_of_announces hl ha (by omega) (by omega)
            exact ⟨f.fits, by omega, by omega⟩
  case refine_3 =>
    intro tag rest v f ha
    obtain ⟨cls, t, hcls⟩ := clsTag_of_found f
    rw [(helpers_of_announces f hcls (hheader _ _ f) ha).2] at hcontent
    obtain ⟨tag', off, len, -, -, hle, h⟩ := hq _ _ (Option.some.inj hcontent).symm
    exact ⟨_, tag', off, len, hle, h⟩

-- The helpers read inside of a buffer and agree with what is there if and only if it is regular.
theorem agree_iff_regular (data : Bytes) : Agree data ↔ Regular data :=
  ⟨Agree.regular, Regular.agree⟩

-- A content of 127 bytes in a buffer of three bytes.
theorem not_agree : ¬∀ data, Agree data := by
  intro h
  obtain ⟨r, hr, hq⟩ := (h [0x04, 0x7F, 0x00]).content
  cases hr
  obtain ⟨tag, off, len, hoff, hlen, hle, -⟩ := hq 2 127 rfl
  simp at hle
  omega

end Asn1x
