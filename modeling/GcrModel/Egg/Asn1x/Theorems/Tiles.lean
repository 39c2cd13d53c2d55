import GcrModel.Egg.Asn1x.Theorems.Reparse

-- The encoding that an element was parsed of is made of the encodings of its parts.
namespace Asn1x

open GLib
open Der (Identifier)

variable {data : GBytes} {mem rest front back : Bytes} {c : UInt8} {hd : Header} {nData n k ris punt size at' stop fuel : Nat}

-- The number of a tag, of which the code keeps 32 bits.
def TagNumber (c : UInt8) (tag : Bytes) (n : Nat) : Prop :=
  n = if c &&& 0x1F = 0x1F then Radix.value 128 (septets tag) % 2 ^ 32 else (c &&& 0x1F).toNat

-- The octets of a length say what it is. Where octets are missing nothing is behind them.
structure LengthIs (length : Bytes) (len : Int) : Prop where
  counted   : counted length = length.length
  announces : 0 ≤ len → Announces length len.toNat
  without   : len < 0 → Indefinite length
  complete  : ∀ c s, length = c :: s → s.length < c.toNat - 128 → len ≤ 0

-- The octets of an identifier and of a length say what is in the header.
structure Spells (octets : Bytes) (h : Header) : Prop where
  parts : ∃ c tag length, octets = c :: (tag ++ length) ∧ Identifier octets tag length ∧ h.cls = c &&& 0xE0 ∧
    TagNumber c tag h.tag ∧ LengthIs length h.len
  off   : h.off = octets.length

-- There is no length that is indefinite.
inductive AllDefinite : Atlv → Prop
  | mk {tlv : Atlv} : 0 ≤ tlv.len → (∀ ctlv ∈ tlv.child, AllDefinite ctlv) → AllDefinite tlv

-- The octets that end an element of an indefinite length are read as this one.
def Atlv.Ends (tlv : Atlv) : Prop :=
  tlv.cls = 0 ∧ tlv.tag = 0 ∧ tlv.len = 0

-- Elements one after the other, with `behind` behind them up to the end of the data. An element is a header and a content,
-- which is a value or other elements. Only where one of these has an indefinite length they can go past the end that their
-- element announced. An indefinite length goes to the first octets that end it, or to the end of the data.
inductive Tiles : List Atlv → Bytes → Bytes → Prop
  | nil {behind : Bytes} : Tiles [] [] behind
  | cons {tlv : Atlv} {tlvs : List Atlv} {bytes rest behind : Bytes} : Tiles [tlv] bytes (rest ++ behind) →
    Tiles tlvs rest behind → Tiles (tlv :: tlvs) (bytes ++ rest) behind
  | primitive {h : Header} {octets behind : Bytes} {value : GBytes} : Spells octets h → h.cls &&& classStructured = 0 →
    h.len = value.data.length →
    Tiles [{ cls := h.cls, tag := h.tag, off := h.off, len := h.len, value := some value }] (octets ++ value.data) behind
  | definite {h : Header} {octets content behind : Bytes} {children : List Atlv} : Spells octets h →
    h.cls &&& classStructured ≠ 0 → Tiles children content behind → 0 ≤ h.len → h.len ≤ content.length →
    ((∀ ctlv ∈ children, AllDefinite ctlv) → h.len = content.length) →
    Tiles [{ cls := h.cls, tag := h.tag, off := h.off, len := h.len, child := children }] (octets ++ content) behind
  | indefinite {h : Header} {octets content close behind : Bytes} {children : List Atlv} : Spells octets h →
    h.cls &&& classStructured ≠ 0 → Tiles children content (close ++ behind) → h.len = -1 →
    (∀ ctlv ∈ children, ¬ctlv.Ends) → close = [] ∧ behind = [] ∨ Spells close ⟨0, 0, close.length, 0⟩ →
    Tiles [{ cls := h.cls, tag := h.tag, off := h.off, len := h.len, child := children }] (octets ++ (content ++ close))
      behind

section Headers

-- The octets of a tag that was read end inside of the bytes.
theorem parseTagOctets_split (h : parseTagOctets size ris punt mem = some (some (n, k))) (hk : k < size) :
    ∃ more last rest, mem = more ++ last :: rest ∧ (∀ d ∈ more, 128 ≤ d) ∧ last < 128 ∧ k = punt + more.length + 1 ∧
      Radix.read (2 ^ 32) 128 ris (septets (more ++ [last])) = some n := by
  induction mem generalizing ris punt with
  | nil =>
    rw [parseTagOctets] at h
    split at h
    case isTrue        => cases h
    case isFalse hlt =>
      cases h
      omega
  | cons val mem ih =>
    rw [parseTagOctets] at h
    split at h
    case isTrue =>
      cases h
      omega
    case isFalse =>
      split at h
      case isTrue  => cases h
      case isFalse =>
        split at h
        case h_1 => cases h
        case h_2 ris' haccumulate =>
          rw [accumulate_eq] at haccumulate
          split at h
          case isTrue hlast =>
            cases h
            refine ⟨[], val, mem, rfl, by simp, Octet.and_127_eq_iff.mp hlast, rfl, ?_⟩
            rw [List.nil_append, septets_cons, Radix.read_cons, haccumulate]
            rfl
          case isFalse hmore =>
            obtain ⟨more, last, rest, rfl, hall, hlast, hk, hread⟩ := ih h
            have hge : 128 ≤ val := UInt8.not_lt.mp fun hlt => hmore (Octet.and_127_eq_iff.mpr hlt)
            refine ⟨val :: more, last, rest, rfl, List.forall_mem_cons.mpr ⟨hge, hall⟩, hlast, ?_, ?_⟩
            · rw [List.length_cons]
              omega
            · rw [List.cons_append, septets_cons, Radix.read_cons, haccumulate]
              exact hread

-- An identifier that was read, and what is behind it.
theorem parseClsTag_split {cls : UInt8} {off : Int} (h : atlvParseClsTag mem nData = some (some (cls, n, off)))
    (hfits : nData < 2 ^ 31) :
    ∃ c tag rest, mem = c :: (tag ++ rest) ∧ Identifier mem tag rest ∧ cls = c &&& 0xE0 ∧ TagNumber c tag n ∧
      off = 1 + tag.length ∧ 1 + tag.length < nData := by
  unfold atlvParseClsTag at h
  rw [Nat.mod_eq_of_lt (by omega)] at h
  dsimp only at h
  split at h
  case isTrue => cases h
  case isFalse hsize =>
    cases mem with
    | nil => cases h
    | cons c mem =>
      dsimp only at h
      split at h
      case isTrue hshort =>
        cases h
        exact ⟨c, [], mem, rfl, .short hshort, rfl, (if_neg hshort).symm, rfl, by simp; omega⟩
      case isFalse hlong =>
        split at h
        case h_1 => cases h
        case h_2 => cases h
        case h_3 ris punt hoctets =>
          split at h
          case isTrue => cases h
          case isFalse hpunt =>
            cases h
            obtain ⟨more, last, rest, rfl, hall, hlast, rfl, hread⟩ := parseTagOctets_split hoctets (by omega)
            have hlong := not_not.mp hlong
            have hlength : (more ++ [last]).length = more.length + 1 := by simp
            refine ⟨c, more ++ [last], rest, by simp, .long hlong hall hlast, rfl, ?_, ?_, by omega⟩
            · rw [TagNumber, if_pos hlong]
              exact Radix.eq_of_read hread
            · rw [toGint_of_lt (by omega), hlength]
              omega

theorem lengthOctets_take : lengthOctets c (rest.take (lengthOctets c rest).length) = lengthOctets c rest := by
  simp [lengthOctets, List.take_take]

theorem counted_long (hgt : 128 < c) (hwraps : ¬Wraps 256 (lengthOctets c rest)) :
    counted (c :: rest) = (lengthOctets c rest).length + 1 := by
  rw [counted, if_neg (UInt8.not_le.mpr hgt), if_neg hwraps, Nat.add_comm]

theorem counted_le_length (rest : Bytes) : counted rest ≤ rest.length := by
  cases rest with
  | nil      => rfl
  | cons c s =>
    rw [counted]
    split
    case isTrue  => simp
    case isFalse =>
      split
      case isTrue  => simp
      case isFalse =>
        simp [lengthOctets]
        omega

-- No more octets are needed than those that are counted.
theorem Announces.take (h : Announces rest n) : Announces (rest.take (counted rest)) n := by
  cases h with
  | @short c s hlt =>
    have hcounted : counted (c :: s) = 1 := by simp [counted, UInt8.le_of_lt hlt]
    rw [hcounted]
    exact .short hlt
  | @long c s v hgt hread hfits =>
    have hwraps : ¬Wraps 256 (lengthOctets c s) := fun hnone => by cases hread.symm.trans hnone
    rw [counted_long hgt hwraps, List.take_succ_cons]
    rw [← lengthOctets_take] at hread
    exact .long hgt hread hfits

theorem Indefinite.take (h : Indefinite rest) : Indefinite (rest.take (counted rest)) := by
  cases h with
  | octet => exact .octet
  | @long c s hgt hread =>
    have hwraps : ¬Wraps 256 (lengthOctets c s) := fun hnone => by cases hread.symm.trans hnone
    rw [counted_long hgt hwraps, List.take_succ_cons]
    rw [← lengthOctets_take] at hread
    exact .long hgt hread

theorem counted_take (rest : Bytes) : counted (rest.take (counted rest)) = (rest.take (counted rest)).length := by
  cases rest with
  | nil      => rfl
  | cons c s =>
    by_cases hle : c ≤ 128
    case pos => simp [counted, hle]
    case neg =>
      have hgt : 128 < c := UInt8.not_le.mp hle
      by_cases hwraps : Wraps 256 (lengthOctets c s)
      case pos =>
        have hcounted : counted (c :: s) = 0 := by rw [counted, if_neg hle, if_pos hwraps]
        rw [hcounted]
        rfl
      case neg =>
        rw [counted_long hgt hwraps, List.take_succ_cons, counted_long hgt (by rwa [lengthOctets_take]), lengthOctets_take,
          List.length_cons, List.length_take]
        simp [lengthOctets]

-- Octets are only missing at the end.
theorem counted_of_cut {s : Bytes} (hcut : rest.take (counted rest) = c :: s) (hmissing : s.length < c.toNat - 128) :
    counted rest = rest.length := by
  cases rest with
  | nil        => rfl
  | cons d rest =>
    have hle := counted_le_length (d :: rest)
    obtain ⟨k, hk⟩ : ∃ k, counted (d :: rest) = k + 1 :=
      Nat.exists_eq_succ_of_ne_zero fun hzero => by simp [hzero] at hcut
    rw [hk, List.take_succ_cons] at hcut
    obtain ⟨rfl, rfl⟩ := List.cons.inj hcut
    have hgt : 128 < d := UInt8.lt_iff_toNat_lt.mpr (show 128 < d.toNat by omega)
    have hwraps : ¬Wraps 256 (lengthOctets d rest) := fun hwraps => by
      rw [counted, if_neg (UInt8.not_le.mpr hgt), if_pos hwraps] at hk
      cases hk
    rw [counted_long hgt hwraps] at hk hle ⊢
    rw [List.length_cons] at hle ⊢
    rw [List.length_take] at hmissing
    have hmin : (lengthOctets d rest).length = min (d.toNat - 128) rest.length := by simp [lengthOctets]
    omega

-- The octets that are counted say what was read of the window. Without enough of them it ends with the octets.
theorem lengthIs_take {window : Bytes} {len : Int}
    (h : 0 ≤ len ∧ Announces window len.toNat ∨ len < 0 ∧ (len = -1 → Indefinite window) ∧ ∀ v, ¬Announces window v)
    (hlow : -1 ≤ len) (hends : counted window = window.length → len ≤ 0) :
    LengthIs (window.take (counted window)) len := by
  refine ⟨counted_take window, fun hpos => ?_, fun hneg => ?_,
    fun c s hcut hmissing => hends (counted_of_cut hcut hmissing)⟩
  · obtain ⟨-, hannounces⟩ | ⟨hneg, -⟩ := h
    · exact hannounces.take
    · exact absurd hpos (Int.not_le.mpr hneg)
  · obtain ⟨hpos, -⟩ | ⟨-, hindefinite, -⟩ := h
    · exact absurd hpos (Int.not_le.mpr hneg)
    · exact (hindefinite (by omega)).take

-- A header that was read is at the front of the bytes, and the content that it announces fits behind it.
theorem parseClsTagLen_spells (h : atlvParseClsTagLen mem nData = some (some hd)) (hfits : nData < 2 ^ 31)
    (hmem : nData ≤ mem.length) : ∃ octets, octets <+: mem ∧ Spells octets hd ∧ octets.length ≤ nData ∧ octets ≠ [] ∧
      -1 ≤ hd.len ∧ (0 ≤ hd.len → octets.length + hd.len ≤ nData) := by
  unfold atlvParseClsTagLen at h
  split at h
  case h_1 => cases h
  case h_2 => cases h
  case h_3 cls n off htag =>
    obtain ⟨c, tag, rest, rfl, hid, rfl, hnumber, rfl, hlt⟩ := parseClsTag_split htag hfits
    simp only [List.length_cons, List.length_append] at hmem
    have hadvance := advance_left (c :: tag) rest
    have hcast : ((c :: tag).length : Int) = 1 + tag.length := by
      rw [List.length_cons]
      omega
    rw [hcast, List.cons_append] at hadvance
    have hoff : (1 + (tag.length : Int)).toNat = 1 + tag.length := by omega
    rw [hadvance, Option.bind_eq_bind, Option.bind_some, hoff] at h
    -- The window ends where the data does.
    obtain ⟨window, beyond, rfl, hwindow⟩ : ∃ window beyond, rest = window ++ beyond ∧
        window.length = nData - (1 + tag.length) := by
      refine ⟨_, _, (List.take_append_drop (nData - (1 + tag.length)) rest).symm, ?_⟩
      rw [List.length_take]
      omega
    have hne : window ≠ [] := List.ne_nil_of_length_pos (by omega)
    have hmod : (nData - (1 + tag.length)) % 2 ^ 32 = window.length := by
      rw [hwindow, Nat.mod_eq_of_lt (by omega)]
    obtain ⟨len, hlength, hlen⟩ := parseLength_spec hne hmod beyond
    rw [hlength, Option.bind_eq_bind, Option.bind_some] at h
    dsimp only at h
    split at h
    case isTrue => cases h
    case isFalse hlow =>
      obtain ⟨off, hadd, h⟩ := Option.bind_eq_some_iff.mp h
      split at h
      case isTrue => cases h
      case isFalse hhigh =>
        cases h
        have hcounted := counted_le_length window
        have hoff : off = 1 + (tag.length : Int) + counted window := by
          rw [addGint] at hadd
          split at hadd
          case isTrue  => exact (Option.some.inj hadd).symm
          case isFalse => cases hadd
        have hlengths : (c :: (tag ++ window.take (counted window))).length = 1 + tag.length + counted window := by
          simp only [List.length_cons, List.length_append, List.length_take, Nat.min_eq_left hcounted]
          omega
        have hsplit : window.take (counted window) ++ (window.drop (counted window) ++ beyond) = window ++ beyond := by
          rw [← List.append_assoc, List.take_append_drop]
        have hlengthIs : LengthIs (window.take (counted window)) len := lengthIs_take hlen (by omega) fun hends => by omega
        obtain ⟨c', heq, hid⟩ := hid.behind (window.take (counted window))
        obtain rfl := (List.cons.inj heq).1
        refine ⟨c :: (tag ++ window.take (counted window)), ⟨window.drop (counted window) ++ beyond, ?_⟩,
          ⟨⟨c, tag, _, rfl, hid, rfl, hnumber, hlengthIs⟩, ?_⟩, ?_, List.cons_ne_nil _ _,
          Int.not_lt.mp hlow, ?_⟩
        · rw [List.cons_append, List.append_assoc, hsplit]
        · dsimp only
          rw [hlengths, hoff]
          omega
        · rw [hlengths]
          omega
        · dsimp only
          rw [hlengths]
          omega

end Headers

section Parse

theorem EncodedAt.append (h : EncodedAt data at' front) (h' : EncodedAt data (at' + front.length) back) :
    EncodedAt data at' (front ++ back) := by
  obtain ⟨rest, hrest⟩ := h.found
  obtain ⟨hfound, hfits⟩ := h'
  rw [← List.drop_drop, ← hrest, List.drop_left] at hfound
  refine ⟨?_, ?_⟩
  · rw [← hrest]
    exact (List.prefix_append_right_inj front).mpr hfound
  · rw [List.length_append]
    omega

-- The rest of the data from an offset on is the part that is there and what is behind it.
theorem EncodedAt.drop_data (h : EncodedAt data at' front) :
    data.data.drop at' = front ++ data.data.drop (at' + front.length) := by
  have hat : at' ≤ data.data.length := Nat.le_trans (Nat.le_add_right _ _) h.fits
  have hlength : front.length ≤ (data.data.drop at').length := by
    have hfits := h.fits
    rw [List.length_drop]
    omega
  have hfound := h.found
  rw [GBytes.memory, List.drop_append_of_le_length hat] at hfound
  rw [← List.drop_drop]
  exact (List.prefix_iff_eq_append.mp (List.prefix_of_prefix_length_le hfound (List.prefix_append _ _) hlength)).symm

theorem encodedAt_nil (h : at' ≤ data.data.length) : EncodedAt data at' [] :=
  ⟨List.nil_prefix, h⟩

-- The bytes of the data from an offset on.
theorem encodedAt_slice (h : at' + n ≤ data.data.length) :
    EncodedAt data at' (data.slice at' n).data ∧ (data.slice at' n).data.length = n := by
  have hlength : (data.slice at' n).data.length = n := by
    rw [GBytes.slice, List.length_take, List.length_drop, GBytes.memory, List.length_append, Int.toNat_natCast]
    omega
  exact ⟨⟨List.take_prefix _ _, by rw [hlength]; exact h⟩, hlength⟩

theorem parseHeader_spells (h : parseHeader data at' stop = some (some hd)) (hfits : data.data.length < 2 ^ 31)
    (hstop : stop ≤ data.data.length) : ∃ octets, EncodedAt data at' octets ∧ Spells octets hd ∧
      at' + octets.length ≤ stop ∧ -1 ≤ hd.len ∧ (0 ≤ hd.len → at' + octets.length + hd.len ≤ stop) := by
  have hmemory : data.data.length ≤ data.memory.length := by simp [GBytes.memory]
  obtain ⟨octets, hfront, hspells, hle, hne, hlow, hcontent⟩ := parseClsTagLen_spells h (by omega)
    (by rw [List.length_drop]; omega)
  have hpos := List.length_pos_of_ne_nil hne
  refine ⟨octets, ⟨hfront, by omega⟩, hspells, by omega, hlow, fun hlen => ?_⟩
  have hcontent := hcontent hlen
  omega

-- What the functions give for a header at an offset that was read in the bytes up to `stop`.
def TagTiles (data : GBytes) (fuel : Nat) : Prop :=
  ∀ hd at' stop tlv fin, parseHeader data at' stop = some (some hd) → stop ≤ data.data.length →
    atlvParseDerTag data fuel hd at' = some (.ok (tlv, fin)) →
    ∃ bytes, Tiles [tlv] bytes (data.data.drop fin) ∧ EncodedAt data at' bytes ∧ fin = at' + bytes.length ∧
      (tlv.Ends → hd.cls = 0 ∧ hd.tag = 0 ∧ hd.len = 0) ∧ (AllDefinite tlv → fin ≤ stop)

def ChildrenTile (data : GBytes) (fuel : Nat) : Prop :=
  ∀ hd at' stop children fin, at' ≤ data.data.length → stop ≤ data.data.length →
    parseDerChildren data fuel hd stop at' = some (.ok (children, fin)) →
    ∃ content close, Tiles children content (close ++ data.data.drop fin) ∧ EncodedAt data at' (content ++ close) ∧
      fin = at' + (content ++ close).length ∧ (hd.len < 0 → ∀ ctlv ∈ children, ¬ctlv.Ends) ∧
      (close = [] ∧ stop ≤ fin ∨ hd.len < 0 ∧ Spells close ⟨0, 0, close.length, 0⟩) ∧
      ((∀ ctlv ∈ children, AllDefinite ctlv) → 0 ≤ hd.len → at' ≤ stop → fin ≤ stop)

theorem childrenTile_succ (hfits : data.data.length < 2 ^ 31) (htag : TagTiles data fuel)
    (hchildren : ChildrenTile data fuel) : ChildrenTile data (fuel + 1) := by
  intro hd at' stop children fin hat hstop h
  rw [parseDerChildren] at h
  split at h
  case isTrue hend =>
    cases h
    exact ⟨[], [], .nil, encodedAt_nil hat, rfl, by simp, .inl ⟨rfl, hend⟩, fun _ _ hle => hle⟩
  case isFalse hlt =>
    split at h
    case h_1 => cases h
    case h_2 => cases h
    case h_3 hd' hheader =>
      obtain ⟨octets, hoctets, hspells, hle, -, -⟩ := parseHeader_spells hheader hfits hstop
      split at h
      case isTrue hclose =>
        cases h
        obtain ⟨hneg, hcls, htag, hlen⟩ := hclose
        have hhd : hd' = ⟨0, 0, octets.length, 0⟩ := by
          rw [← hcls, ← htag, ← hlen, ← hspells.off]
        have hoff : hd'.off.toNat = octets.length := by rw [hspells.off, Int.toNat_natCast]
        refine ⟨[], octets, .nil, hoctets, ?_, by simp, .inr ⟨hneg, hhd ▸ hspells⟩, fun _ hpos => ?_⟩
        · rw [hoff]
          rfl
        · exact absurd hpos (Int.not_le.mpr hneg)
      case isFalse hgoes =>
        split at h
        case h_1 => cases h
        case h_2 => cases h
        case h_3 child mid hchild =>
          obtain ⟨bytes, htiles, hencoded, rfl, hends, hdefinite⟩ := htag hd' at' stop child mid hheader hstop hchild
          obtain ⟨r, hrest, h⟩ := Option.map_eq_some_iff.mp h
          cases r with
          | error msg => cases h
          | ok p =>
            obtain ⟨others, fin'⟩ := p
            cases h
            obtain ⟨content, close, hall, hencoded', rfl, hfirst, hclose, hdefinite'⟩ :=
              hchildren hd _ stop others _ hencoded.fits hstop hrest
            rw [hencoded'.drop_data, List.append_assoc] at htiles
            refine ⟨bytes ++ content, close, .cons htiles hall, ?_, ?_, fun hneg => ?_, hclose,
              fun hchildren hpos _ => ?_⟩
            · rw [List.append_assoc]
              exact hencoded.append hencoded'
            · rw [List.append_assoc, @List.length_append _ bytes, Nat.add_assoc]
            · exact List.forall_mem_cons.mpr ⟨fun h => hgoes ⟨hneg, hends h⟩, hfirst hneg⟩
            · obtain ⟨hfirst, hothers⟩ := List.forall_mem_cons.mp hchildren
              exact hdefinite' hothers hpos (hdefinite hfirst)

theorem tagTiles_succ (hfits : data.data.length < 2 ^ 31) (hchildren : ChildrenTile data fuel) : TagTiles data (fuel + 1) := by
  intro hd at' stop tlv fin hheader hstop h
  obtain ⟨octets, hoctets, hspells, hle, hlow, hcontent⟩ := parseHeader_spells hheader hfits hstop
  have hcontentAt : ((at' : Int) + hd.off).toNat = at' + octets.length := by
    rw [hspells.off]
    omega
  rw [atlvParseDerTag] at h
  dsimp only at h
  rw [hcontentAt] at h
  split at h
  case isTrue => cases h
  case isFalse =>
    split at h
    case isTrue => cases h
    case isFalse hsize =>
      rw [hspells.off] at hsize
      split at h
      case isTrue => cases h
      case isFalse hindefinite =>
        split at h
        case isTrue hstructured =>
          obtain ⟨r, hparsed, h⟩ := Option.map_eq_some_iff.mp h
          cases r with
          | error msg => cases h
          | ok p =>
            obtain ⟨children, fin'⟩ := p
            cases h
            obtain hneg | hpos := Int.lt_or_le hd.len 0
            case inl =>
              rw [if_neg (Int.not_le.mpr hneg)] at hparsed
              obtain ⟨content, close, hall, hencoded, rfl, hfirst, hclose, -⟩ :=
                hchildren hd _ _ children _ hoctets.fits (Nat.le_refl _) hparsed
              refine ⟨octets ++ (content ++ close), .indefinite hspells hstructured hall ?_ (hfirst hneg) ?_,
                hoctets.append hencoded, ?_, id, fun hdefinite => ?_⟩
              · exact Int.le_antisymm (Int.le_sub_one_of_lt hneg) hlow
              · exact hclose.imp (And.imp_right List.drop_eq_nil_of_le) And.right
              · rw [@List.length_append _ octets, Nat.add_assoc]
              · cases hdefinite with
                | mk hlen _ => exact absurd hlen (Int.not_le.mpr hneg)
            case inr =>
              rw [if_pos hpos] at hparsed
              have hcontent := hcontent hpos
              obtain ⟨content, close, hall, hencoded, rfl, -, hclose, hdefinite⟩ :=
                hchildren hd _ _ children _ hoctets.fits (by omega) hparsed
              obtain ⟨rfl, hreached⟩ := hclose.resolve_right fun h => absurd hpos (Int.not_le.mpr h.1)
              rw [List.append_nil] at hencoded hreached hdefinite hall ⊢
              have hexact : (∀ ctlv ∈ children, AllDefinite ctlv) → hd.len = content.length := fun hc => by
                have hle' := hdefinite hc hpos (by omega)
                omega
              refine ⟨octets ++ content, .definite hspells hstructured hall hpos ?_ hexact,
                hoctets.append hencoded, ?_, id, fun hall => ?_⟩
              · omega
              · rw [List.length_append, Nat.add_assoc]
              · cases hall with
                | mk _ hc =>
                  have hlen := hexact hc
                  omega
        case isFalse hprimitive =>
          cases h
          have hpos : 0 ≤ hd.len := Int.not_lt.mp fun hneg => hindefinite ⟨hneg, not_not.mp hprimitive⟩
          have hcontent := hcontent hpos
          have hnat : hd.len = (hd.len.toNat : Int) := (Int.toNat_of_nonneg hpos).symm
          obtain ⟨hencoded, hlength⟩ := encodedAt_slice
            (show (at' + octets.length) + hd.len.toNat ≤ data.data.length by omega)
          rw [← hnat] at hencoded hlength
          refine ⟨octets ++ (data.slice (at' + octets.length) hd.len).data,
            .primitive hspells (not_not.mp hprimitive) ?_, hoctets.append hencoded, ?_, id, fun _ => ?_⟩
          · rw [hlength]
            exact hnat
          · rw [List.length_append, hlength, Nat.add_assoc]
          · omega

theorem tiles_of_fuel (hfits : data.data.length < 2 ^ 31) (fuel : Nat) : TagTiles data fuel ∧ ChildrenTile data fuel := by
  induction fuel with
  | zero =>
    refine ⟨fun hd at' stop tlv fin _ _ h => ?_, fun hd at' stop children fin _ _ h => ?_⟩
    · rw [atlvParseDerTag] at h
      cases h
    · rw [parseDerChildren] at h
      cases h
  | succ fuel ih => exact ⟨tagTiles_succ hfits ih.2, childrenTile_succ hfits ih.1 ih.2⟩

end Parse

-- What is accepted is the element that was parsed, written with some headers, and nothing else.
theorem parseDer_tiles (data : GBytes) (tlv : Atlv) (hfits : data.data.length < 2 ^ 31)
    (h : atlvParseDer data = some (.ok tlv)) : Tiles [tlv] data.data [] := by
  rw [atlvParseDer] at h
  split at h
  case h_1 => cases h
  case h_2 => cases h
  case h_3 hd hheader =>
    split at h
    case h_1 => cases h
    case h_2 => cases h
    case h_3 tlv' fin hparsed =>
      split at h
      case isTrue  => cases h
      case isFalse hend =>
        cases h
        obtain ⟨bytes, htiles, hencoded, hfin, -, -⟩ :=
          (tiles_of_fuel hfits _).1 hd 0 _ tlv fin hheader (Nat.le_refl _) hparsed
        have hlength : bytes.length = data.data.length := by omega
        have hfront : bytes <+: data.data := by
          refine List.prefix_of_prefix_length_le hencoded.found ?_ (Nat.le_of_eq hlength)
          rw [List.drop_zero]
          exact List.prefix_append _ _
        rwa [hfront.eq_of_length hlength, List.drop_eq_nil_of_le (by omega)] at htiles

-- A SEQUENCE of an indefinite length with one INTEGER.
def exampleIndefinite : GBytes :=
  ⟨[0x30, 0x80, 0x02, 0x01, 0x05, 0x00, 0x00], []⟩

def exampleIndefiniteTlv : Atlv where
  cls   := 0x20
  tag   := 16
  off   := 2
  len   := -1
  child := [{ cls := 0, tag := 2, off := 2, len := 1, value := some ⟨[5], [0, 0]⟩ }]

theorem parseDer_tiles_exampleIndefinite : Tiles [exampleIndefiniteTlv] exampleIndefinite.data [] :=
  parseDer_tiles exampleIndefinite exampleIndefiniteTlv (by decide) rfl

end Asn1x
