import GcrModel.Egg.Asn1x.Tlv
import GcrModel.Egg.Asn1x.Der

namespace Asn1x

open GLib
open Der (Identifier Element)

variable {data mem more octets rest s tag : Bytes} {last : UInt8} {size ris punt ans k n nData : Nat}

-- The digits of a tag in the long form.
def septets (s : Bytes) : List Nat :=
  s.map fun c => (c &&& 0x7F).toNat

-- The bytes that the functions know of, which count them in 32 bits.
def window (data : Bytes) : Bytes :=
  data.take (data.length % 2 ^ 32)

-- In 32 bits the number gets smaller at a digit.
def Wraps (base : Nat) (digits : List Nat) : Prop :=
  Radix.read (2 ^ 32) base 0 digits = none

-- There is an identifier and something behind it.
structure Found (data tag rest : Bytes) : Prop where
  identifier : Identifier (window data) tag rest
  more       : rest ≠ []
  fits       : ¬Wraps 128 (septets tag)

-- The octets of a tag do not end before the buffer does.
structure RunsOut (data : Bytes) : Prop where
  octets : ∃ c s, window data = c :: s ∧ s ≠ [] ∧ c &&& 0x1F = 0x1F ∧ (∀ d ∈ s, 128 ≤ d) ∧ ¬Wraps 128 (septets s)
  size   : data.length < 2 ^ 32 ∨ data.length % 2 ^ 32 = 2 ^ 32 - 1

instance {base : Nat} {digits : List Nat} : Decidable (Wraps base digits) :=
  inferInstanceAs (Decidable (_ = none))

-- The octets of a length in the long form, as many as there are.
def lengthOctets (c : UInt8) (s : Bytes) : List Nat :=
  (s.take (c.toNat - 128)).map UInt8.toNat

-- In 32 bits the octets that there are of a length give one that fits a `gint`.
inductive Announces : Bytes → Nat → Prop
  | short {c : UInt8} {s : Bytes} : c < 128 → Announces (c :: s) c.toNat
  | long {c : UInt8} {s : Bytes} {v : Nat} : 128 < c → Radix.read (2 ^ 32) 256 0 (lengthOctets c s) = some v →
    v < 2 ^ 31 → Announces (c :: s) v

-- The octet of an indefinite length, or octets that give the `gint` -1.
inductive Indefinite : Bytes → Prop
  | octet {s : Bytes} : Indefinite (128 :: s)
  | long {c : UInt8} {s : Bytes} : 128 < c → Radix.read (2 ^ 32) 256 0 (lengthOctets c s) = some (2 ^ 32 - 1) →
    Indefinite (c :: s)

-- How many octets of a length are counted.
def counted : Bytes → Nat
  | []     => 0
  | c :: s =>
    if c ≤ 128 then 1 else if Wraps 256 (lengthOctets c s) then 0 else 1 + (lengthOctets c s).length

theorem accumulate_eq : accumulate = Radix.shift (2 ^ 32) :=
  rfl

theorem and_ne_of_le {d : UInt8} (h : 128 ≤ d) : d &&& 0x7F ≠ d :=
  fun heq => UInt8.not_lt.mpr h (Octet.and_127_eq_iff.mp heq)

theorem septets_cons (c : UInt8) (s : Bytes) : septets (c :: s) = (c &&& 0x7F).toNat :: septets s :=
  rfl

theorem septets_append (s t : Bytes) : septets (s ++ t) = septets s ++ septets t :=
  List.map_append

theorem parseTagOctets_stop (hmore : ∀ d ∈ more, 128 ≤ d) (hlast : last < 128) (hsize : punt + more.length ≤ size)
    (hwrap : punt + more.length + 1 < 2 ^ 32) :
    parseTagOctets size ris punt (more ++ last :: mem) =
      some ((Radix.read (2 ^ 32) 128 ris (septets (more ++ [last]))).map (·, punt + (more ++ [last]).length)) := by
  induction more generalizing ris punt with
  | nil =>
    have hp : ¬size < punt := by simpa using hsize
    have hw : punt + 1 ≠ 2 ^ 32 := by simp at hwrap; omega
    simp only [List.nil_append, parseTagOctets, if_neg hp, if_neg hw, accumulate_eq, septets_cons, Radix.read_cons]
    cases Radix.shift (2 ^ 32) 128 ris (last &&& 0x7F).toNat
    case none   => rfl
    case some r => simp [Octet.and_127_eq_iff.mpr hlast, septets]
  | cons c more ih =>
    obtain ⟨hc, hmore⟩ := List.forall_mem_cons.mp hmore
    simp only [List.length_cons] at hsize hwrap
    have hp : ¬size < punt := by omega
    have hw : punt + 1 ≠ 2 ^ 32 := by omega
    simp only [List.cons_append, parseTagOctets, if_neg hp, if_neg hw, accumulate_eq, septets_cons, Radix.read_cons]
    cases Radix.shift (2 ^ 32) 128 ris (c &&& 0x7F).toNat
    case none   => rfl
    case some r =>
      simp only [if_neg (and_ne_of_le hc), Option.bind_some]
      rw [ih hmore (by omega) (by omega)]
      congr 3
      funext x
      simp
      omega

-- The octets up to the end of the buffer all say that more follow.
theorem parseTagOctets_all (hs : ∀ d ∈ s, 128 ≤ d) (hsize : punt + s.length = size) (hwrap : size < 2 ^ 32) :
    parseTagOctets size ris punt (s ++ mem) =
      (Radix.read (2 ^ 32) 128 ris (septets s)).elim (some none) fun r => parseTagOctets size r size mem := by
  induction s generalizing ris punt with
  | nil =>
    obtain rfl : punt = size := hsize
    rfl
  | cons c s ih =>
    obtain ⟨hc, hs⟩ := List.forall_mem_cons.mp hs
    simp only [List.length_cons] at hsize
    have hp : ¬size < punt := by omega
    have hw : punt + 1 ≠ 2 ^ 32 := by omega
    simp only [List.cons_append, parseTagOctets, if_neg hp, if_neg hw, accumulate_eq, septets_cons, Radix.read_cons]
    cases Radix.shift (2 ^ 32) 128 ris (c &&& 0x7F).toNat
    case none   => rfl
    case some r =>
      simp only [if_neg (and_ne_of_le hc), Option.bind_some]
      exact ih hs (by omega)

-- Past the buffer the loop reads outside of the memory, or it finds that it got too far.
theorem parseTagOctets_end :
    (parseTagOctets size ris size mem = none ∧ (mem = [] ∨ size = 2 ^ 32 - 1)) ∨
    (mem ≠ [] ∧ size ≠ 2 ^ 32 - 1 ∧ (parseTagOctets size ris size mem = some none ∨
      ∃ r, parseTagOctets size ris size mem = some (some (r, size + 1)))) := by
  cases mem with
  | nil          => simp [parseTagOctets]
  | cons val mem =>
    simp only [parseTagOctets, lt_irrefl, ↓reduceIte]
    by_cases hw : size + 1 = 2 ^ 32
    case pos => simp [hw]; omega
    case neg =>
      refine .inr ⟨by simp, by omega, ?_⟩
      rw [if_neg hw]
      cases accumulate 128 ris (val &&& 0x7F).toNat
      case none   => exact .inl rfl
      case some r =>
        by_cases hval : val &&& 0x7F = val
        case pos => simp [hval]
        case neg => cases mem <;> simp [hval, parseTagOctets]

theorem length_window : (window data).length = data.length % 2 ^ 32 := by
  rw [window, List.length_take]
  exact Nat.min_eq_left (Nat.mod_le _ _)

theorem exists_beyond (data : Bytes) : ∃ beyond, data = window data ++ beyond ∧ (beyond = [] ↔ data.length < 2 ^ 32) := by
  refine ⟨data.drop (data.length % 2 ^ 32), (List.take_append_drop _ _).symm, ?_⟩
  rw [List.drop_eq_nil_iff]
  omega

-- What `atlvParseClsTag` gives for a buffer.
inductive ClsTag (data : Bytes) : Option (Option (UInt8 × Nat × Int)) → Prop
  | outside : RunsOut data → ClsTag data none
  | nothing : ¬RunsOut data → (∀ tag rest, ¬Found data tag rest) → ClsTag data (some none)
  | found {tag rest : Bytes} {cls : UInt8} {n : Nat} : ¬RunsOut data → Found data tag rest →
    ClsTag data (some (some (cls, n, toGint (1 + tag.length))))

theorem not_runsOut_of_identifier (h : Identifier (window data) tag rest) : ¬RunsOut data := by
  rintro ⟨⟨c, s, hw, -, hc, hs, -⟩, -⟩
  rw [hw] at h
  cases h with
  | short hc'         => exact hc' hc
  | long _ _ hlast => exact UInt8.not_lt.mpr (hs _ (by simp)) hlast

theorem clsTag_of_identifier (h : Identifier (window data) tag rest) :
    ClsTag data (atlvParseClsTag data data.length) := by
  have hrun := not_runsOut_of_identifier h
  have hlen := @length_window data
  obtain ⟨beyond, hdata, -⟩ := exists_beyond data
  have hfound : ∀ tag' rest', Found data tag' rest' → tag' = tag ∧ rest' = rest := fun _ _ h' =>
    h'.identifier.unique h
  unfold atlvParseClsTag
  by_cases hsize : data.length % 2 ^ 32 < 2
  case pos =>
    rw [if_pos hsize]
    refine .nothing hrun fun tag' rest' h' => ?_
    obtain ⟨rfl, rfl⟩ := hfound _ _ h'
    obtain ⟨c, hc⟩ := h.eq
    have hmore := List.length_pos_of_ne_nil h'.more
    simp [hc] at hlen
    omega
  case neg =>
    rw [if_neg hsize]
    generalize hw : window data = w at h hdata hlen
    cases h with
    | @short c rest hc =>
      rw [hdata]
      simp only [List.cons_append, if_pos hc]
      rw [← List.cons_append, ← hdata]
      have hmore : rest ≠ [] := by rintro rfl; simp at hlen; omega
      exact @ClsTag.found _ [] _ _ _ hrun ⟨hw ▸ .short hc, hmore, by simp [Wraps, septets]⟩
    | @long c last more rest hc hmore hlast =>
      have hl : (more ++ [last]).length + rest.length + 1 = data.length % 2 ^ 32 := by
        simp at hlen ⊢
        omega
      have hlt := Nat.mod_lt data.length (show 0 < 2 ^ 32 by decide)
      have hstop := @parseTagOctets_stop (rest ++ beyond) more last (data.length % 2 ^ 32) 0 1 hmore hlast
        (by simp at hl; omega) (by simp at hl; omega)
      have heq : data = c :: (more ++ last :: (rest ++ beyond)) := by simpa using hdata
      generalize data.length % 2 ^ 32 = size at hsize hlen hl hlt hstop
      rw [heq]
      simp only [hc, ne_eq, not_true_eq_false, ↓reduceIte, hstop]
      rw [← heq]
      cases hread : Radix.read (2 ^ 32) 128 0 (septets (more ++ [last]))
      case none =>
        refine .nothing hrun fun tag' rest' h' => ?_
        obtain ⟨rfl, rfl⟩ := hfound _ _ h'
        exact h'.fits hread
      case some r =>
        simp only [Option.map_some]
        by_cases hrest : rest = []
        case pos =>
          rw [if_pos (by simp [hrest] at hl ⊢; omega)]
          refine .nothing hrun fun tag' rest' h' => ?_
          obtain ⟨rfl, rfl⟩ := hfound _ _ h'
          exact h'.more hrest
        case neg =>
          have hpos := List.length_pos_of_ne_nil hrest
          rw [if_neg (by omega)]
          exact .found hrun ⟨hw ▸ .long hc hmore hlast, hrest, fun hnone => by cases hread.symm.trans hnone⟩

theorem identifier_or_all {c : UInt8} :
    (∃ tag rest, Identifier (c :: s) tag rest) ∨ c &&& 0x1F = 0x1F ∧ ∀ d ∈ s, 128 ≤ d := by
  by_cases hc : c &&& 0x1F = 0x1F
  case neg => exact .inl ⟨_, _, .short hc⟩
  case pos =>
    by_cases hs : ∀ d ∈ s, 128 ≤ d
    case pos => exact .inr ⟨hc, hs⟩
    case neg =>
      simp only [not_forall, UInt8.not_le] at hs
      obtain ⟨d, hd, hlt⟩ := hs
      obtain ⟨last, more, rest, rfl, hmore, hlast⟩ : ∃ last more rest, s = more ++ last :: rest ∧
          (∀ d ∈ more, 128 ≤ d) ∧ last < 128 := by
        induction s with
        | nil => simp at hd
        | cons e s ih =>
          by_cases he : e < 128
          case pos => exact ⟨e, [], s, rfl, by simp, he⟩
          case neg =>
            have hne : d ≠ e := by rintro rfl; exact he hlt
            obtain ⟨last, more, rest, rfl, hmore, hlast⟩ := ih (by simpa [hne] using hd)
            refine ⟨last, e :: more, rest, rfl, ?_, hlast⟩
            exact List.forall_mem_cons.mpr ⟨UInt8.not_lt.mp he, hmore⟩
      exact .inl ⟨_, _, .long hc hmore hlast⟩

theorem clsTag_spec (data : Bytes) : ClsTag data (atlvParseClsTag data data.length) := by
  by_cases hid : ∃ tag rest, Identifier (window data) tag rest
  case pos =>
    obtain ⟨tag, rest, h⟩ := hid
    exact clsTag_of_identifier h
  case neg =>
    have hnot : ∀ tag rest, ¬Found data tag rest := fun tag rest h => hid ⟨tag, rest, h.identifier⟩
    have hlen := @length_window data
    obtain ⟨beyond, hdata, hbeyond⟩ := exists_beyond data
    unfold atlvParseClsTag
    by_cases hsize : data.length % 2 ^ 32 < 2
    case pos =>
      rw [if_pos hsize]
      refine .nothing ?_ hnot
      rintro ⟨⟨c, s, hw, hs, -⟩, -⟩
      have hpos := List.length_pos_of_ne_nil hs
      simp [hw] at hlen
      omega
    case neg =>
      rw [if_neg hsize]
      have hlt := Nat.mod_lt data.length (show 0 < 2 ^ 32 by decide)
      cases hw : window data with
      | nil       => simp [hw] at hlen; omega
      | cons c s =>
        obtain ⟨hc, hs⟩ := (@identifier_or_all s c).resolve_left (hw ▸ hid)
        have hl : 1 + s.length = data.length % 2 ^ 32 := by simpa [hw, Nat.add_comm] using hlen
        have hne : s ≠ [] := by rintro rfl; simp at hl; omega
        have hruns : RunsOut data ↔ ¬Wraps 128 (septets s) ∧
            (data.length < 2 ^ 32 ∨ data.length % 2 ^ 32 = 2 ^ 32 - 1) := by
          constructor
          case mp =>
            rintro ⟨⟨c', s', hw', -, -, -, hwraps⟩, hsize⟩
            cases hw.symm.trans hw'
            exact ⟨hwraps, hsize⟩
          case mpr =>
            rintro ⟨hwraps, hsize⟩
            exact ⟨⟨c, s, hw, hne, hc, hs, hwraps⟩, hsize⟩
        have hall := @parseTagOctets_all beyond s _ 0 1 hs hl hlt
        have heq : data = c :: (s ++ beyond) := by simpa [hw] using hdata
        generalize data.length % 2 ^ 32 = size at hsize hlen hl hlt hall hruns
        rw [heq]
        simp only [hc, ne_eq, not_true_eq_false, ↓reduceIte, hall]
        rw [← heq]
        cases hread : Radix.read (2 ^ 32) 128 0 (septets s)
        case none => exact .nothing (fun h => (hruns.mp h).1 hread) hnot
        case some r =>
          have hwraps : ¬Wraps 128 (septets s) := fun hnone => by cases hread.symm.trans hnone
          simp only [Option.elim_some]
          obtain ⟨hend, hwhy⟩ | ⟨hne', hne'', hend | ⟨r', hend⟩⟩ := @parseTagOctets_end beyond size r
          · rw [hend]
            exact .outside (hruns.mpr ⟨hwraps, hwhy.imp_left hbeyond.mp⟩)
          all_goals
            have hnruns : ¬RunsOut data := fun h => (hruns.mp h).2.elim (fun h => hne' (hbeyond.mpr h)) hne''
            rw [hend]
          · exact .nothing hnruns hnot
          · simp only [Nat.le_add_right, ↓reduceIte]
            exact .nothing hnruns hnot

theorem parseLengthOctets_spec (h : punt + s.length = min (k + 1) size) :
    parseLengthOctets k size ans punt (s ++ mem) =
      some ((Radix.read (2 ^ 32) 256 ans (s.map UInt8.toNat)).map (·, punt + s.length)) := by
  induction s generalizing ans punt with
  | nil =>
    have hp : ¬(punt ≤ k ∧ punt < size) := by simp at h; omega
    cases mem <;> simp only [List.nil_append, parseLengthOctets, if_neg hp]
    all_goals rfl
  | cons c s ih =>
    simp only [List.length_cons] at h
    have hp : punt ≤ k ∧ punt < size := by omega
    simp only [List.cons_append, parseLengthOctets, if_pos hp, accumulate_eq, List.map_cons, Radix.read_cons]
    cases Radix.shift (2 ^ 32) 256 ans c.toNat
    case none   => rfl
    case some r =>
      simp only [Option.bind_some]
      rw [ih (by omega), List.length_cons, Nat.add_assoc, Nat.add_comm 1]

theorem toGint_neg (h : ¬n < 2 ^ 31) (h' : n < 2 ^ 32) : toGint n < 0 := by
  rw [toGint, if_neg h]
  omega

-- The window starts with `rest`.
theorem parseLength_spec (hne : rest ≠ []) (hlen : nData % 2 ^ 32 = rest.length) (beyond : Bytes) :
    ∃ len : Int, atlvParseLength (rest ++ beyond) nData = some (len, (counted rest : Int)) ∧
      (0 ≤ len ∧ Announces rest len.toNat ∨ len < 0 ∧ (len = -1 → Indefinite rest) ∧ ∀ v, ¬Announces rest v) := by
  obtain ⟨c, s, rfl⟩ := List.exists_cons_of_ne_nil hne
  have hdata : nData ≠ 0 := by rintro rfl; simp at hlen
  simp only [List.cons_append, atlvParseLength, if_neg hdata, Octet.and_128_eq_zero_iff, Octet.toNat_and_127, hlen]
  by_cases hc : c < 128
  case pos =>
    have hle : c ≤ 128 := UInt8.le_of_lt hc
    refine ⟨c.toNat, by simp [hc, counted, hle], .inl ⟨by simp, ?_⟩⟩
    simpa using Announces.short hc
  case neg =>
    rw [if_neg hc]
    have hge : 128 ≤ c.toNat := UInt8.le_iff_toNat_le.mp (UInt8.not_lt.mp hc)
    have hlt := c.toNat_lt
    by_cases hk : c.toNat % 128 = 0
    case pos =>
      have hc' : c = 128 := UInt8.toNat_inj.mp (show c.toNat = 128 by omega)
      refine ⟨-1, by simp [hc', counted], .inr ⟨by simp, fun _ => hc' ▸ .octet, ?_⟩⟩
      rintro v (h | ⟨h, -, -⟩)
      · exact hc h
      · exact absurd h (by simp [hc'])
    case neg =>
      have hgt : 128 < c := UInt8.lt_iff_toNat_lt.mpr (show 128 < c.toNat by omega)
      have hmod : c.toNat % 128 = c.toNat - 128 := by omega
      have hspec := @parseLengthOctets_spec (s.drop (c.toNat - 128) ++ beyond) (s.take (c.toNat - 128)) (s.length + 1) 1 0
        (c.toNat - 128) (by rw [List.length_take]; omega)
      rw [← List.append_assoc, List.take_append_drop] at hspec
      have hcounted : counted (c :: s) = if Wraps 256 (lengthOctets c s) then 0 else 1 + (lengthOctets c s).length :=
        if_neg (UInt8.not_le.mpr hgt)
      have hannounces : ∀ v, Announces (c :: s) v →
          Radix.read (2 ^ 32) 256 0 (lengthOctets c s) = some v ∧ v < 2 ^ 31 := by
        rintro v (h | ⟨-, h, hv⟩)
        · exact absurd h hc
        · exact ⟨h, hv⟩
      rw [if_neg hk, hmod, List.length_cons, hspec, ← lengthOctets, hcounted]
      cases hread : Radix.read (2 ^ 32) 256 0 (lengthOctets c s)
      case none =>
        refine ⟨-2, by simp [show Wraps 256 (lengthOctets c s) from hread], .inr ⟨by simp, fun h => absurd h (by decide), fun v hv => ?_⟩⟩
        cases hread.symm.trans (hannounces v hv).1
      case some r =>
        have hwraps : ¬Wraps 256 (lengthOctets c s) := fun hnone => by cases hread.symm.trans hnone
        have hr : r < 2 ^ 32 := Radix.eq_of_read hread ▸ Nat.mod_lt _ (by decide)
        have hle : (lengthOctets c s).length ≤ 127 := by
          rw [lengthOctets, List.length_map, List.length_take]
          omega
        have hoff : (s.take (c.toNat - 128)).length = (lengthOctets c s).length := by simp [lengthOctets]
        rw [if_neg hwraps, hoff]
        refine ⟨toGint r, by rw [← toGint_of_lt (show 1 + (lengthOctets c s).length < 2 ^ 31 by omega)]; rfl, ?_⟩
        by_cases hlt : r < 2 ^ 31
        case pos =>
          rw [toGint_of_lt hlt]
          exact .inl ⟨by simp, .long hgt hread hlt⟩
        case neg =>
          refine .inr ⟨toGint_neg hlt hr, fun hone => .long hgt ?_, fun v hv => ?_⟩
          · rw [toGint, if_neg hlt] at hone
            rw [hread, show r = 2 ^ 32 - 1 by omega]
          obtain ⟨h, hv⟩ := hannounces v hv
          cases hread.symm.trans h
          exact hlt hv

end Asn1x
