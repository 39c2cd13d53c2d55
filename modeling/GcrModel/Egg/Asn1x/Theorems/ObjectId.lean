import GcrModel.Egg.Asn1x.Values
import Mathlib.Data.Nat.Digits.Lemmas

namespace Asn1x

open GLib
open Septets (Terminated Canonical)

variable {node : GNode} {g front more s : Bytes} {c last : UInt8} {arcs : List Nat} {num k v a nData i : Nat}

-- No byte is 0x80, and the value modulo 2^32 does not get smaller from one byte to the next.
structure CleanFrom (front g : Bytes) : Prop where
  octets : 0x80 ∉ g
  grows  : ∀ m c back, g = m ++ c :: back →
    Septets.value (front ++ m) % 2 ^ 32 ≤ Septets.value (front ++ m ++ [c]) % 2 ^ 32

abbrev Clean (g : Bytes) : Prop :=
  CleanFrom [] g

theorem toNat_or_128 (n : Nat) (h : n < 128) : (UInt8.ofNat n ||| 0x80).toNat = n + 128 := by
  have hor : ∀ n : Fin 128, n.val ||| 128 = n.val + 128 := by decide +kernel
  rw [UInt8.toNat_or, UInt8.toNat_ofNat', Nat.mod_eq_of_lt (by omega)]
  exact hor ⟨n, h⟩

theorem arcOctets_had (num k : Nat) : Terminated (arcOctets num true k) ∧ (arcOctets num true k).length = k + 1 ∧
    Septets.value (arcOctets num true k) = num % 128 ^ (k + 1) := by
  induction k with
  | zero =>
    have hlt : num % 128 < 128 := Nat.mod_lt _ (by decide)
    have hnat : (UInt8.ofNat (num % 128)).toNat = num % 128 := by
      rw [UInt8.toNat_ofNat', Nat.mod_eq_of_lt (by omega)]
    refine ⟨Septets.terminated_singleton (UInt8.lt_iff_toNat_lt.mpr ?_), rfl, ?_⟩
    · rw [hnat]
      exact hlt
    · rw [arcOctets, Septets.value_singleton, hnat, Nat.mod_mod, Nat.zero_add, Nat.pow_one]
  | succ k ih =>
    obtain ⟨hterm, hlen, hvalue⟩ := ih
    have hlt : num >>> ((k + 1) * 7) % 128 < 128 := Nat.mod_lt _ (by decide)
    have hnat := toNat_or_128 _ hlt
    rw [arcOctets, if_pos (.inr rfl)]
    refine ⟨hterm.cons (UInt8.le_iff_toNat_le.mpr (hnat ▸ Nat.le_add_left _ _)), by simp [hlen], ?_⟩
    rw [Septets.value_cons, hlen, hvalue, hnat, Nat.add_mod_right, Nat.mod_mod, Nat.shiftRight_eq_div_pow, Nat.pow_mul',
      Nat.pow_succ 128 (k + 1), Nat.mod_mul, Nat.mul_comm, Nat.add_comm]

-- What is written for a number.
theorem arcOctets_spec (h : num < 128 ^ (k + 1)) :
    Canonical (arcOctets num false k) ∧ Septets.value (arcOctets num false k) = num := by
  induction k with
  | zero =>
    obtain ⟨hterm, -, hvalue⟩ := arcOctets_had num 0
    refine ⟨⟨hterm, ?_⟩, hvalue.trans (Nat.mod_eq_of_lt h)⟩
    intro hhead
    have heq : UInt8.ofNat (num % 128) = 0x80 := Option.some.inj hhead
    have hnat := congrArg UInt8.toNat heq
    rw [UInt8.toNat_ofNat'] at hnat
    change num % 128 % 256 = 128 at hnat
    omega
  | succ k ih =>
    have hshift : num >>> ((k + 1) * 7) = num / 128 ^ (k + 1) := by rw [Nat.shiftRight_eq_div_pow, Nat.pow_mul']
    have hlt : num / 128 ^ (k + 1) < 128 := Nat.div_lt_of_lt_mul (by rwa [← Nat.pow_succ])
    rw [arcOctets, hshift, Nat.mod_eq_of_lt hlt]
    by_cases hzero : num / 128 ^ (k + 1) = 0
    case pos =>
      rw [if_neg (by simp [hzero])]
      exact ih ((Nat.div_eq_zero_iff_lt (Nat.pow_pos (by decide))).mp hzero)
    case neg =>
      obtain ⟨hterm, hlen, hvalue⟩ := arcOctets_had num k
      have hnat := toNat_or_128 _ hlt
      rw [if_pos (.inl hzero)]
      refine ⟨⟨hterm.cons (UInt8.le_iff_toNat_le.mpr (hnat ▸ Nat.le_add_left _ _)), ?_⟩, ?_⟩
      · intro hhead
        have heq := congrArg UInt8.toNat (Option.some.inj hhead)
        rw [hnat] at heq
        change _ = 128 at heq
        omega
      · rw [Septets.value_cons, hlen, hvalue, hnat, Nat.add_mod_right, Nat.mod_eq_of_lt hlt]
        exact Nat.div_add_mod' num _

theorem cleanFrom_nil : CleanFrom front [] :=
  ⟨by simp, by simp⟩

theorem cleanFrom_cons : CleanFrom front (c :: g) ↔
    c ≠ 0x80 ∧ Septets.value front % 2 ^ 32 ≤ Septets.value (front ++ [c]) % 2 ^ 32 ∧ CleanFrom (front ++ [c]) g := by
  constructor
  case mp =>
    rintro ⟨hoctets, hgrows⟩
    refine ⟨fun h => hoctets (h ▸ List.mem_cons_self), ?_, ?_, ?_⟩
    · simpa using hgrows [] c g rfl
    · exact fun h => hoctets (List.mem_cons_of_mem _ h)
    · intro m d back h
      simpa using hgrows (c :: m) d back (by rw [h, List.cons_append])
  case mpr =>
    rintro ⟨hc, hle, hoctets, hgrows⟩
    refine ⟨by simpa [hoctets] using hc.symm, fun m d back h => ?_⟩
    cases m with
    | nil =>
      obtain ⟨rfl, -⟩ := List.cons.inj h
      simpa using hle
    | cons e m =>
      obtain ⟨rfl, rfl⟩ := List.cons.inj h
      simpa using hgrows m d back rfl

theorem clean_of_lt (hoctets : 0x80 ∉ g) (h : Septets.value g < 2 ^ 32) : Clean g := by
  refine ⟨hoctets, ?_⟩
  rintro m c back rfl
  have hle := Septets.le_value_append (m ++ [c]) back
  have hle' := Septets.le_value_append m [c]
  rw [List.append_assoc, List.singleton_append] at hle
  rw [List.nil_append, Nat.mod_eq_of_lt (by omega), Nat.mod_eq_of_lt (by omega)]
  exact hle'

theorem readArcs_step (v : Nat) (p : UInt8) : (v <<< 7) % 2 ^ 32 ||| (p &&& 0x7F).toNat = (v * 128 + p.toNat % 128) % 2 ^ 32 := by
  have hlt : p.toNat % 128 < 2 ^ 7 := Nat.mod_lt _ (by decide)
  have hshift : (v <<< 7) % 2 ^ 32 = 2 ^ 7 * (v % 2 ^ 25) := by
    rw [Nat.shiftLeft_eq]
    omega
  rw [hshift, Octet.toNat_and_127, ← Nat.two_pow_add_eq_or_of_lt hlt]
  omega

theorem readArcs_cons (front : Bytes) (c : UInt8) (s : Bytes) :
    readArcs true (Septets.value front % 2 ^ 32) (Septets.value front % 2 ^ 32) (c :: s) =
      if c = 0x80 ∨ Septets.value (front ++ [c]) % 2 ^ 32 < Septets.value front % 2 ^ 32 then none
      else if c < 128 then (readArcs true 0 0 s).map (Septets.value (front ++ [c]) % 2 ^ 32 :: ·)
      else
        readArcs true (Septets.value (front ++ [c]) % 2 ^ 32) (Septets.value (front ++ [c]) % 2 ^ 32) s := by
  have hstep : (Septets.value front % 2 ^ 32 * 128 + c.toNat % 128) % 2 ^ 32 = Septets.value (front ++ [c]) % 2 ^ 32 := by
    rw [Septets.value_concat, Nat.add_mod, Nat.mod_mul_mod, ← Nat.add_mod]
  rw [readArcs, readArcs_step, hstep]
  by_cases hc : c = 0x80
  case pos => rw [if_pos ⟨rfl, hc⟩, if_pos (.inl hc)]
  case neg =>
    rw [if_neg fun h => hc h.2]
    dsimp only
    by_cases hlt : Septets.value (front ++ [c]) % 2 ^ 32 < Septets.value front % 2 ^ 32
    case pos => rw [if_pos hlt, if_pos (.inr hlt)]
    case neg =>
      rw [if_neg hlt, if_neg (not_or.mpr ⟨hc, hlt⟩)]
      simp only [Octet.and_128_eq_zero_iff]

-- The bytes of a number in front of its last one.
theorem readArcs_open (hmore : ∀ d ∈ more, 128 ≤ d) (front s : Bytes) :
    (CleanFrom front more → readArcs true (Septets.value front % 2 ^ 32) (Septets.value front % 2 ^ 32) (more ++ s) =
      readArcs true (Septets.value (front ++ more) % 2 ^ 32) (Septets.value (front ++ more) % 2 ^ 32) s) ∧
    (¬CleanFrom front more →
      readArcs true (Septets.value front % 2 ^ 32) (Septets.value front % 2 ^ 32) (more ++ s) = none) := by
  induction more generalizing front with
  | nil => exact ⟨fun _ => by simp, fun h => absurd cleanFrom_nil h⟩
  | cons c more ih =>
    obtain ⟨hc, hmore⟩ := List.forall_mem_cons.mp hmore
    obtain ⟨hclean, hnot⟩ := ih hmore (front ++ [c])
    rw [cleanFrom_cons, List.cons_append, readArcs_cons, if_neg (c := c < 128) (UInt8.not_lt.mpr hc)]
    constructor
    · rintro ⟨hne, hle, h⟩
      rw [if_neg (not_or.mpr ⟨hne, Nat.not_lt.mpr hle⟩), hclean h, List.append_assoc, List.singleton_append]
    · intro h
      by_cases hbad : c = 0x80 ∨ Septets.value (front ++ [c]) % 2 ^ 32 < Septets.value front % 2 ^ 32
      case pos => exact if_pos hbad
      case neg =>
        rw [if_neg hbad]
        refine hnot fun hmore => h ⟨?_, ?_, hmore⟩
        · exact fun hc => hbad (.inl hc)
        · exact Nat.le_of_not_lt fun hlt => hbad (.inr hlt)

theorem cleanFrom_append : CleanFrom front (more ++ g) ↔ CleanFrom front more ∧ CleanFrom (front ++ more) g := by
  induction more generalizing front with
  | nil => simp [cleanFrom_nil]
  | cons c more ih => simp [cleanFrom_cons, ih, and_assoc]

-- A number that ends.
theorem readArcs_terminated (hg : Terminated g) (s : Bytes) :
    (Clean g → readArcs true 0 0 (g ++ s) = (readArcs true 0 0 s).map (Septets.value g % 2 ^ 32 :: ·)) ∧
    (¬Clean g → readArcs true 0 0 (g ++ s) = none) := by
  obtain @⟨more, last, hmore, hlast⟩ := hg
  obtain ⟨hclean, hnot⟩ := readArcs_open hmore [] (last :: s)
  have hzero : Septets.value [] % 2 ^ 32 = 0 := rfl
  rw [hzero, List.nil_append] at hclean
  rw [hzero] at hnot
  rw [Clean, cleanFrom_append, cleanFrom_cons, List.nil_append, List.append_assoc, List.singleton_append]
  constructor
  · rintro ⟨h, hne, hle, -⟩
    rw [hclean h, readArcs_cons, if_neg (not_or.mpr ⟨hne, Nat.not_lt.mpr hle⟩), if_pos hlast]
  · intro h
    by_cases hopen : CleanFrom [] more
    case neg => exact hnot hopen
    case pos =>
      rw [hclean hopen, readArcs_cons, if_pos]
      by_contra hbad
      refine h ⟨hopen, ?_, ?_, cleanFrom_nil⟩
      · exact fun hc => hbad (.inl hc)
      · exact Nat.le_of_not_lt fun hlt => hbad (.inr hlt)

-- What is read of numbers one after the other, of which the last one may lack its end.
theorem readArcs_flatten {gs : List Bytes} {rest : Bytes} (hgs : ∀ g ∈ gs, Terminated g) (hrest : ∀ d ∈ rest, 128 ≤ d) :
    ((∀ g ∈ gs, Clean g) ∧ Clean rest →
      readArcs true 0 0 (gs.flatten ++ rest) = some (gs.map fun g => Septets.value g % 2 ^ 32)) ∧
    (¬((∀ g ∈ gs, Clean g) ∧ Clean rest) → readArcs true 0 0 (gs.flatten ++ rest) = none) := by
  induction gs with
  | nil =>
    obtain ⟨hclean, hnot⟩ := readArcs_open hrest [] []
    rw [List.append_nil] at hclean hnot
    exact ⟨fun h => hclean h.2, fun h => hnot fun hclean => h ⟨by simp, hclean⟩⟩
  | cons g gs ih =>
    obtain ⟨hg, hgs⟩ := List.forall_mem_cons.mp hgs
    obtain ⟨hclean, hnot⟩ := readArcs_terminated hg (gs.flatten ++ rest)
    obtain ⟨hall, hnone⟩ := ih hgs
    rw [List.flatten_cons, List.append_assoc, List.forall_mem_cons, and_assoc]
    constructor
    · rintro ⟨h, hothers⟩
      rw [hclean h, hall hothers]
      rfl
    · intro h
      by_cases hc : Clean g
      case neg => exact hnot hc
      case pos =>
        rw [hclean hc, hnone fun hothers => h ⟨hc, hothers⟩]
        rfl

theorem dotted_singleton (a : Nat) : dotted [a] = printUnsigned a := by
  simp [dotted]

theorem dotted_cons (a : Nat) (h : arcs ≠ []) : dotted (a :: arcs) = printUnsigned a ++ 46 :: dotted arcs := by
  rw [dotted, List.map_cons, List.intercalate_cons_of_ne_nil (by simpa using h)]
  simp [dotted]

theorem ne_dot_of_mem_printUnsigned (h : c ∈ printUnsigned a) : c ≠ 46 := by
  rintro rfl
  have hdigit := isdigit_of_mem_printUnsigned h
  simp [isdigit] at hdigit

theorem nextPart_dotted (a : Nat) (arcs : List Nat) : nextPart (dotted (a :: arcs)) = (printUnsigned a, dotted arcs) := by
  have htake : ∀ c ∈ printUnsigned a, decide (c ≠ 46) = true := fun c hc =>
    decide_eq_true (ne_dot_of_mem_printUnsigned hc)
  cases arcs with
  | nil =>
    rw [dotted_singleton, nextPart, List.takeWhile_eq_self_iff.mpr htake, List.dropWhile_eq_nil_iff.mpr htake]
    rfl
  | cons b arcs =>
    rw [dotted_cons a (by simp), nextPart, List.takeWhile_append_of_pos htake, List.dropWhile_append_of_pos htake]
    simp

theorem dotted_ne_nil (a : Nat) (arcs : List Nat) : dotted (a :: arcs) ≠ [] := by
  intro h
  have hnext := nextPart_dotted a arcs
  rw [h] at hnext
  exact printUnsigned_ne_nil a (congrArg Prod.fst hnext).symm

theorem length_dotted_le (a : Nat) (arcs : List Nat) :
    (printUnsigned a).length + (dotted arcs).length ≤ (dotted (a :: arcs)).length := by
  cases arcs with
  | nil      => simp [dotted]
  | cons b s => simp [dotted_cons a (by simp : b :: s ≠ [])]

theorem length_le_dotted (arcs : List Nat) : arcs.length ≤ (dotted arcs).length := by
  induction arcs with
  | nil => exact Nat.zero_le _
  | cons a arcs ih =>
    have hle := length_dotted_le a arcs
    have hpos := List.length_pos_of_ne_nil (printUnsigned_ne_nil a)
    rw [List.length_cons]
    omega

-- No more bytes are written for a number than it has digits.
theorem length_arcOctets_le (h : a < 2 ^ 31) : (arcOctets a false 4).length ≤ (printUnsigned a).length := by
  obtain ⟨hcanonical, hvalue⟩ := arcOctets_spec (show a < 128 ^ (4 + 1) by omega)
  have hpos := List.length_pos_of_ne_nil (printUnsigned_ne_nil a)
  have hlen : (arcOctets a false 4).length = if a = 0 then 1 else (Radix.digits 128 a).length := by
    rw [← Septets.length_digits, hcanonical.digits_eq, hvalue]
    split
    all_goals rfl
  rw [hlen]
  split
  case isTrue => exact hpos
  case isFalse hzero =>
    have hlow := Nat.base_pow_length_digits_le 128 a (by decide) hzero
    have hhigh := decimal_lt fun c => @isdigit_of_mem_printUnsigned a c
    rw [decimal_printUnsigned (Nat.le_trans (Nat.le_of_lt h) (by decide))] at hhigh
    rw [Radix.digits, List.length_reverse]
    by_contra hlt
    have hpow : 128 * 10 ^ (printUnsigned a).length ≤ 128 * 128 ^ (printUnsigned a).length :=
      Nat.mul_le_mul_left _ (Nat.pow_le_pow_left (by decide) _)
    have hmono : 128 ^ ((printUnsigned a).length + 1) ≤ 128 ^ (Nat.digits 128 a).length :=
      Nat.pow_le_pow_right (by decide) (by omega)
    rw [Nat.pow_succ] at hmono
    omega

def restOctets (arcs : List Nat) : Bytes :=
  arcs.flatMap fun a => arcOctets a false 4

theorem writeParts_cons {data : Bytes} {num1 : Int} (fuel : Nat) (h : a < 2 ^ 31) (arcs : List Nat) :
    writeParts nData (fuel + 1) i num1 data (dotted (a :: arcs)) =
      (partOctets i (if i = 0 then (a : Int) else num1) a).bind fun octets =>
        if nData < data.length + octets.length ∨ 2 ^ 31 ≤ data.length + octets.length ∨ 2 ^ 31 ≤ i + 1 then none
        else writeParts nData fuel (i + 1) (if i = 0 then (a : Int) else num1) (data ++ octets) (dotted arcs) := by
  have hten : a < 10 ^ 10 := Nat.lt_trans h (by decide)
  have hlen := length_printUnsigned_le (by decide) hten
  have hgint : (toGint ((printUnsigned a).length % 2 ^ 32)).toNat = (printUnsigned a).length := by
    rw [Nat.mod_eq_of_lt (by omega), toGint, if_pos (by omega), Int.toNat_natCast]
  have hneg : ¬((a : Int) < 0) := by omega
  rw [writeParts, if_neg (dotted_ne_nil a arcs), nextPart_dotted]
  dsimp only
  rw [if_neg (printUnsigned_ne_nil a), hgint, atoin_printUnsigned h, Option.bind_eq_bind, Option.bind_some, if_neg hneg]
  rfl

-- The parts behind the first two.
theorem writeParts_rest {data : Bytes} {num1 : Int} {fuel : Nat} (harcs : ∀ a ∈ arcs, a < 2 ^ 31) (hi : 2 ≤ i)
    (hfuel : arcs.length < fuel) (hdata : data.length + (dotted arcs).length ≤ nData) (hat : data.length < 2 ^ 31)
    (hat' : i < 2 ^ 31) :
    writeParts nData fuel i num1 data (dotted arcs) =
      if i + arcs.length < 2 ^ 31 ∧ (data ++ restOctets arcs).length < 2 ^ 31 then some (some (data ++ restOctets arcs))
      else none := by
  induction arcs generalizing fuel i data num1 with
  | nil =>
    obtain ⟨fuel, rfl⟩ := Nat.exists_eq_add_of_lt hfuel
    have hat'' : (data ++ restOctets []).length < 2 ^ 31 := by simpa [restOctets] using hat
    rw [if_pos ⟨hat', hat''⟩]
    simp [writeParts, dotted, restOctets]
  | cons a arcs ih =>
    obtain ⟨ha, harcs⟩ := List.forall_mem_cons.mp harcs
    obtain ⟨fuel, rfl⟩ := Nat.exists_eq_add_of_lt hfuel
    have hpart := length_arcOctets_le ha
    have hdotted := length_dotted_le a arcs
    have happend : data ++ restOctets (a :: arcs) = data ++ arcOctets a false 4 ++ restOctets arcs := by
      simp [restOctets]
    rw [List.length_cons, writeParts_cons _ ha, partOctets, if_neg (by omega), if_neg (by omega), Option.bind_some,
      Int.toNat_natCast, happend]
    by_cases hbad : 2 ^ 31 ≤ data.length + (arcOctets a false 4).length ∨ 2 ^ 31 ≤ i + 1
    case pos =>
      rw [if_pos (.inr hbad), if_neg]
      simp only [List.length_append]
      omega
    case neg =>
      have hlen : i + 1 + arcs.length = i + (arcs.length + 1) := by omega
      have hnot : ¬(nData < data.length + (arcOctets a false 4).length ∨
          2 ^ 31 ≤ data.length + (arcOctets a false 4).length ∨ 2 ^ 31 ≤ i + 1) := by omega
      rw [if_neg hnot, ← hlen]
      apply ih harcs
      · omega
      · omega
      · rw [List.length_append]
        omega
      · rw [List.length_append]
        omega
      · omega

theorem nul_notMem_dotted (arcs : List Nat) : 0 ∉ dotted arcs := by
  have hprint : ∀ a, 0 ∉ printUnsigned a := fun a h => by
    have hdigit := isdigit_of_mem_printUnsigned h
    simp [isdigit] at hdigit
  induction arcs with
  | nil => simp [dotted]
  | cons a arcs ih =>
    cases arcs with
    | nil      => simpa [dotted] using hprint a
    | cons b s =>
      rw [dotted_cons a (by simp), List.mem_append, List.mem_cons]
      rintro (h | h | h)
      · exact hprint a h
      · cases h
      · exact ih h

theorem dotted_inj {arcs' : List Nat} (harcs : ∀ a ∈ arcs, a ≤ maxUint64) (harcs' : ∀ a ∈ arcs', a ≤ maxUint64)
    (h : dotted arcs = dotted arcs') : arcs = arcs' := by
  induction arcs generalizing arcs' with
  | nil =>
    cases arcs' with
    | nil        => rfl
    | cons b s' => exact absurd h.symm (dotted_ne_nil b s')
  | cons a s ih =>
    cases arcs' with
    | nil        => exact absurd h (dotted_ne_nil a s)
    | cons b s' =>
      have hnext := nextPart_dotted a s
      rw [h, nextPart_dotted, Prod.mk.injEq] at hnext
      have hdecimal := congrArg decimal hnext.1
      rw [decimal_printUnsigned (harcs' b (by simp)), decimal_printUnsigned (harcs a (by simp))] at hdecimal
      rw [hdecimal, ih (fun a ha => harcs a (by simp [ha])) (fun a ha => harcs' a (by simp [ha])) hnext.2.symm]

-- The arcs of an object identifier.
inductive ValidOid : List Nat → Prop
  | mk {a b : Nat} {rest : List Nat} : a ≤ 2 → (a < 2 → b < 40) → (∀ c ∈ a :: b :: rest, c < 2 ^ 31) →
    ValidOid (a :: b :: rest)

-- How many arcs and bytes there are fits into a `gint`.
def CountsFit (arcs : List Nat) : Prop :=
  arcs.length < 2 ^ 31 ∧ (restOctets (arcs.drop 2)).length + 1 < 2 ^ 31

instance (arcs : List Nat) : Decidable (CountsFit arcs) :=
  inferInstanceAs (Decidable (_ ∧ _))

-- The first two parts.
theorem writeParts_first {a b : Nat} {rest : List Nat} (fuel : Nat) (ha : a ≤ 6) (hb : b < 2 ^ 31) :
    writeParts (dotted (a :: b :: rest)).length (fuel + 2) 0 0 [] (dotted (a :: b :: rest)) =
      if 40 * a + b < 2 ^ 31 then
        writeParts (dotted (a :: b :: rest)).length fuel 2 a [UInt8.ofNat ((40 * a + b) % 256)] (dotted rest)
      else none := by
  have hmul : mulGint 40 (a : Int) = some ((40 * a : Nat) : Int) := by
    rw [mulGint, if_pos (by omega)]
    rfl
  have hroom : ¬((dotted (a :: b :: rest)).length < 0 + 1 ∨ 2 ^ 31 ≤ 0 + 1 ∨ 2 ^ 31 ≤ 1 + 1) := by
    have hle := length_le_dotted (a :: b :: rest)
    simp only [List.length_cons] at hle
    omega
  have hempty : ¬((dotted (a :: b :: rest)).length < 0 + 0 ∨ 2 ^ 31 ≤ 0 + 0 ∨ 2 ^ 31 ≤ 0 + 1) := by omega
  rw [writeParts_cons _ (by omega), partOctets, if_pos rfl, Option.bind_some, List.length_nil, if_neg hempty, if_pos rfl,
    writeParts_cons _ hb, partOctets, if_neg (by decide), if_pos rfl, if_neg (by decide), hmul, Option.bind_eq_bind,
    Option.bind_some, addGint, ← Nat.cast_add]
  by_cases hsum : 40 * a + b < 2 ^ 31
  case pos =>
    have hbyte : (((40 * a + b : Nat) : Int) % 256).toNat = (40 * a + b) % 256 := by omega
    rw [if_pos (by omega), if_pos hsum, Option.bind_some, Option.bind_some, hbyte]
    exact if_neg hroom
  case neg =>
    rw [if_neg (by omega), if_neg hsum]
    rfl

-- The first number is up to 6, where it is a part of any octet.
theorem anodeWriteObjectId_dotted {a b : Nat} {rest : List Nat} (ha : a ≤ 6)
    (harcs : ∀ c ∈ a :: b :: rest, c < 2 ^ 31) :
    anodeWriteObjectId (dotted (a :: b :: rest)) (dotted (a :: b :: rest)).length =
      if 40 * a + b < 2 ^ 31 ∧ CountsFit (a :: b :: rest) then
        some (if rest = [] then none else some (UInt8.ofNat ((40 * a + b) % 256) :: restOctets rest))
      else none := by
  simp only [List.forall_mem_cons] at harcs
  obtain ⟨ha', hb, hrest⟩ := harcs
  have hlen := length_le_dotted (a :: b :: rest)
  have hle := length_dotted_le a (b :: rest)
  have hle' := length_dotted_le b rest
  have hpos := List.length_pos_of_ne_nil (printUnsigned_ne_nil a)
  simp only [List.length_cons] at hlen
  have hfuel : (dotted (a :: b :: rest)).length + 1 = (dotted (a :: b :: rest)).length - 1 + 2 := by omega
  have hparts : writeParts (dotted (a :: b :: rest)).length ((dotted (a :: b :: rest)).length - 1) 2 a
      [UInt8.ofNat ((40 * a + b) % 256)] (dotted rest) =
      if 2 + rest.length < 2 ^ 31 ∧ ([UInt8.ofNat ((40 * a + b) % 256)] ++ restOctets rest).length < 2 ^ 31 then
        some (some ([UInt8.ofNat ((40 * a + b) % 256)] ++ restOctets rest))
      else none := by
    apply writeParts_rest hrest
    · omega
    · omega
    · rw [List.length_singleton]
      omega
    · simp
    · decide
  have hcounts : CountsFit (a :: b :: rest) ↔
      2 + rest.length < 2 ^ 31 ∧ ([UInt8.ofNat ((40 * a + b) % 256)] ++ restOctets rest).length < 2 ^ 31 := by
    simp only [CountsFit, List.length_cons, List.drop_succ_cons, List.drop_zero, List.length_append, List.length_nil]
    omega
  rw [anodeWriteObjectId, hfuel, writeParts_first _ ha hb, hparts]
  by_cases hsum : 40 * a + b < 2 ^ 31
  case neg =>
    rw [if_neg hsum, if_neg fun h => hsum h.1]
    rfl
  case pos =>
    rw [if_pos hsum]
    by_cases hfit : CountsFit (a :: b :: rest)
    case neg =>
      rw [if_neg fun h => hfit (hcounts.mpr h), if_neg fun h => hfit h.2]
      rfl
    case pos =>
      rw [if_pos (hcounts.mp hfit), if_pos ⟨hsum, hfit⟩, Option.bind_eq_bind, Option.bind_some]
      cases rest with
      | nil => rfl
      | cons c rest =>
        have hne := List.length_pos_of_ne_nil (arcOctets_spec (show c < 128 ^ (4 + 1) by
          have := hrest c List.mem_cons_self
          omega)).1.terminated.ne_nil
        have hlong : ¬([UInt8.ofNat ((40 * a + b) % 256)] ++ restOctets (c :: rest)).length < 2 := by
          rw [restOctets, List.flatMap_cons, List.length_append, List.length_append, List.length_singleton]
          omega
        dsimp only
        rw [if_neg hlong, if_neg (by simp)]
        rfl

theorem mem_0x80_iff (hg : Terminated g) : 0x80 ∈ g ↔ 0 ∈ (Septets.digits g).dropLast := by
  obtain @⟨more, last, hmore, hlast⟩ := hg
  have hne : last ≠ 0x80 := by
    rintro rfl
    exact absurd hlast (by decide)
  have hdrop : (Septets.digits (more ++ [last])).dropLast = Septets.digits more := by
    rw [Septets.digits_append]
    exact List.dropLast_concat
  rw [hdrop, List.mem_append, List.mem_singleton]
  constructor
  case mp =>
    rintro (h | h)
    · exact List.mem_map.mpr ⟨0x80, h, rfl⟩
    · exact absurd h.symm hne
  case mpr =>
    intro h
    obtain ⟨d, hd, hzero⟩ := List.mem_map.mp h
    have hge := UInt8.le_iff_toNat_le.mp (hmore d hd)
    have hlt := d.toNat_lt
    have hnat : d.toNat = (0x80 : UInt8).toNat := by
      change 128 ≤ d.toNat at hge
      change d.toNat = 128
      omega
    exact .inl (UInt8.toNat_inj.mp hnat ▸ hd)

-- No digit in base 128 is zero in front of the last one.
def NoInnerZero (a : Nat) : Prop :=
  0 ∉ (Radix.digits 128 a).dropLast

instance (a : Nat) : Decidable (NoInnerZero a) :=
  inferInstanceAs (Decidable (¬_))

theorem clean_arcOctets (h : a < 2 ^ 31) : Clean (arcOctets a false 4) ↔ NoInnerZero a := by
  obtain ⟨hcanonical, hvalue⟩ := arcOctets_spec (show a < 128 ^ (4 + 1) by omega)
  have hinner : 0 ∈ (Septets.digits (arcOctets a false 4)).dropLast ↔ ¬NoInnerZero a := by
    rw [NoInnerZero, not_not, hcanonical.digits_eq, hvalue]
    split
    case isTrue hzero => simp [hzero, Radix.digits]
    case isFalse      => rfl
  constructor
  case mp =>
    intro hclean
    by_contra hzero
    exact hclean.octets ((mem_0x80_iff hcanonical.terminated).mpr (hinner.mpr hzero))
  case mpr =>
    intro hzero
    refine clean_of_lt (fun hmem => ?_) ?_
    · exact hinner.mp ((mem_0x80_iff hcanonical.terminated).mp hmem) hzero
    · rw [hvalue]
      exact Nat.lt_trans h (by decide)

-- What was written is read again, unless there is a zero digit in front of the last one of an arc.
theorem readArcs_restOctets (harcs : ∀ a ∈ arcs, a < 2 ^ 31) :
    readArcs true 0 0 (restOctets arcs) = if ∀ a ∈ arcs, NoInnerZero a then some arcs else none := by
  have hspec : ∀ a ∈ arcs, Canonical (arcOctets a false 4) ∧ Septets.value (arcOctets a false 4) = a := fun a ha =>
    arcOctets_spec (by have := harcs a ha; omega)
  have hgs : ∀ g ∈ arcs.map fun a => arcOctets a false 4, Terminated g := by
    intro g hg
    obtain ⟨a, ha, rfl⟩ := List.mem_map.mp hg
    exact (hspec a ha).1.terminated
  have hcleans : (∀ g ∈ arcs.map fun a => arcOctets a false 4, Clean g) ∧ Clean [] ↔ ∀ a ∈ arcs, NoInnerZero a := by
    rw [and_iff_left cleanFrom_nil, List.forall_mem_map]
    exact forall₂_congr fun a ha => clean_arcOctets (harcs a ha)
  obtain ⟨hclean, hnot⟩ := readArcs_flatten hgs (fun d hd => absurd hd List.not_mem_nil)
  rw [hcleans, List.append_nil, ← List.flatMap_def, ← restOctets] at hclean hnot
  split
  case isFalse h => exact hnot h
  case isTrue h =>
    have hvalues : arcs.map (fun a => Septets.value (arcOctets a false 4) % 2 ^ 32) = arcs := by
      rw [List.map_congr_left fun a ha => ?_, List.map_id]
      rw [(hspec a ha).2, Nat.mod_eq_of_lt (Nat.lt_trans (harcs a ha) (by decide)), id]
    rw [hclean h, List.map_map]
    exact congrArg some hvalues

def oidString (arcs : List Nat) : CString :=
  ⟨dotted arcs, nul_notMem_dotted arcs⟩

-- An object identifier is set, and is read again.
def SetThenGet (node : GNode) (arcs : List Nat) : Prop :=
  ∃ node', eggAsn1xSetOidAsString node (oidString arcs) = some (true, node') ∧
    eggAsn1xGetOidAsString node' = some (some (dotted arcs))

-- Three arcs, the second one below 40, and no zero digit in base 128 within the others.
structure ReadBack (arcs : List Nat) : Prop where
  three  : 3 ≤ arcs.length
  second : ∀ b ∈ arcs[1]?, b < 40
  inner  : ∀ a ∈ arcs.drop 2, NoInnerZero a
  counts : CountsFit arcs

theorem getOid_of_value {data behind : Bytes} (hnode : anodeDefType node = .objectId)
    (hvalue : node.data.value = some ⟨c :: data, behind⟩) :
    eggAsn1xGetOidAsString node =
      some ((readArcs true 0 0 data).map fun arcs => dotted (c.toNat / 40 :: c.toNat % 40 :: arcs)) := by
  have hmod : c.toNat - c.toNat / 40 * 40 = c.toNat % 40 := by omega
  have hdrop : (c :: data).drop 1 = data := rfl
  rw [eggAsn1xGetOidAsString, if_neg (not_not.mpr hnode), hvalue]
  dsimp only
  rw [anodeReadObjectId]
  dsimp only [List.cons_append]
  rw [hmod, hdrop]
  cases readArcs true 0 0 data
  case none => rfl
  case some => rfl

theorem setThenGet_iff (hnode : anodeDefType node = .objectId) (h : ValidOid arcs) :
    SetThenGet node arcs ↔ ReadBack arcs := by
  obtain @⟨a, b, rest, ha, hsecond, harcs⟩ := h
  have hwrite := anodeWriteObjectId_dotted (Nat.le_trans ha (by decide)) harcs
  simp only [List.forall_mem_cons] at harcs
  obtain ⟨ha', hb, hrest⟩ := harcs
  have hiff : ReadBack (a :: b :: rest) ↔ rest ≠ [] ∧ b < 40 ∧ (∀ c ∈ rest, NoInnerZero c) ∧ CountsFit (a :: b :: rest) := by
    constructor
    · rintro ⟨hthree, hb, hinner, hcounts⟩
      refine ⟨?_, by simpa using hb, hinner, hcounts⟩
      rintro rfl
      simp at hthree
    · rintro ⟨hne, hb, hinner, hcounts⟩
      have hpos := List.length_pos_of_ne_nil hne
      exact ⟨by simp only [List.length_cons]; omega, by simpa using hb, hinner, hcounts⟩
  rw [hiff, SetThenGet, eggAsn1xSetOidAsString, if_neg (not_not.mpr hnode), oidString]
  dsimp only
  rw [hwrite]
  by_cases hok : 40 * a + b < 2 ^ 31 ∧ CountsFit (a :: b :: rest)
  case neg =>
    rw [if_neg hok]
    refine iff_of_false (by simp) fun h => hok ⟨by omega, h.2.2.2⟩
  case pos =>
    rw [if_pos hok, Option.bind_eq_bind, Option.bind_some]
    by_cases hnil : rest = []
    case pos =>
      rw [if_pos hnil]
      exact iff_of_false (by simp) fun h => h.1 hnil
    case neg =>
      rw [if_neg hnil]
      simp only [Option.some.injEq, Prod.mk.injEq, true_and, exists_eq_left']
      have hbyte : (UInt8.ofNat ((40 * a + b) % 256)).toNat = (40 * a + b) % 256 := by
        rw [UInt8.toNat_ofNat', Nat.mod_mod]
      have hnode' : ∀ v, anodeDefType (node.modify (·.takeValue v)) = .objectId := fun _ => hnode
      rw [getOid_of_value (hnode' _) rfl, readArcs_restOctets hrest, hbyte, Option.some_inj]
      constructor
      case mp =>
        intro h
        split at h
        case isFalse => cases h
        case isTrue hinner =>
          have hmax : 2 ^ 31 ≤ maxUint64 := by decide
          have heq := dotted_inj ?_ ?_ (Option.some.inj h)
          · simp only [List.cons.injEq, and_true] at heq
            exact ⟨hnil, by omega, hinner, hok.2⟩
          · simp only [List.forall_mem_cons]
            exact ⟨by omega, by omega, fun c hc => by have := hrest c hc; omega⟩
          · simp only [List.forall_mem_cons]
            exact ⟨by omega, by omega, fun c hc => by have := hrest c hc; omega⟩
      case mpr =>
        rintro ⟨-, hb, hinner, -⟩
        have hsmall : (40 * a + b) % 256 = 40 * a + b := Nat.mod_eq_of_lt (by omega)
        have hdiv : (40 * a + b) / 40 = a := by omega
        have hmod : (40 * a + b) % 40 = b := by omega
        rw [if_pos hinner, hsmall, hdiv, hmod]
        rfl

end Asn1x
