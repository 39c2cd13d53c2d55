import GcrModel.Egg.Asn1x.Values
import GcrModel.Egg.Asn1x.Der

namespace Asn1x

open GLib

section Signed

variable {buf front content data s : Bytes} {i n v w value bytes : Nat} {node : GNode}

-- No octet of the number is zero.
def NoZeroOctet (n : Nat) : Prop :=
  0 ∉ Radix.digits 256 n

instance : Decidable (NoZeroOctet n) :=
  inferInstanceAs (Decidable (¬_))

theorem lastZero_none (h : lastZero buf n = none) : ∀ i < n, buf[i]? ≠ some 0 := by
  induction n with
  | zero => simp
  | succ n ih =>
    rw [lastZero] at h
    split at h
    case isTrue => simp at h
    case isFalse hn =>
      intro i hi
      obtain hlt | rfl := Nat.lt_succ_iff_lt_or_eq.mp hi
      · exact ih h i hlt
      · exact hn

theorem lastZero_some (h : lastZero buf n = some i) : i < n ∧ buf[i]? = some 0 ∧ ∀ j, i < j → j < n → buf[j]? ≠ some 0 := by
  induction n with
  | zero => simp [lastZero] at h
  | succ n ih =>
    rw [lastZero] at h
    split at h
    case isTrue hn =>
      cases h
      exact ⟨Nat.lt_succ_self _, hn, fun j hj hj' => by omega⟩
    case isFalse hn =>
      obtain ⟨hlt, hzero, hothers⟩ := ih h
      refine ⟨Nat.lt_succ_of_lt hlt, hzero, fun j hj hj' => ?_⟩
      obtain hlt' | rfl := Nat.lt_succ_iff_lt_or_eq.mp hj'
      · exact hothers j hj hlt'
      · exact hn

-- What is written of the eight octets: those behind the last zero.
inductive Trailing (buf : Bytes) : Bytes → Prop
  | all : 0 ∉ buf → Trailing buf buf
  | some {front s : Bytes} : buf = front ++ 0 :: s → 0 ∉ s → s ≠ [] → Trailing buf s
  | none {front : Bytes} : buf = front ++ [0] → Trailing buf [0]

def sign (s : Bytes) : Bytes :=
  if s.head?.any (128 ≤ ·) then 0 :: s else s

theorem length_ulongOctets (v : Nat) : (ulongOctets v).length = 8 := by
  simp [ulongOctets]

theorem ulongOctets_map (v : Nat) : (ulongOctets v).map UInt8.toNat = Radix.fixed 256 8 v := by
  rw [Radix.fixed_eq_map, ulongOctets, List.map_map]
  apply List.map_congr_left
  intro i hi
  have hlt := List.mem_range.mp hi
  rw [Function.comp_apply, UInt8.toNat_ofNat', Nat.shiftRight_eq_div_pow, Nat.pow_mul', Nat.mod_mod]

theorem trailing_drop (hlen : buf.length = 8) : Trailing buf (buf.drop (8 - writtenOctets buf)) := by
  unfold writtenOctets
  cases hz : lastZero buf 8
  case none =>
    refine .all fun hmem => ?_
    obtain ⟨i, hi, hget⟩ := List.mem_iff_getElem.mp hmem
    exact lastZero_none hz i (hlen ▸ hi) (by rw [List.getElem?_eq_getElem hi, hget])
  case some i =>
    obtain ⟨hlt, hzero, hothers⟩ := lastZero_some hz
    obtain ⟨hi, hget⟩ := List.getElem?_eq_some_iff.mp hzero
    have hsplit : buf = buf.take i ++ 0 :: buf.drop (i + 1) := by
      rw [← hget, List.getElem_cons_drop, List.take_append_drop]
    by_cases hlast : i = 7
    case pos =>
      have hdrop : buf.drop 7 = [0] := by
        rw [← List.getElem_cons_drop (by omega), List.drop_eq_nil_iff.mpr (by omega)]
        simpa [hlast] using hget
      rw [List.drop_eq_nil_iff.mpr (by omega)] at hsplit
      have h := Trailing.none hsplit
      simpa [hlast, hdrop] using h
    case neg =>
      have hne : 8 - (i + 1) ≠ 0 := by omega
      have heq : 8 - (8 - (i + 1)) = i + 1 := by omega
      simp only [if_neg hne, heq]
      refine .some hsplit (fun hmem => ?_) ?_
      · obtain ⟨j, hj, hget'⟩ := List.mem_iff_getElem.mp hmem
        rw [List.getElem_drop] at hget'
        rw [List.length_drop] at hj
        exact hothers (i + 1 + j) (by omega) (by omega) (by rw [List.getElem?_eq_getElem (by omega), hget'])
      · rw [Ne, List.drop_eq_nil_iff]
        omega

theorem anodeWriteIntegerUlong_eq (v : Nat) :
    ∃ s, Trailing (ulongOctets v) s ∧ anodeWriteIntegerUlong v = sign s :=
  ⟨_, trailing_drop (length_ulongOctets v), rfl⟩

theorem append_zeros {a b ds : List Nat} {k : Nat} (hds : 0 ∉ ds) (h : a ++ 0 :: b = List.replicate k 0 ++ ds) :
    ∃ m, b = List.replicate m 0 ++ ds := by
  induction k generalizing a with
  | zero => exact absurd (by rw [← List.nil_append ds, ← List.replicate_zero, ← h]; simp) hds
  | succ k ih =>
    rw [List.replicate_succ, List.cons_append] at h
    cases a with
    | nil      => exact ⟨k, (List.cons.inj h).2⟩
    | cons c a => exact ih (List.cons.inj h).2

theorem value_zeros (m : Nat) (ds : List Nat) : Radix.value 256 (List.replicate m 0 ++ ds) = Radix.value 256 ds := by
  induction m with
  | zero      => rfl
  | succ m ih => rw [List.replicate_succ, List.cons_append, Radix.value_cons, ih, Nat.zero_mul, Nat.zero_add]

theorem eq_zero_of_toNat {c : UInt8} (h : c.toNat = 0) : c = 0 :=
  UInt8.toNat_inj.mp h

theorem digits_number (hs : 0 ∉ s) : Radix.digits 256 (Der.number s) = s.map UInt8.toNat := by
  apply Radix.digits_value (by decide)
  · intro d hd
    obtain ⟨c, -, rfl⟩ := List.mem_map.mp hd
    exact c.toNat_lt
  · cases s with
    | nil      => simp
    | cons c s =>
      intro hzero
      obtain rfl := eq_zero_of_toNat (Option.some.inj hzero)
      exact hs List.mem_cons_self

theorem noZeroOctet_number (hs : 0 ∉ s) : NoZeroOctet (Der.number s) := by
  rw [NoZeroOctet, digits_number hs]
  intro hmem
  obtain ⟨c, hc, hzero⟩ := List.mem_map.mp hmem
  exact hs (eq_zero_of_toNat hzero ▸ hc)

-- What is written is the number if and only if it has no zero octet.
theorem Trailing.number_eq_iff (h : Trailing (ulongOctets v) s) (hv : v ≤ maxUlong) : Der.number s = v ↔ NoZeroOctet v := by
  have hbuf := ulongOctets_map v
  have hlt : v < 256 ^ 8 := Nat.lt_of_le_of_lt hv (by decide)
  have hfixed := Radix.fixed_eq_digits (show 1 < 256 by decide) hlt
  generalize ulongOctets v = buf at h hbuf
  constructor
  case mp =>
    rintro rfl
    cases h with
    | all h        => exact noZeroOctet_number h
    | some _ h _   => exact noZeroOctet_number h
    | none _       => decide
  case mpr =>
    intro hzero
    cases h with
    | all _ =>
      rw [Der.number, hbuf, Radix.value_fixed, Nat.mod_eq_of_lt hlt]
    | @some front s heq _ _ =>
      rw [heq, List.map_append, List.map_cons, hfixed] at hbuf
      obtain ⟨m, hm⟩ := append_zeros hzero hbuf
      rw [Der.number, hm, value_zeros, Radix.value_digits]
    | @none front heq =>
      rw [heq, List.map_append, hfixed] at hbuf
      obtain ⟨m, hm⟩ := append_zeros hzero hbuf
      have hnil : Radix.digits 256 v = [] := (List.append_eq_nil_iff.mp hm.symm).2
      rw [← @Radix.value_digits 256 v, hnil]
      rfl

theorem Trailing.ne_nil (h : Trailing buf s) (hlen : buf.length = 8) : s ≠ [] := by
  cases h with
  | all _      => rintro rfl; simp at hlen
  | some _ _ h => exact h
  | none _     => simp

theorem Trailing.length_le (h : Trailing buf s) (hlen : buf.length = 8) : s.length ≤ 8 := by
  cases h with
  | all _        => omega
  | some heq _ _ => rw [heq] at hlen; simp at hlen; omega
  | none _       => simp

theorem integer_sign (s : Bytes) : Der.integer (sign s) = Der.number s := by
  rw [sign]
  split
  case isTrue  => simp [Der.integer, Der.number, Radix.value_cons]
  case isFalse h => rw [Der.integer, if_neg h]

theorem Trailing.minimal (h : Trailing buf s) (hlen : buf.length = 8) : Der.Minimal (sign s) := by
  have hne := h.ne_nil hlen
  obtain ⟨c, t, rfl⟩ := List.exists_cons_of_ne_nil hne
  have hzero : c = 0 → t = [] := by
    rintro rfl
    cases h with
    | all h      => simp at h
    | some _ h _ => simp at h
    | none _     => rfl
  rw [sign]
  split
  case isTrue hc =>
    refine ⟨by simp, ?_⟩
    rintro _ _ _ ⟨⟩
    have hge : 128 ≤ c := by simpa using hc
    exact ⟨fun h => UInt8.not_lt.mpr hge h.2, by simp⟩
  case isFalse hc =>
    refine ⟨hne, ?_⟩
    rintro _ _ _ ⟨⟩
    have hlt : ¬128 ≤ c := by simpa using hc
    refine ⟨fun h => by simpa using hzero h.1, ?_⟩
    rintro ⟨rfl, -⟩
    exact hlt (by decide)

-- The content of a number is written as it must be if and only if none of its octets is zero.
theorem anodeWriteIntegerUlong_iff (hv : v ≤ maxUlong) :
    Der.Minimal (anodeWriteIntegerUlong v) ∧ Der.integer (anodeWriteIntegerUlong v) = v ↔ NoZeroOctet v := by
  obtain ⟨s, h, heq⟩ := anodeWriteIntegerUlong_eq v
  rw [heq, integer_sign, Int.natCast_inj, h.number_eq_iff hv]
  exact and_iff_right (h.minimal (length_ulongOctets v))

theorem pow_octets (k : Nat) : 256 ^ k = 2 ^ (8 * k) := by
  rw [Nat.pow_mul]

theorem number_cons (p : UInt8) (t : Bytes) : Der.number (p :: t) = p.toNat * 256 ^ t.length + Der.number t := by
  simp [Der.number, Radix.value_cons]

theorem number_lt (s : Bytes) : Der.number s < 256 ^ s.length := by
  have h := @Radix.value_lt 256 (s.map UInt8.toNat) (by simpa using fun c _ => c.toNat_lt) (by decide)
  simpa [Der.number] using h

theorem readIntegerOctets_cons {p : UInt8} {t : Bytes} (a : Nat) (hshift : t.length < 4)
    (hfit : p.toNat * 256 ^ t.length < 2 ^ 31) :
    readIntegerOctets (a * 256 ^ (t.length + 1)) (p :: t) = readIntegerOctets ((a * 256 + p.toNat) * 256 ^ t.length) t := by
  have hshl : p.toNat <<< (8 * t.length) = p.toNat * 256 ^ t.length := by rw [Nat.shiftLeft_eq, pow_octets]
  have hlt : p.toNat * 256 ^ t.length < 2 ^ (8 * (t.length + 1)) := by
    rw [← pow_octets, Nat.pow_succ']
    exact Nat.mul_lt_mul_of_pos_right p.toNat_lt (Nat.pow_pos (by decide))
  have hor := Nat.two_pow_add_eq_or_of_lt hlt a
  rw [readIntegerOctets, shiftInt, hshl, if_pos ⟨by omega, hfit⟩, Option.bind_some]
  rw [← pow_octets, Nat.mul_comm _ a] at hor
  rw [← hor, Nat.pow_succ', ← Nat.mul_assoc, ← Nat.add_mul]

theorem readIntegerOctets_eq (a : Nat) (hlen : s.length ≤ 4) (hhead : s.length = 4 → ¬s.head?.any (128 ≤ ·)) :
    readIntegerOctets (a * 256 ^ s.length) s = some (a * 256 ^ s.length + Der.number s) := by
  induction s generalizing a with
  | nil => rfl
  | cons p t ih =>
    simp only [List.length_cons] at hlen hhead ⊢
    have hfit : p.toNat * 256 ^ t.length < 2 ^ 31 := by
      have hle : p.toNat * 256 ^ t.length ≤ 255 * 256 ^ t.length := Nat.mul_le_mul_right _ (Nat.le_of_lt_succ p.toNat_lt)
      obtain hlt | heq := Nat.lt_or_eq_of_le hlen
      · have hpow : 256 ^ t.length ≤ 256 ^ 2 := Nat.pow_le_pow_right (by decide) (by omega)
        omega
      · have hp : p.toNat < 128 := by
          have h := hhead heq
          simp only [List.head?_cons, Option.any_some, decide_eq_true_eq, UInt8.not_le] at h
          exact UInt8.lt_iff_toNat_lt.mp h
        rw [show t.length = 3 by omega]
        omega
    rw [readIntegerOctets_cons a (by omega) hfit, ih _ (by omega) fun h => by omega, number_cons, Nat.pow_succ']
    congr 1
    rw [Nat.add_mul, Nat.mul_assoc, Nat.add_assoc]

theorem nonnegative_iff : 0 ≤ Der.integer content ↔ ¬content.head?.any (128 ≤ ·) := by
  have hlt : (Der.number content : Int) < 256 ^ content.length := by exact_mod_cast number_lt content
  rw [Der.integer]
  split
  case isTrue h  => simp only [h, not_true_eq_false, iff_false, Int.not_le]; omega
  case isFalse h => simp [h]

theorem integer_of_nonnegative (h : 0 ≤ Der.integer content) : Der.integer content = Der.number content :=
  if_neg ((nonnegative_iff).mp h)

theorem anodeReadIntegerUlong_eq (hne : content ≠ []) (h : 0 ≤ Der.integer content) :
    anodeReadIntegerUlong content =
      if content.length ≤ 4 then some (some (Der.number content)) else if content.length ≤ 8 then none else some none := by
  have hpos := List.length_pos_of_ne_nil hne
  unfold anodeReadIntegerUlong
  by_cases hlen : content.length ≤ 4
  case pos =>
    have heq := readIntegerOctets_eq 0 hlen fun _ => (nonnegative_iff).mp h
    rw [Nat.zero_mul, Nat.zero_add] at heq
    rw [if_neg (by omega), if_pos hlen, heq]
    rfl
  case neg =>
    rw [if_neg hlen]
    by_cases hlen' : content.length ≤ 8
    case pos =>
      obtain ⟨p, t, rfl⟩ := List.exists_cons_of_ne_nil hne
      rw [List.length_cons] at hlen
      rw [if_neg (by omega), if_pos hlen', readIntegerOctets, shiftInt, if_neg (by omega)]
      rfl
    case neg => rw [if_pos (by omega), if_neg hlen']

-- A content that is not negative is read if and only if it has no more than four octets.
theorem anodeReadIntegerUlong_iff (hne : content ≠ []) (h : Der.integer content = v) (w : Nat) :
    anodeReadIntegerUlong content = some (some w) ↔ content.length ≤ 4 ∧ w = v := by
  have hnumber : Der.number content = v := by
    have hnonneg := integer_of_nonnegative (h ▸ Int.natCast_nonneg v)
    omega
  rw [anodeReadIntegerUlong_eq hne (h ▸ Int.natCast_nonneg v), hnumber]
  split
  case isTrue hlen => simp [hlen, eq_comm]
  case isFalse hlen =>
    split
    all_goals simp [hlen]

-- A content that is as short as possible has more than four octets from 2^31 on.
theorem length_le_four_iff (hmin : Der.Minimal content) (h : Der.integer content = v) : content.length ≤ 4 ↔ v < 2 ^ 31 := by
  have hnonneg : 0 ≤ Der.integer content := h ▸ Int.natCast_nonneg v
  have hhead := (nonnegative_iff).mp hnonneg
  have hnumber : Der.number content = v := by
    have := integer_of_nonnegative hnonneg
    omega
  obtain ⟨c, t, rfl⟩ := List.exists_cons_of_ne_nil hmin.ne_nil
  have hc : c.toNat < 128 := by
    simp only [List.head?_cons, Option.any_some, decide_eq_true_eq, UInt8.not_le] at hhead
    exact UInt8.lt_iff_toNat_lt.mp hhead
  have hlt := number_lt t
  rw [number_cons] at hnumber
  constructor
  case mp =>
    intro hlen
    have hpow : 256 ^ t.length ≤ 256 ^ 3 := Nat.pow_le_pow_right (by decide) (by simp at hlen; omega)
    have hle : c.toNat * 256 ^ t.length ≤ 127 * 256 ^ t.length := Nat.mul_le_mul_right _ (by omega)
    omega
  case mpr =>
    intro hv
    by_contra hlen
    simp only [List.length_cons] at hlen
    obtain ⟨d, t, rfl⟩ : ∃ d t', t = d :: t' := List.exists_cons_of_length_pos (by omega)
    have hfirst := (hmin.first c d t rfl).1
    rw [number_cons, List.length_cons] at hnumber
    rw [List.length_cons] at hlen
    have hpow : 256 ^ 3 ≤ 256 ^ t.length := Nat.pow_le_pow_right (by decide) (by omega)
    have hsucc : 256 ^ (t.length + 1) = 256 * 256 ^ t.length := Nat.pow_succ'
    by_cases hzero : c = 0
    case pos =>
      have hd : 128 ≤ d.toNat := UInt8.le_iff_toNat_le.mp (UInt8.not_lt.mp fun h => hfirst ⟨hzero, h⟩)
      have hle : 128 * 256 ^ t.length ≤ d.toNat * 256 ^ t.length := Nat.mul_le_mul_right _ hd
      omega
    case neg =>
      have hpos : 1 ≤ c.toNat := Nat.pos_of_ne_zero fun h => hzero (eq_zero_of_toNat h)
      have hle : 1 * 256 ^ (t.length + 1) ≤ c.toNat * 256 ^ (t.length + 1) := Nat.mul_le_mul_right _ hpos
      omega

end Signed

section Unsigned

variable {node : GNode} {content data text : Bytes} {n v : Nat}

-- The content of an INTEGER, which is the one of its default where it has no value.
def integerContent (node : GNode) : Option Bytes :=
  node.data.value.map (·.data) <|> anodeDefaultInteger node

-- The content that a number must have was stored.
def Stored (node : GNode) (v : Nat) : Prop :=
  ∃ content, integerContent node = some content ∧ Der.Minimal content ∧ Der.integer content = v

-- A content of up to eight octets, or one octet more for the sign.
def UlongContent (content : Bytes) : Prop :=
  1 ≤ content.length ∧ content.length ≤ 8 ∨ content.length = 9 ∧ ∃ d s, content = 0 :: d :: s ∧ 128 ≤ d

-- The text of a default, which may be the name of a constant.
inductive DefaultText (node : GNode) : Bytes → Prop
  | number {opt : EggAsn1xDef} {text : CString} : anodeOptLookup node .default none = some opt → opt.value = some text →
    anodeOptLookup node .constant (some text) = none → DefaultText node text.bytes
  | constant {opt opt' : EggAsn1xDef} {text text' : CString} : anodeOptLookup node .default none = some opt →
    opt.value = some text → anodeOptLookup node .constant (some text) = some opt' → opt'.value = some text' →
    DefaultText node text'.bytes

structure Default (node : GNode) (text : Bytes) : Prop where
  default : (anodeDefFlags node).contains .default
  source  : DefaultText node text
  ne_nil  : text ≠ []
  digits  : ∀ c ∈ text, isdigit c

theorem anodeDefaultInteger_clrValue (node : GNode) :
    anodeDefaultInteger (node.modify (·.clrValue)) = anodeDefaultInteger node :=
  rfl

theorem integerContent_set (htype : anodeDefType node = .integer) (v : Nat) :
    integerContent (eggAsn1xSetIntegerAsUlong node v) = some (anodeWriteIntegerUlong v) := by
  rw [eggAsn1xSetIntegerAsUlong, if_neg (not_not.mpr htype)]
  dsimp only
  split
  case isTrue h  => rw [integerContent, anodeDefaultInteger_clrValue, h]; rfl
  case isFalse h => rfl

theorem anodeDefType_set (node : GNode) (v : Nat) : anodeDefType (eggAsn1xSetIntegerAsUlong node v) = anodeDefType node := by
  unfold eggAsn1xSetIntegerAsUlong
  split
  case isTrue => rfl
  case isFalse =>
    dsimp only
    split
    all_goals rfl

theorem eggAsn1xGetIntegerAsUlong_eq (htype : anodeDefType node = .integer) (h : integerContent node = some content) :
    eggAsn1xGetIntegerAsUlong node = anodeReadIntegerUlong content := by
  rw [eggAsn1xGetIntegerAsUlong, if_neg (not_not.mpr htype), ← integerContent, h]

theorem stored_iff (htype : anodeDefType node = .integer) (hv : v ≤ maxUlong) :
    Stored (eggAsn1xSetIntegerAsUlong node v) v ↔ NoZeroOctet v := by
  rw [← anodeWriteIntegerUlong_iff hv, Stored, integerContent_set htype]
  simp

theorem get_iff (htype : anodeDefType node = .integer) (hcontent : integerContent node = some content)
    (hulong : UlongContent content) (h : Der.integer content = v) :
    eggAsn1xGetIntegerAsUlong node = some (some v) ↔ content.length ≤ 4 := by
  have hne : content ≠ [] := by
    rintro rfl
    simp [UlongContent] at hulong
  rw [eggAsn1xGetIntegerAsUlong_eq htype hcontent, anodeReadIntegerUlong_iff hne h, and_iff_left rfl]

theorem get_set_iff (htype : anodeDefType node = .integer) (hv : v ≤ maxUlong) :
    eggAsn1xGetIntegerAsUlong (eggAsn1xSetIntegerAsUlong node v) = some (some v) ↔ NoZeroOctet v ∧ v < 2 ^ 31 := by
  obtain ⟨s, h, heq⟩ := anodeWriteIntegerUlong_eq v
  have hmin := h.minimal (length_ulongOctets v)
  rw [eggAsn1xGetIntegerAsUlong_eq (anodeDefType_set node v ▸ htype) (integerContent_set htype v), heq,
    anodeReadIntegerUlong_iff hmin.ne_nil (integer_sign s), length_le_four_iff hmin (integer_sign s), eq_comm (a := v),
    h.number_eq_iff hv, and_comm]
  refine and_congr_right fun hzero => ?_
  rw [(h.number_eq_iff hv).mpr hzero]

theorem anodeDefaultInteger_eq (d : Default node text) :
    anodeDefaultInteger node = some (anodeWriteIntegerUlong (min (decimal text) maxUlong)) := by
  have hread := strtoul_decimal d.ne_nil d.digits
  have hdefault := d.default
  cases d.source with
  | number hopt htext hnone =>
    simp only [anodeDefaultInteger, hdefault, hopt, htext, hnone, Option.bind_eq_bind, Option.bind_some, guard_true, hread]
    rfl
  | constant hopt htext hopt' htext' =>
    simp only [anodeDefaultInteger, hdefault, hopt, htext, hopt', htext', Option.bind_eq_bind, Option.bind_some, guard_true,
      hread]
    rfl

theorem default_iff (d : Default node text) :
    (∃ content, anodeDefaultInteger node = some content ∧ Der.integer content = decimal text) ↔
      decimal text ≤ maxUlong ∧ NoZeroOctet (decimal text) := by
  obtain ⟨s, h, heq⟩ := anodeWriteIntegerUlong_eq (min (decimal text) maxUlong)
  have hiff := h.number_eq_iff (Nat.min_le_right _ _)
  rw [anodeDefaultInteger_eq d, heq]
  simp only [Option.some.injEq, exists_eq_left', integer_sign, Int.natCast_inj]
  by_cases hle : decimal text ≤ maxUlong
  case pos =>
    rw [Nat.min_eq_left hle] at hiff
    rw [hiff, and_iff_right hle]
  case neg =>
    refine iff_of_false (fun hnumber => ?_) fun h => hle h.1
    have hlt := number_lt s
    have hpow : 256 ^ s.length ≤ 256 ^ 8 := Nat.pow_le_pow_right (by decide) (h.length_le (length_ulongOctets _))
    have hmax : 256 ^ 8 = maxUlong + 1 := by decide
    omega

-- What each part of the codec for unsigned integers gets right, and when: storing a number, reading a content, reading
-- what was stored, and the default.
theorem unsigned_iff (node : GNode) :
    (∀ v, anodeDefType node = .integer → v ≤ maxUlong →
      (Stored (eggAsn1xSetIntegerAsUlong node v) v ↔ NoZeroOctet v)) ∧
    (∀ content v, anodeDefType node = .integer → integerContent node = some content → UlongContent content →
      Der.integer content = (v : Nat) → (eggAsn1xGetIntegerAsUlong node = some (some v) ↔ content.length ≤ 4)) ∧
    (∀ v, anodeDefType node = .integer → v ≤ maxUlong →
      (eggAsn1xGetIntegerAsUlong (eggAsn1xSetIntegerAsUlong node v) = some (some v) ↔ NoZeroOctet v ∧ v < 2 ^ 31)) ∧
    (∀ text, Default node text →
      ((∃ content, anodeDefaultInteger node = some content ∧ Der.integer content = decimal text) ↔
        decimal text ≤ maxUlong ∧ NoZeroOctet (decimal text))) :=
  ⟨fun _ => stored_iff, fun _ _ => get_iff, fun _ => get_set_iff, fun _ => default_iff⟩

-- An INTEGER with a default of 5.
def exampleInteger : GNode :=
  .mk {
    adef := ⟨some (.of (ascii "version".toList)), .integer, [.default], none⟩
    opts := [⟨none, .default, [], some (.of (ascii "5".toList))⟩] } []

-- 256 is stored as 0.
theorem not_stored : ¬∀ node v, anodeDefType node = .integer → v ≤ maxUlong → Stored (eggAsn1xSetIntegerAsUlong node v) v := by
  intro h
  obtain ⟨content, hcontent, -, hinteger⟩ := h exampleInteger 256 rfl (by decide)
  obtain rfl : content = [0] := by simpa using hcontent.symm.trans (show _ = some [0] by decide)
  exact absurd hinteger (by decide)

theorem unsigned_iff_exampleInteger :
    Stored (eggAsn1xSetIntegerAsUlong exampleInteger 258) 258 ∧
    eggAsn1xGetIntegerAsUlong (exampleInteger.modify (·.takeValue ⟨[0, 0xFF, 0], []⟩)) = some (some 65280) ∧
    eggAsn1xGetIntegerAsUlong (eggAsn1xSetIntegerAsUlong exampleInteger 258) = some (some 258) ∧
    ∃ content, anodeDefaultInteger exampleInteger = some content ∧ Der.integer content = 5 := by
  obtain ⟨hset, -, hboth, hdefault⟩ := unsigned_iff exampleInteger
  obtain ⟨-, hget, -, -⟩ := unsigned_iff (exampleInteger.modify (·.takeValue ⟨[0, 0xFF, 0], []⟩))
  have hzero : NoZeroOctet 258 := by simp [NoZeroOctet, Radix.digits]
  refine ⟨(hset _ rfl (by decide)).mpr hzero, (hget [0, 0xFF, 0] _ rfl rfl (.inl (by decide)) (by decide)).mpr (by decide),
    (hboth _ rfl (by decide)).mpr ⟨hzero, by decide⟩, ?_⟩
  have d : Default exampleInteger (CString.of (ascii "5".toList)).bytes := by
    exact ⟨by decide, .number rfl rfl rfl, by decide, by decide +kernel⟩
  have h := hdefault _ d
  rw [show decimal (CString.of (ascii "5".toList)).bytes = 5 by decide] at h
  exact h.mpr ⟨by decide, by simp [NoZeroOctet, Radix.digits]⟩

end Unsigned

end Asn1x
