import GcrModel.Egg.Asn1x.Values

namespace Asn1x

open GLib

variable {kind : TimeKind} {ds s t zone behind c : Bytes} {x z : UInt8} {tm : Tm} {n p : Nat}

def pairs : Bytes → List Nat
  | c :: d :: s => decimal [c, d] :: pairs s
  | _           => []

-- The fields behind the year.
def pairFields : List (Tm → Int → Tm) :=
  [fun tm v => { tm with mon := v - 1 }, fun tm v => { tm with mday := v }, fun tm v => { tm with hour := v },
    fun tm v => { tm with min := v }, fun tm v => { tm with sec := v }]

def setFields : List (Tm → Int → Tm) → List Nat → Tm → Tm
  | set :: sets, v :: vs, tm => setFields sets vs (set tm v)
  | _,           _,       tm => tm

-- The fields that digits give in their order. The others have their defaults.
def dateTime (kind : TimeKind) (ds : Bytes) : Tm :=
  if kind.yearDigits ≤ ds.length then
    setFields pairFields (pairs (ds.drop kind.yearDigits)) { year := kind.year (decimal (ds.take kind.yearDigits)) }
  else
    setFields pairFields (pairs ds) {}

structure DateTime (kind : TimeKind) (ds : Bytes) : Prop where
  even    : ds.length % 2 = 0
  fields  : ds.length ≤ kind.yearDigits + 10
  inRange : (dateTime kind ds).inRange

def Sign (z : UInt8) : Prop :=
  z = 45 ∨ z = 43

def Hours (c d : UInt8) : Prop :=
  isdigit c ∧ isdigit d ∧ decimal [c, d] ≤ 24

instance (z : UInt8) : Decidable (Sign z) :=
  inferInstanceAs (Decidable (_ ∨ _))

instance (c d : UInt8) : Decidable (Hours c d) :=
  inferInstanceAs (Decidable (_ ∧ _))

instance (kind : TimeKind) (ds : Bytes) : Decidable (DateTime kind ds) :=
  decidable_of_iff (ds.length % 2 = 0 ∧ ds.length ≤ kind.yearDigits + 10 ∧ (dateTime kind ds).inRange)
    ⟨fun ⟨h, h', h''⟩ => ⟨h, h', h''⟩, fun ⟨h, h', h''⟩ => ⟨h, h', h''⟩⟩

inductive Zone : Bytes → Prop
  | none : Zone []
  | utc : Zone [90]
  | hours {z h h' : UInt8} : Sign z → Hours h h' → Zone [z, h, h']
  | minutes {z h h' m m' : UInt8} : Sign z → Hours h h' → isdigit m → isdigit m' → Zone [z, h, h', m, m']

inductive Fraction : Bytes → Prop
  | none : Fraction []
  | some {s : Bytes} : s.length = 4 → Fraction (46 :: s)

inductive TimeGrammar (kind : TimeKind) : Bytes → Prop
  | mk {ds fraction zone : Bytes} : (∀ d ∈ ds, isdigit d) → DateTime kind ds → Fraction fraction → Zone zone →
    TimeGrammar kind (ds ++ fraction ++ zone)

-- A time is judged by its own bytes, and nothing but what the grammar has is accepted.
structure Judged (parse : Bytes → Nat → Tm → Int → Option TimeResult) (kind : TimeKind) (c : Bytes) : Prop where
  own     : ∀ behind behind' tm offset, parse (c ++ behind) c.length tm offset = parse (c ++ behind') c.length tm offset
  grammar : ∀ behind tm offset verdict tm' offset',
    parse (c ++ behind) c.length tm offset = some (verdict, tm', offset') → verdict ≠ 0 → TimeGrammar kind c

-- What follows the digits and the fraction.
def zoneBytes (x : UInt8) (s : Bytes) : Bytes :=
  if x = 46 ∧ 4 ≤ s.length then s.drop 4 else x :: s

-- There is something behind the digits and the fraction, and what looks like a time zone is one.
structure Zoned (zone : Bytes) : Prop where
  ne_nil  : zone ≠ []
  hours   : ∀ z h h' t, zone = z :: h :: h' :: t → Sign z → Hours h h'
  minutes : ∀ z h h' m m', zone = [z, h, h', m, m'] → Sign z → isdigit m ∧ isdigit m'

def WellTimed (kind : TimeKind) (c : Bytes) : Prop :=
  c.length < kind.least ∨ kind.limit ≤ c.length ∨
    ∃ ds x s, c = ds ++ x :: s ∧ (∀ d ∈ ds, isdigit d) ∧ ¬isdigit x ∧ (DateTime kind ds → Zoned (zoneBytes x s))

theorem nextField_nil {set : Tm → Int → Tm} : nextField 2 set ([], tm) = some ([], tm) :=
  rfl

theorem nextField_singleton {set : Tm → Int → Tm} : nextField 2 set ([x], tm) = some ([x], tm) :=
  rfl

theorem nextField_pair {set : Tm → Int → Tm} (hx : isdigit x) (hz : isdigit z) :
    nextField 2 set (x :: z :: s, tm) = some (s, set tm (decimal [x, z])) := by
  rw [nextField, if_pos (by simp), atoin_two, if_pos ⟨hx, hz⟩]
  rfl

theorem nextField_year (set : Tm → Int → Tm) (hs : ∀ d ∈ ds, isdigit d) (hle : kind.yearDigits ≤ ds.length) :
    nextField kind.yearDigits set (ds, tm) =
      some (ds.drop kind.yearDigits, set tm (decimal (ds.take kind.yearDigits))) := by
  have htake : ∀ d ∈ ds.take kind.yearDigits, isdigit d := fun d hd => hs d (List.mem_of_mem_take hd)
  have hlen : (ds.take kind.yearDigits).length = kind.yearDigits := by simp [hle]
  have hfew := kind.few
  have hpow : 10 ^ kind.yearDigits < 2 ^ 31 := pow_lt_of_lt (by omega)
  have hlt := decimal_lt htake
  rw [hlen] at hlt
  have heq := atoin_eq htake (by omega) (by omega) (ds.drop kind.yearDigits)
  rw [List.take_append_drop, hlen] at heq
  rw [nextField, if_pos hle, heq]
  rfl

-- Fields of two digits, one after the other.
theorem nextFields_eq (sets : List (Tm → Int → Tm)) (hs : ∀ d ∈ s, isdigit d) (tm : Tm) :
    ∃ left, sets.foldlM (fun s set => nextField 2 set s) (s, tm) = some (left, setFields sets (pairs s) tm) ∧
      (left = [] ↔ s.length % 2 = 0 ∧ s.length ≤ 2 * sets.length) := by
  induction sets generalizing s tm with
  | nil => exact ⟨s, rfl, by simp [← List.length_eq_zero_iff]; omega⟩
  | cons set sets ih =>
    rw [List.foldlM_cons]
    match s with
    | [] =>
      obtain ⟨left, heq, hleft⟩ := ih hs tm
      exact ⟨left, by simpa [nextField_nil, pairs, setFields] using heq, by simpa using hleft⟩
    | [x] =>
      obtain ⟨left, heq, hleft⟩ := ih hs tm
      exact ⟨left, by simpa [nextField_singleton, pairs, setFields] using heq, by simpa using hleft⟩
    | x :: z :: s =>
      simp only [List.forall_mem_cons] at hs
      obtain ⟨left, heq, hleft⟩ := ih hs.2.2 (set tm (decimal [x, z]))
      refine ⟨left, ?_, hleft.trans ?_⟩
      · rw [nextField_pair hs.1 hs.2.1]
        exact heq
      · simp only [List.length_cons]
        omega

theorem readFields_eq_foldlM : readFields kind ds =
    (nextField kind.yearDigits (fun tm v => { tm with year := kind.year v }) (ds, {})).bind fun s =>
      pairFields.foldlM (fun s set => nextField 2 set s) s := by
  simp only [readFields, pairFields, List.foldlM_cons, List.foldlM_nil, bind_pure]
  rfl

-- All digits are used up if and only if there are no more than the fields have, and an even number.
theorem readFields_eq (hs : ∀ d ∈ ds, isdigit d) :
    ∃ left, readFields kind ds = some (left, dateTime kind ds) ∧
      (left = [] ↔ ds.length % 2 = 0 ∧ ds.length ≤ kind.yearDigits + 10) := by
  have heven := kind.even
  rw [readFields_eq_foldlM, dateTime]
  by_cases hle : kind.yearDigits ≤ ds.length
  case pos =>
    obtain ⟨left, heq, hleft⟩ := nextFields_eq pairFields (fun d hd => hs d (List.mem_of_mem_drop hd))
      { year := kind.year (decimal (ds.take kind.yearDigits)) }
    rw [nextField_year _ hs hle, if_pos hle]
    refine ⟨left, heq, hleft.trans ?_⟩
    rw [List.length_drop, pairFields]
    simp only [List.length_cons, List.length_nil]
    omega
  case neg =>
    obtain ⟨left, heq, hleft⟩ := nextFields_eq pairFields hs {}
    rw [nextField, if_neg hle, if_neg hle]
    refine ⟨left, heq, hleft.trans ?_⟩
    rw [pairFields]
    simp only [List.length_cons, List.length_nil]
    have hfew := kind.few
    omega

theorem leadingDigits_stop (hs : ∀ d ∈ ds, isdigit d) (hx : ¬isdigit x) : leadingDigits (ds ++ x :: s) = some ds := by
  induction ds with
  | nil => simp [leadingDigits, hx]
  | cons d ds ih =>
    simp only [List.forall_mem_cons] at hs
    simp [leadingDigits, hs.1, ih hs.2]

theorem leadingDigits_end (hs : ∀ d ∈ ds, isdigit d) : leadingDigits ds = none := by
  induction ds with
  | nil => rfl
  | cons d ds ih =>
    simp only [List.forall_mem_cons] at hs
    simp [leadingDigits, hs.1, ih hs.2]

theorem exists_split (c : Bytes) :
    (∀ d ∈ c, isdigit d) ∨ ∃ ds x s, c = ds ++ x :: s ∧ (∀ d ∈ ds, isdigit d) ∧ ¬isdigit x := by
  induction c with
  | nil => exact .inl (by simp)
  | cons d c ih =>
    by_cases hd : isdigit d
    case neg => exact .inr ⟨[], d, c, rfl, by simp, hd⟩
    case pos =>
      obtain h | ⟨ds, x, s, rfl, hs, hx⟩ := ih
      · exact .inl (by simpa [hd] using h)
      · exact .inr ⟨d :: ds, x, s, rfl, by simpa [hd] using hs, hx⟩

theorem split_unique {ds' s' : Bytes} {x' : UInt8} (hs : ∀ d ∈ ds, isdigit d) (hx : ¬isdigit x)
    (hs' : ∀ d ∈ ds', isdigit d) (hx' : ¬isdigit x') (h : ds ++ x :: s = ds' ++ x' :: s') :
    ds = ds' ∧ x = x' ∧ s = s' := by
  have hstop := leadingDigits_stop (s := s) hs hx
  rw [h, leadingDigits_stop hs' hx'] at hstop
  obtain rfl : ds' = ds := Option.some.inj hstop
  obtain ⟨rfl, rfl⟩ := List.cons.inj (List.append_cancel_left h)
  exact ⟨rfl, rfl, rfl⟩

-- What is made of the bytes of a zone, where there are any.
def judgeZone (tm : Tm) (z : UInt8) : Bytes → TimeResult
  | h :: h' :: t =>
    if z = 90 ∨ ¬Sign z then (0, tm, 0)
    else if ¬Hours h h' then (-1, tm, 0)
    else
      let off : Int := decimal [h, h'] * 3600
      let signed (off : Int) : Int := if z = 45 then 0 - off else off
      match t with
      | []          => (1, tm, signed off)
      | [m, m']     => (1, tm, signed (off + (if isdigit m ∧ isdigit m' then (decimal [m, m'] : Int) else -1) * 60))
      | m :: m' :: _ => (0, tm, signed (off + (if isdigit m ∧ isdigit m' then (decimal [m, m'] : Int) else -1) * 60))
      | _           => (0, tm, signed off)
  | t => (if z = 90 ∧ t = [] then 1 else 0, tm, 0)

theorem off_range_iff {h h' : UInt8} (off : Int) (heq : off = if isdigit h ∧ isdigit h' then (decimal [h, h'] : Int) else -1) :
    off * 3600 < 0 ∨ 86400 < off * 3600 ↔ ¬Hours h h' := by
  rw [Hours, ← and_assoc]
  split at heq
  case isTrue hdigit =>
    simp only [hdigit, and_self, true_and]
    omega
  case isFalse hdigit =>
    simp only [hdigit, false_and, not_false_eq_true, iff_true]
    omega

theorem readZone_short (before : Bytes) (ht : t.length < 2) :
    readZone (before ++ z :: (t ++ behind)) (before.length + (1 + t.length)) before.length tm =
      some (judgeZone tm z t) := by
  have hget : (before ++ z :: (t ++ behind))[before.length]? = some z := by simp
  rw [readZone, hget]
  dsimp only
  match t with
  | [] =>
    by_cases hz : z = 90
    case pos => simp [hz, judgeZone]
    case neg => simp [hz, judgeZone]
  | [h] =>
    by_cases hz : z = 90
    case pos => simp [hz, judgeZone]
    case neg => simp [hz, judgeZone]

theorem readZone_long (before : Bytes) (h h' : UInt8) (t : Bytes) :
    readZone (before ++ z :: h :: h' :: (t ++ behind)) (before.length + (t.length + 3)) before.length tm =
      some (judgeZone tm z (h :: h' :: t)) := by
  have hget : (before ++ z :: h :: h' :: (t ++ behind))[before.length]? = some z := by simp
  have hhours : (before ++ z :: h :: h' :: (t ++ behind)).drop (before.length + 1) = h :: h' :: (t ++ behind) := by
    rw [List.drop_append, List.drop_eq_nil_of_le (by omega)]
    simp
  have hminutes : (before ++ z :: h :: h' :: (t ++ behind)).drop (before.length + 3) = t ++ behind := by
    rw [List.drop_append, List.drop_eq_nil_of_le (by omega)]
    simp
  rw [readZone, hget, judgeZone]
  dsimp only
  by_cases hz : z = 90
  case pos =>
    rw [if_pos ⟨by omega, hz⟩, if_neg (by omega), if_pos (.inl hz)]
  case neg =>
    rw [if_neg fun hand => hz hand.2]
    by_cases hsign : Sign z
    case neg =>
      rw [if_neg fun hand => hsign hand.1, if_neg (by omega), if_pos (.inr hsign)]
    case pos =>
      have hnot : ¬(z = 90 ∨ ¬Sign z) := by simp [hz, hsign]
      rw [if_pos ⟨hsign, by omega⟩, if_neg hnot, hhours, atoin_two, Option.bind_eq_bind, Option.bind_some, hminutes]
      simp only [off_range_iff _ rfl]
      by_cases hhour : Hours h h'
      case neg => rw [if_pos hhour, if_pos hhour]
      case pos =>
        have hdigits : isdigit h ∧ isdigit h' := ⟨hhour.1, hhour.2.1⟩
        rw [if_neg (not_not.mpr hhour), if_neg (not_not.mpr hhour)]
        simp only [if_pos hdigits]
        match t with
        | []                => simp
        | [m]               => simp
        | [m, m']           => simp [atoin_two]
        | m :: m' :: k :: t => simp [atoin_two]

theorem Sign.ne_utc (h : Sign z) : z ≠ 90 := by
  rintro rfl
  simp [Sign] at h

-- What is accepted is a zone if and only if what looks like one is one.
theorem judgeZone_iff (tm : Tm) (z : UInt8) (t : Bytes) :
    ((judgeZone tm z t).1 ≠ 0 → Zone (z :: t)) ↔ Zoned (z :: t) := by
  match t with
  | [] =>
    refine iff_of_true (fun h => ?_) ⟨by simp, by simp, by simp⟩
    obtain rfl : z = 90 := by simpa [judgeZone] using h
    exact .utc
  | [h] => exact iff_of_true (by simp [judgeZone]) ⟨by simp, by simp, by simp⟩
  | h :: h' :: t =>
    by_cases hsign : Sign z
    case neg =>
      refine iff_of_true (by simp [judgeZone, hsign]) ⟨by simp, ?_, ?_⟩
      · rintro _ _ _ _ ⟨⟩ hz
        exact absurd hz hsign
      · rintro _ _ _ _ _ ⟨⟩ hz
        exact absurd hz hsign
    case pos =>
      have hnot : ¬(z = 90 ∨ ¬Sign z) := by simp [hsign, hsign.ne_utc]
      rw [judgeZone, if_neg hnot]
      by_cases hhour : Hours h h'
      case neg =>
        rw [if_pos hhour]
        refine iff_of_false (fun hzone => ?_) fun hzoned => hhour (hzoned.hours _ _ _ _ rfl hsign)
        cases hzone (by simp) with
        | hours _ hgood       => exact hhour hgood
        | minutes _ hgood _ _ => exact hhour hgood
      case pos =>
        rw [if_neg (not_not.mpr hhour)]
        have hours : ∀ y k k' s, z :: h :: h' :: t = y :: k :: k' :: s → Sign y → Hours k k' := by
          rintro _ _ _ _ ⟨⟩ _
          exact hhour
        match t with
        | []  => exact iff_of_true (fun _ => .hours hsign hhour) ⟨by simp, hours, by simp⟩
        | [m] => exact iff_of_true (by simp) ⟨by simp, hours, by simp⟩
        | [m, m'] =>
          constructor
          · intro hzone
            refine ⟨by simp, hours, ?_⟩
            rintro _ _ _ _ _ ⟨⟩ _
            cases hzone (by simp) with
            | minutes _ _ hm hm' => exact ⟨hm, hm'⟩
          · intro hzoned _
            have hm := hzoned.minutes _ _ _ _ _ rfl hsign
            exact .minutes hsign hhour hm.1 hm.2
        | m :: m' :: k :: t => exact iff_of_true (by simp) ⟨by simp, hours, by simp⟩

-- The digits, the fraction and the zone of a time are where the first byte that is no digit says.
theorem timeGrammar_iff (hs : ∀ d ∈ ds, isdigit d) (hx : ¬isdigit x) :
    TimeGrammar kind (ds ++ x :: s) ↔ DateTime kind ds ∧ Zone (zoneBytes x s) := by
  constructor
  case mp =>
    intro h
    generalize hc : ds ++ x :: s = c at h
    obtain @⟨ds', fraction, zone, hs', hdate, hfraction, hzone⟩ := h
    rw [List.append_assoc] at hc
    cases hfraction with
    | none =>
      have hhead : ∀ y u, zone = y :: u → ¬isdigit y ∧ y ≠ 46 := by
        rintro y u rfl
        cases hzone with
        | utc => decide
        | hours hz _ => obtain rfl | rfl := hz <;> decide
        | minutes hz _ _ _ => obtain rfl | rfl := hz <;> decide
      rw [List.nil_append] at hc
      cases zone with
      | nil =>
        rw [List.append_nil] at hc
        exact absurd (hs' x (by simp [← hc])) hx
      | cons y u =>
        obtain ⟨hy, hdot⟩ := hhead y u rfl
        obtain ⟨rfl, rfl, rfl⟩ := split_unique hs hx hs' hy hc
        rw [zoneBytes, if_neg fun hand => hdot hand.1]
        exact ⟨hdate, hzone⟩
    | @some four hfour =>
      rw [List.cons_append] at hc
      obtain ⟨rfl, rfl, rfl⟩ := split_unique hs hx hs' (by decide) hc
      rw [zoneBytes, if_pos ⟨rfl, by simp [hfour]⟩, List.drop_left' hfour]
      exact ⟨hdate, hzone⟩
  case mpr =>
    rintro ⟨hdate, hzone⟩
    rw [zoneBytes] at hzone
    split at hzone
    case isTrue hdot =>
      obtain ⟨rfl, hfour⟩ := hdot
      have h := TimeGrammar.mk hs hdate (.some (s := s.take 4) (by simp [hfour])) hzone
      rw [List.append_assoc, List.cons_append, List.take_append_drop] at h
      exact h
    case isFalse =>
      have h := TimeGrammar.mk hs hdate .none hzone
      rwa [List.append_nil] at h

theorem parseTime_of_outside (hc : c.length < kind.least ∨ kind.limit ≤ c.length) (offset : Int) :
    parseTime kind (c ++ behind) c.length tm offset = some (0, tm, offset) :=
  if_pos hc

-- A byte that is no digit ends the digits, wherever it is.
theorem parseTime_digits (hc : ¬(c.length < kind.least ∨ kind.limit ≤ c.length)) (offset : Int)
    (hs : ∀ d ∈ ds, isdigit d) (hx : ¬isdigit x) (hmem : c ++ behind = ds ++ x :: s) :
    parseTime kind (c ++ behind) c.length tm offset =
      if DateTime kind ds then
        readZone (c ++ behind) c.length
          (if ds.length < c.length ∧ x = 46 ∧ ds.length + 5 ≤ c.length then ds.length + 5 else ds.length)
          (dateTime kind ds)
      else some (0, dateTime kind ds, 0) := by
  obtain ⟨left, heq, hleft⟩ := @readFields_eq kind ds hs
  have hstop := leadingDigits_stop (s := s) hs hx
  have hget : (c ++ behind)[ds.length]? = some x := by simp [hmem]
  rw [← hmem] at hstop
  rw [parseTime, if_neg hc, hstop, Option.bind_eq_bind, Option.bind_some, heq, Option.bind_eq_bind,
    Option.bind_some]
  dsimp only
  rw [hget]
  by_cases hdate : DateTime kind ds
  case pos =>
    have hnot : ¬(¬(dateTime kind ds).inRange ∨ left ≠ []) := by
      simp [hdate.inRange, hleft.mpr ⟨hdate.even, hdate.fields⟩]
    rw [if_neg hnot, if_pos hdate]
    simp only [Option.some.injEq]
  case neg =>
    have hbad : ¬(dateTime kind ds).inRange ∨ left ≠ [] := by
      by_contra hgood
      obtain ⟨hrange, hnil⟩ : (dateTime kind ds).inRange ∧ left = [] := by simpa using hgood
      have heven := hleft.mp hnil
      exact hdate ⟨heven.1, heven.2, hrange⟩
    rw [if_pos hbad, if_neg hdate]

theorem readZone_end_nil (c : Bytes) (tm : Tm) : readZone (c ++ []) c.length c.length tm = none := by
  simp [readZone]

theorem readZone_end_cons (c : Bytes) (z : UInt8) (tm : Tm) :
    readZone (c ++ [z]) c.length c.length tm = some (1, tm, 0) := by
  simp [readZone]

theorem readZone_zone (before : Bytes) (z : UInt8) (t behind : Bytes) (tm : Tm) :
    readZone (before ++ z :: t ++ behind) (before ++ z :: t).length before.length tm = some (judgeZone tm z t) := by
  rw [List.append_assoc, List.cons_append, List.length_append, List.length_cons]
  match t with
  | [] => exact readZone_short before (by simp)
  | [h] => exact readZone_short before (by simp)
  | h :: h' :: t => exact readZone_long before h h' t

-- Where the zone starts.
theorem exists_before (ds : Bytes) (x : UInt8) (s : Bytes) : ∃ before, ds ++ x :: s = before ++ zoneBytes x s ∧
    before.length = if ds.length < (ds ++ x :: s).length ∧ x = 46 ∧ ds.length + 5 ≤ (ds ++ x :: s).length then
      ds.length + 5 else ds.length := by
  rw [zoneBytes, List.length_append, List.length_cons]
  by_cases hdot : x = 46 ∧ 4 ≤ s.length
  case pos =>
    rw [if_pos hdot, if_pos ⟨by omega, hdot.1, by omega⟩]
    refine ⟨ds ++ x :: s.take 4, by simp, ?_⟩
    simp [hdot.2]
  case neg =>
    rw [if_neg hdot, if_neg fun hand => hdot ⟨hand.2.1, by omega⟩]
    exact ⟨ds, rfl, rfl⟩

theorem parseTime_of_digits (hc : ∀ d ∈ c, isdigit d) (hlen : ¬(c.length < kind.least ∨ kind.limit ≤ c.length))
    (offset : Int) : parseTime kind (c ++ []) c.length tm offset = none := by
  rw [parseTime, if_neg hlen, List.append_nil, leadingDigits_end hc]
  rfl

-- The end of nothing but digits depends on what follows them.
theorem not_judged_of_digits (hc : ∀ d ∈ c, isdigit d) (hlen : ¬(c.length < kind.least ∨ kind.limit ≤ c.length)) :
    ¬Judged (parseTime kind) kind c := by
  intro h
  have hown := h.own [] [32] {} 0
  rw [parseTime_of_digits hc hlen, parseTime_digits hlen 0 hc (by decide) rfl] at hown
  split at hown
  case isTrue  => rw [if_neg fun hand => Nat.lt_irrefl _ hand.1, readZone_end_cons] at hown; cases hown
  case isFalse => cases hown

theorem parseTime_split (hlen : ¬((ds ++ x :: s).length < kind.least ∨ kind.limit ≤ (ds ++ x :: s).length))
    (hs : ∀ d ∈ ds, isdigit d) (hx : ¬isdigit x) :
    ∃ before, ds ++ x :: s = before ++ zoneBytes x s ∧ ∀ behind tm offset,
      parseTime kind (ds ++ x :: s ++ behind) (ds ++ x :: s).length tm offset =
        if DateTime kind ds then
          readZone (before ++ zoneBytes x s ++ behind) (before ++ zoneBytes x s).length before.length (dateTime kind ds)
        else some (0, dateTime kind ds, 0) := by
  obtain ⟨before, heq, hbefore⟩ := exists_before ds x s
  refine ⟨before, heq, fun behind tm offset => ?_⟩
  have hmem : ds ++ x :: s ++ behind = ds ++ x :: (s ++ behind) := by simp
  rw [parseTime_digits hlen offset hs hx hmem, ← hbefore, ← heq]

theorem judged_iff_zoned (hlen : ¬((ds ++ x :: s).length < kind.least ∨ kind.limit ≤ (ds ++ x :: s).length))
    (hs : ∀ d ∈ ds, isdigit d) (hx : ¬isdigit x) :
    Judged (parseTime kind) kind (ds ++ x :: s) ↔ (DateTime kind ds → Zoned (zoneBytes x s)) := by
  obtain ⟨before, heq, hparse⟩ := parseTime_split hlen hs hx
  by_cases hdate : DateTime kind ds
  case neg =>
    refine iff_of_true ⟨?_, ?_⟩ fun h => absurd h hdate
    · intro behind behind' tm offset
      rw [hparse, hparse, if_neg hdate, if_neg hdate]
    · intro behind tm offset verdict tm' offset' h hverdict
      rw [hparse, if_neg hdate] at h
      cases h
      exact absurd rfl hverdict
  case pos =>
    simp only [if_pos hdate] at hparse
    cases hzone : zoneBytes x s with
    | nil =>
      rw [hzone, List.append_nil] at hparse
      refine iff_of_false (fun h => ?_) fun h => (h hdate).ne_nil rfl
      have hown := h.own [] [32] {} 0
      rw [hparse, hparse, readZone_end_nil, readZone_end_cons] at hown
      cases hown
    | cons z t =>
      simp only [hzone, readZone_zone] at hparse
      have hgrammar := @timeGrammar_iff kind ds s x hs hx
      rw [hzone] at hgrammar
      rw [forall_prop_of_true hdate, ← judgeZone_iff (dateTime kind ds)]
      constructor
      · intro h hverdict
        exact (hgrammar.mp (h.grammar [] {} 0 _ _ _ (hparse _ _ _) hverdict)).2
      · intro hzoned
        refine ⟨fun behind behind' tm offset => ?_, ?_⟩
        · rw [hparse, hparse]
        · intro behind tm offset verdict tm' offset' h hverdict
          rw [hparse] at h
          refine hgrammar.mpr ⟨hdate, hzoned ?_⟩
          rwa [Option.some.inj h]

theorem judged_iff (kind : TimeKind) (c : Bytes) : Judged (parseTime kind) kind c ↔ WellTimed kind c := by
  by_cases hlen : c.length < kind.least ∨ kind.limit ≤ c.length
  case pos =>
    refine iff_of_true ⟨?_, ?_⟩ (or_assoc.mp (.inl hlen))
    · intro behind behind' tm offset
      rw [parseTime_of_outside hlen, parseTime_of_outside hlen]
    · intro behind tm offset verdict tm' offset' h hverdict
      rw [parseTime_of_outside hlen] at h
      cases h
      exact absurd rfl hverdict
  case neg =>
    rw [WellTimed, ← or_assoc, or_iff_right hlen]
    constructor
    case mp =>
      intro h
      obtain hall | ⟨ds, x, s, rfl, hs, hx⟩ := exists_split c
      · exact absurd h (not_judged_of_digits hall hlen)
      · exact ⟨ds, x, s, rfl, hs, hx, (judged_iff_zoned hlen hs hx).mp h⟩
    case mpr =>
      rintro ⟨ds, x, s, rfl, hs, hx, hzoned⟩
      exact (judged_iff_zoned hlen hs hx).mpr hzoned

-- A time is judged by its own bytes and by the grammar if and only if there is a byte that ends its digits, and what
-- follows them and a fraction is not nothing, and is a time zone where it looks like one.
theorem times_judged_iff (now : Nat) (c : Bytes) :
    (Judged (parseUtcTime now) (utcTime now) c ↔ WellTimed (utcTime now) c) ∧
    (Judged parseGeneralTime generalTime c ↔ WellTimed generalTime c) :=
  ⟨judged_iff (utcTime now) c, judged_iff generalTime c⟩

-- The first second of 1999, with a digit behind it or none.
theorem times_not_judged : ¬∀ now c, Judged (parseUtcTime now) (utcTime now) c ∧ Judged parseGeneralTime generalTime c := by
  intro h
  have hown := (h 126 (ascii "990101000000".toList)).1.own [0x30, 0x20] [0x20] {} 0
  revert hown
  decide +kernel

end Asn1x
