import GcrModel.Egg.Hex.Hex

namespace Hex

open GLib Loop

variable {delim : Option CString} {group part n : Nat} {data s t rest result v w d lead : Bytes} {b c : UInt8}
variable {state : Int} {digit digit' : UInt8 → Option Nat} {trailing : Bool}

-- The value of a hexadecimal digit.
def hexValue (c : UInt8) : Option Nat :=
  if 48 ≤ c ∧ c ≤ 57 then some (c.toNat - 48)
  else if 65 ≤ c ∧ c ≤ 70 then some (c.toNat - 55)
  else if 97 ≤ c ∧ c ≤ 102 then some (c.toNat - 87)
  else none

-- What is taken for a digit.
def position (c : UInt8) : Option Nat :=
  (strchr hexcUpper (asciiToupper c)).map (· &&& 0xF)

-- Two digits for each byte.
inductive Pairs (digit : UInt8 → Option Nat) : Bytes → Bytes → Prop
  | nil : Pairs digit [] []
  | cons {b c : UInt8} {i j : Nat} {t v : Bytes} : digit b = some i → digit c = some j → Pairs digit t v →
    Pairs digit (b :: c :: t) (UInt8.ofNat (16 * i + j) :: v)

-- Groups of bytes behind what leads the first one. All but the last one are complete, and there may be a delimiter behind them.
inductive Groups (digit : UInt8 → Option Nat) (trailing : Bool) (d : Bytes) (group : Nat) : Bytes → Bytes → Bytes → Prop
  | nil {lead : Bytes} : Groups digit trailing d group lead [] []
  | group {lead t v s w : Bytes} : Pairs digit t v → v.length = group → Groups digit trailing d group d s w →
    Groups digit trailing d group lead (lead ++ t ++ s) (v ++ w)
  | last {lead t v : Bytes} : Pairs digit t v → v ≠ [] → v.length < group → Groups digit trailing d group lead (lead ++ t) v
  | trailing {lead : Bytes} : trailing = true → Groups digit trailing d group lead lead []

def delimiter (delim : Option CString) : Bytes :=
  delim.elim [] (·.bytes)

-- Pairs of digits with the delimiter between complete groups, and nowhere else.
def HexText (delim : Option CString) (group : Nat) (s v : Bytes) : Prop :=
  Groups hexValue false (delimiter delim) group [] s v

-- A NUL is a digit too, and a delimiter may be behind the last group, if that is complete.
def LaxText (delim : Option CString) (group : Nat) (s v : Bytes) : Prop :=
  Groups position true (delimiter delim) group [] s v

theorem position_eq (c : UInt8) : position c = if c = 0 then some 0 else hexValue c := by
  have hall : ∀ c : Fin 256, position (UInt8.ofNat c.val) =
      if UInt8.ofNat c.val = 0 then some 0 else hexValue (UInt8.ofNat c.val) := by decide +kernel
  simpa using hall ⟨c.toNat, c.toNat_lt⟩

theorem position_lt {i : Nat} (h : position c = some i) : i < 16 := by
  obtain ⟨j, -, rfl⟩ := Option.map_eq_some_iff.mp h
  exact Nat.lt_of_le_of_lt Nat.and_le_right (by decide)

theorem or_halves {i j : Nat} (hi : i < 16) (hj : j < 16) :
    UInt8.ofNat (i <<< 4) ||| UInt8.ofNat j = UInt8.ofNat (16 * i + j) := by
  have hall : ∀ i j : Fin 16, UInt8.ofNat (i.val <<< 4) ||| UInt8.ofNat j.val = UInt8.ofNat (16 * i.val + j.val) := by
    decide +kernel
  exact hall ⟨i, hi⟩ ⟨j, hj⟩

theorem Pairs.length (h : Pairs digit t v) : t.length = 2 * v.length := by
  induction h with
  | nil              => rfl
  | cons _ _ _ ih => rw [List.length_cons, List.length_cons, List.length_cons, ih]; omega

theorem Pairs.mono (h : Pairs digit t v) (hdigit : ∀ c ∈ t, ∀ i, digit c = some i → digit' c = some i) : Pairs digit' t v := by
  induction h with
  | nil              => exact .nil
  | cons hb hc _ ih =>
    exact .cons (hdigit _ (by simp) _ hb) (hdigit _ (by simp) _ hc) (ih fun c hc => hdigit c (by simp [hc]))

section Read

-- Two characters of a group that are digits.
theorem readPairs_cons {i j : Nat} (hpart : part < group) (hb : position b = some i) (hc : position c = some j)
    (decoded : UInt8) (result data : Bytes) :
    readPairs group part 0 decoded result (b :: c :: data) =
      readPairs group (part + 1) 0 0 (result ++ [UInt8.ofNat (16 * i + j)]) data := by
  rw [← or_halves (position_lt hb) (position_lt hc)]
  obtain ⟨k, hk, rfl⟩ := Option.map_eq_some_iff.mp hb
  obtain ⟨l, hl, rfl⟩ := Option.map_eq_some_iff.mp hc
  rw [readPairs, if_pos hpart, hk]
  dsimp only
  rw [if_pos rfl, readPairs, if_pos hpart, hl]
  rfl

theorem readPairs_pairs (h : Pairs position t v) (hpart : part + v.length ≤ group)
    (hend : part + v.length = group ∨ rest = []) (decoded : UInt8) (result : Bytes) :
    readPairs group part 0 decoded result (t ++ rest) = ⟨rest, result ++ v, 0⟩ := by
  induction h generalizing part decoded result with
  | nil =>
    rw [List.append_nil, List.nil_append]
    cases rest with
    | nil => rfl
    | cons c rest =>
      obtain hend | hend := hend
      · rw [readPairs, if_neg (by simp at hend; omega)]
      · cases hend
  | cons hb hc _ ih =>
    rw [List.length_cons] at hpart hend
    rw [List.cons_append, List.cons_append, readPairs_cons (by omega) hb hc, ih (by omega) (hend.imp_left (by omega)),
      List.append_assoc]
    rfl

-- What was read of a group, unless it ended with an error.
theorem pairs_of_readPairs (group part : Nat) (decoded : UInt8) (result s : Bytes)
    (h : (readPairs group part 0 decoded result s).state = 0) :
    ∃ t v, s = t ++ (readPairs group part 0 decoded result s).data ∧ Pairs position t v ∧
      (readPairs group part 0 decoded result s).result = result ++ v ∧ (part ≤ group → part + v.length ≤ group) ∧
      (group ≤ part + v.length ∨ (readPairs group part 0 decoded result s).data = []) := by
  match s with
  | [] => exact ⟨[], [], rfl, .nil, (List.append_nil _).symm, id, .inr rfl⟩
  | [c] =>
    by_cases hpart : part < group
    case neg =>
      rw [readPairs, if_neg hpart]
      exact ⟨[], [], rfl, .nil, (List.append_nil _).symm, id, .inl (Nat.not_lt.mp hpart)⟩
    case pos =>
      rw [readPairs, if_pos hpart] at h
      split at h
      case h_1 => cases h
      case h_2 =>
        rw [if_pos rfl] at h
        cases h
  | b :: c :: s =>
    by_cases hpart : part < group
    case neg =>
      rw [readPairs, if_neg hpart]
      exact ⟨[], [], rfl, .nil, (List.append_nil _).symm, id, .inl (Nat.not_lt.mp hpart)⟩
    case pos =>
      cases hb : position b with
      | none =>
        rw [readPairs, if_pos hpart, Option.map_eq_none_iff.mp hb] at h
        cases h
      | some i =>
        cases hc : position c with
        | none =>
          obtain ⟨k, hk, -⟩ := Option.map_eq_some_iff.mp hb
          rw [readPairs, if_pos hpart, hk] at h
          dsimp only at h
          rw [if_pos rfl, readPairs, if_pos hpart, Option.map_eq_none_iff.mp hc] at h
          cases h
        | some j =>
          rw [readPairs_cons hpart hb hc] at h ⊢
          obtain ⟨t, v, hs, hpairs, hresult, hle, hend⟩ := pairs_of_readPairs group (part + 1) 0 _ s h
          refine ⟨b :: c :: t, _ :: v, ?_, .cons hb hc hpairs, ?_, fun _ => ?_, ?_⟩
          · rw [List.cons_append, List.cons_append, ← hs]
          · rw [hresult, List.append_assoc]
            rfl
          · have hle := hle hpart
            rw [List.length_cons]
            omega
          · refine hend.imp_left fun hge => ?_
            rw [List.length_cons]
            omega

theorem length_readPairs_le (group part : Nat) (state : Int) (decoded : UInt8) (result data : Bytes) :
    (readPairs group part state decoded result data).data.length ≤ data.length := by
  induction data generalizing part state decoded result with
  | nil => exact Nat.le_refl _
  | cons c data ih =>
    rw [readPairs]
    split
    case isFalse => exact Nat.le_refl _
    case isTrue =>
      split
      case h_1 => exact Nat.le_refl _
      case h_2 =>
        split
        all_goals exact Nat.le_succ_of_le (ih _ _ _ _)

theorem readPairs_lt (hpart : part < group) (decoded : UInt8) (c : UInt8) (data : Bytes) :
    (readPairs group part state decoded result (c :: data)).data.length < (c :: data).length ∨
      (readPairs group part state decoded result (c :: data)).state ≠ 0 ∧
        (readPairs group part state decoded result (c :: data)).data = c :: data := by
  rw [readPairs, if_pos hpart]
  split
  case h_1 => exact .inr ⟨Int.negSucc_ne_zero 0, rfl⟩
  case h_2 =>
    split
    all_goals exact .inl (Nat.lt_succ_of_le (length_readPairs_le _ _ _ _ _ _))

end Read

section Decode

-- What leads the next group.
def leader (delim : Option CString) (result : Bytes) : Bytes :=
  if result = [] then [] else delimiter delim

theorem leader_nil (delim : Option CString) : leader delim [] = [] :=
  rfl

theorem leader_of_ne_nil (h : result ≠ []) : leader delim result = delimiter delim :=
  if_neg h

-- One round of the outer loop.
theorem groupRound_eq (hne : s ≠ []) : groupRound delim group ⟨s, result, 0⟩ =
    if leader delim result <+: s then .inr (readPairs group 0 0 0 result (s.drop (leader delim result).length))
    else .inl none := by
  rw [groupRound.eq_def, if_pos ⟨hne, rfl⟩]
  by_cases hresult : result = []
  case pos =>
    rw [if_neg (not_not.mpr hresult), hresult, leader_nil, if_pos List.nil_prefix]
    rfl
  case neg =>
    rw [if_pos hresult, leader_of_ne_nil hresult]
    cases delim with
    | none       => exact (if_pos List.nil_prefix).symm
    | some delim =>
      dsimp only
      split
      case isTrue h  => exact (if_neg h).symm
      case isFalse h => exact (if_pos (not_not.mp h)).symm

theorem groupRound_stop : groupRound delim group ⟨[], result, 0⟩ = .inl (some result) :=
  rfl

-- A text in groups is decoded, with what is left of it.
theorem decodes_of_groups (hgroup : 1 ≤ group) (h : Groups position true (delimiter delim) group lead s v)
    (hlead : lead = leader delim result) : ∃ fuel, run (groupRound delim group) fuel ⟨s, result, 0⟩ = some (some (result ++ v)) := by
  induction h generalizing result with
  | nil => exact ⟨1, by rw [run_of_stop groupRound_stop, List.append_nil]⟩
  | @group lead t v s w hpairs hlen hrest ih =>
    have hv : v ≠ [] := fun h => by rw [h] at hlen; simp at hlen; omega
    obtain ⟨fuel, hrun⟩ := @ih (result ++ v) (leader_of_ne_nil (by simp [hv])).symm
    have hne : lead ++ t ++ s ≠ [] := by
      intro h
      have ht := hpairs.length
      rw [(List.append_eq_nil_iff.mp (List.append_eq_nil_iff.mp h).1).2] at ht
      rw [List.length_nil] at ht
      exact hv (List.length_eq_zero_iff.mp (by omega))
    have hround : Next (groupRound delim group) ⟨lead ++ t ++ s, result, 0⟩ ⟨s, result ++ v, 0⟩ := by
      unfold Next
      rw [groupRound_eq hne, ← hlead, List.append_assoc, if_pos (List.prefix_append _ _), List.drop_left,
        readPairs_pairs hpairs (by omega) (.inl (by omega))]
    exact ⟨fuel + 1, by rw [run_of_next hround, hrun, List.append_assoc]⟩
  | @last lead t v hpairs hv hlen =>
    have hne : lead ++ t ≠ [] := by
      intro h
      have ht := hpairs.length
      rw [(List.append_eq_nil_iff.mp h).2] at ht
      rw [List.length_nil] at ht
      exact hv (List.length_eq_zero_iff.mp (by omega))
    have hround : Next (groupRound delim group) ⟨lead ++ t, result, 0⟩ ⟨[], result ++ v, 0⟩ := by
      have hread := @readPairs_pairs group 0 t [] v hpairs (by omega) (.inr rfl) 0 result
      rw [List.append_nil] at hread
      unfold Next
      rw [groupRound_eq hne, ← hlead, if_pos (List.prefix_append _ _), List.drop_left, hread]
    exact ⟨2, by rw [run_of_next hround, run_of_stop groupRound_stop]⟩
  | @trailing lead _ =>
    by_cases hne : lead = []
    case pos => exact ⟨1, by rw [hne, run_of_stop groupRound_stop, List.append_nil]⟩
    case neg =>
      have hround : Next (groupRound delim group) ⟨lead, result, 0⟩ ⟨[], result, 0⟩ := by
        unfold Next
        rw [groupRound_eq hne, ← hlead, if_pos (List.prefix_refl _), List.drop_length]
        rfl
      exact ⟨2, by rw [run_of_next hround, run_of_stop groupRound_stop, List.append_nil]⟩

-- What is decoded is a text in groups.
theorem groups_of_decodes (hgroup : 1 ≤ group) {fuel : Nat}
    (h : run (groupRound delim group) fuel ⟨s, result, 0⟩ = some (some w)) :
    ∃ v, w = result ++ v ∧ Groups position true (delimiter delim) group (leader delim result) s v := by
  induction fuel generalizing s result with
  | zero => cases h
  | succ fuel ih =>
    by_cases hne : s = []
    case pos =>
      rw [hne, run_of_stop groupRound_stop] at h
      cases h
      exact ⟨[], (List.append_nil _).symm, by rw [hne]; exact .nil⟩
    case neg =>
      have hround := @groupRound_eq delim group s result hne
      split at hround
      case isFalse =>
        rw [run_of_stop hround] at h
        cases h
      case isTrue hprefix =>
        obtain ⟨s, rfl⟩ := hprefix
        rw [List.drop_left] at hround
        rw [run_of_next hround] at h
        by_cases hstate : (readPairs group 0 0 0 result s).state = 0
        case neg =>
          have hstop : groupRound delim group (readPairs group 0 0 0 result s) = .inl none := by
            rw [groupRound.eq_def, if_neg (fun h => hstate h.2), if_pos hstate]
          cases fuel with
          | zero      => cases h
          | succ fuel => rw [run_of_stop hstop] at h; cases h
        case pos =>
          obtain ⟨t, v, hs, hpairs, hresult, hle, hend⟩ := pairs_of_readPairs group 0 0 result s hstate
          generalize readPairs group 0 0 0 result s = read at hs hresult hend hstate h
          obtain ⟨rest, result', state⟩ := read
          dsimp only at hs hresult hend hstate
          subst hresult hstate hs
          rw [Nat.zero_add] at hle hend
          rw [← List.append_assoc]
          by_cases hfull : v.length = group
          case pos =>
            have hv : v ≠ [] := fun h => by rw [h] at hfull; simp at hfull; omega
            obtain ⟨w', rfl, hgroups⟩ := ih h
            rw [leader_of_ne_nil (by simp [hv])] at hgroups
            exact ⟨v ++ w', List.append_assoc .., .group hpairs hfull hgroups⟩
          case neg =>
            have hlt : v.length < group := lt_of_le_of_ne (hle (Nat.zero_le _)) hfull
            obtain rfl := hend.resolve_left (Nat.not_le.mpr hlt)
            have hw : w = result ++ v := by
              cases fuel with
              | zero      => cases h
              | succ fuel => rw [run_of_stop groupRound_stop] at h; cases h; rfl
            refine ⟨v, hw, ?_⟩
            rw [List.append_nil]
            by_cases hv : v = []
            case pos =>
              have ht : t = [] := List.length_eq_zero_iff.mp (by rw [hpairs.length, hv]; rfl)
              rw [hv, ht, List.append_nil]
              exact .trailing rfl
            case neg => exact .last hpairs hv hlt

-- Each round makes the text shorter, or ends in an error.
theorem run_total (delim : Option CString) (hgroup : 1 ≤ group) (data : Bytes) :
    ∃ r, run (groupRound delim group) (data.length + 2) ⟨data, [], 0⟩ = some r := by
  refine run_of_measure (fun s : Decoding => s.data.length + if s.state = 0 then 1 else 0) ?_ ⟨data, [], 0⟩
  rintro ⟨s, result, state⟩ t ht
  unfold Next at ht
  by_cases hmore : s ≠ [] ∧ state = 0
  case neg =>
    rw [groupRound.eq_def, if_neg hmore] at ht
    split at ht
    all_goals cases ht
  case pos =>
    obtain ⟨hne, rfl⟩ := hmore
    rw [groupRound_eq hne] at ht
    split at ht
    case isFalse => cases ht
    case isTrue hprefix =>
      obtain ⟨s, rfl⟩ := hprefix
      cases ht
      rw [List.drop_left, List.length_append, if_pos rfl]
      cases s with
      | nil =>
        have hlead : 0 < (leader delim result).length := List.length_pos_iff.mpr (by simpa using hne)
        change 0 + 1 < _
        omega
      | cons c s =>
        obtain hlt | ⟨hstate, hdata⟩ := @readPairs_lt group 0 result 0 hgroup 0 c s
        case inl =>
          split
          all_goals omega
        case inr =>
          rw [if_neg hstate, hdata]
          omega

theorem eggHexDecodeFull_eq_some_iff (hgroup : 1 ≤ group) (nData : Int) :
    eggHexDecodeFull data nData delim group = some v ↔ LaxText delim group (text data nData) v := by
  obtain ⟨r, hrun⟩ := run_total delim hgroup (text data nData)
  have heq : eggHexDecodeFull data nData delim group = r := by
    rw [eggHexDecodeFull, if_neg (by omega)]
    dsimp only
    rw [hrun, Option.join_some]
  rw [heq]
  constructor
  case mp =>
    rintro rfl
    obtain ⟨v', rfl, hgroups⟩ := groups_of_decodes hgroup hrun
    exact hgroups
  case mpr =>
    intro h
    obtain ⟨fuel, hrun'⟩ := @decodes_of_groups delim group _ [] v [] hgroup h rfl
    exact run_unique hrun hrun'

end Decode

-- The texts that are taken for groups and are none: those with a NUL, and those with a delimiter at the end.
structure Clean (delim : Option CString) (group : Nat) (s : Bytes) : Prop where
  nul     : 0 ∉ s
  aligned : delimiter delim ≠ [] → s ≠ [] → ¬2 * group + (delimiter delim).length ∣ s.length

section Strict

theorem Groups.mono (h : Groups digit trailing d group lead s v)
    (hdigit : ∀ c ∈ s, ∀ i, digit c = some i → digit' c = some i) : Groups digit' trailing d group lead s v := by
  induction h with
  | nil => exact .nil
  | group hpairs hlen _ ih =>
    exact .group (hpairs.mono fun c hc => hdigit c (by simp [hc])) hlen (ih fun c hc => hdigit c (by simp [hc]))
  | last hpairs hv hlen => exact .last (hpairs.mono fun c hc => hdigit c (by simp [hc])) hv hlen
  | trailing h => exact .trailing h

theorem Groups.lax (h : Groups digit false d group lead s v) : Groups digit true d group lead s v := by
  induction h with
  | nil                    => exact .nil
  | group hpairs hlen _ ih => exact .group hpairs hlen ih
  | last hpairs hv hlen    => exact .last hpairs hv hlen
  | trailing               => exact .trailing rfl

-- There is no delimiter at the end, or the text is of whole groups with one.
theorem Groups.strict (h : Groups digit true d group lead s v) : Groups digit false d group lead s v ∨
    ∃ n, s.length = lead.length + n * (2 * group + d.length) ∧ (n = 0 → lead ≠ []) ∧ (0 < n → d ≠ []) := by
  induction h with
  | nil                 => exact .inl .nil
  | last hpairs hv hlen => exact .inl (.last hpairs hv hlen)
  | @trailing lead _ =>
    by_cases hlead : lead = []
    case pos => exact .inl (by rw [hlead]; exact .nil)
    case neg => exact .inr ⟨0, by simp, fun _ => hlead, fun h => absurd h (Nat.lt_irrefl 0)⟩
  | @group lead t v s w hpairs hlen hrest ih =>
    refine ih.imp (fun h => .group hpairs hlen h) ?_
    rintro ⟨n, hn, hzero, hpos⟩
    refine ⟨n + 1, ?_, fun h => absurd h (Nat.succ_ne_zero n), fun _ => ?_⟩
    · have ht := hpairs.length
      rw [List.length_append, List.length_append, hn, ht, hlen, Nat.succ_mul n (2 * group + d.length)]
      omega
    · exact (Nat.eq_zero_or_pos n).elim hzero hpos

-- Of the last group there are one byte or more.
theorem Groups.length (h : Groups digit false d group lead s v) (hgroup : 1 ≤ group) :
    s = [] ∨ ∃ n r, 1 ≤ r ∧ r ≤ group ∧ s.length = lead.length + 2 * r + n * (2 * group + d.length) := by
  induction h with
  | nil      => exact .inl rfl
  | trailing h => cases h
  | @last lead t v hpairs hv hlen =>
    have hpos := List.length_pos_iff.mpr hv
    exact .inr ⟨0, v.length, hpos, Nat.le_of_lt hlen, by rw [List.length_append, hpairs.length]; omega⟩
  | @group lead t v s w hpairs hlen hrest ih =>
    have ht := hpairs.length
    obtain rfl | ⟨n, r, hpos, hle, hs⟩ := ih
    · exact .inr ⟨0, group, hgroup, Nat.le_refl _, by rw [List.append_nil, List.length_append, ht, hlen]; omega⟩
    · refine .inr ⟨n + 1, r, hpos, hle, ?_⟩
      rw [List.length_append, List.length_append, hs, ht, hlen, Nat.succ_mul n (2 * group + d.length)]
      omega

theorem hexValue_of_position (h0 : c ≠ 0) {i : Nat} (h : position c = some i) : hexValue c = some i := by
  rwa [position_eq, if_neg h0] at h

theorem position_of_hexValue {i : Nat} (h : hexValue c = some i) : position c = some i := by
  rw [position_eq, if_neg]
  case hnc =>
    rintro rfl
    cases h
  exact h

theorem HexText.lax (h : HexText delim group s v) : LaxText delim group s v :=
  (Groups.lax h).mono fun _ _ _ => position_of_hexValue

theorem nul_notMem_delimiter (delim : Option CString) : 0 ∉ delimiter delim := by
  cases delim with
  | none       => exact List.not_mem_nil
  | some delim => exact delim.nul

theorem Pairs.nul_notMem (h : Pairs hexValue t v) : 0 ∉ t := by
  induction h with
  | nil => exact List.not_mem_nil
  | cons hb hc _ ih =>
    simp only [List.mem_cons, not_or]
    refine ⟨?_, ?_, ih⟩
    · rintro rfl; cases hb
    · rintro rfl; cases hc

theorem Groups.nul_notMem (h : Groups hexValue trailing d group lead s v) (hlead : 0 ∉ lead) (hd : 0 ∉ d) : 0 ∉ s := by
  induction h with
  | nil              => exact List.not_mem_nil
  | trailing         => exact hlead
  | last hpairs      => simp [hlead, hpairs.nul_notMem]
  | group hpairs _ _ ih => simp [hlead, hpairs.nul_notMem, ih hd]

theorem HexText.isClean (h : HexText delim group s v) (hgroup : 1 ≤ group) : Clean delim group s where
  nul := Groups.nul_notMem h List.not_mem_nil (nul_notMem_delimiter delim)
  aligned := by
    intro hd hs hdvd
    obtain ⟨n, r, hpos, hle, hlen⟩ := (Groups.length h hgroup).resolve_left hs
    have hdelim := List.length_pos_iff.mpr hd
    rw [hlen, Nat.dvd_add_left (Nat.dvd_mul_left _ n)] at hdvd
    have hle' := Nat.le_of_dvd (by simp; omega) hdvd
    simp at hle'
    omega

theorem LaxText.strict (h : LaxText delim group s v) (hclean : Clean delim group s) : HexText delim group s v := by
  have hdigit : Groups hexValue true (delimiter delim) group [] s v := h.mono fun c hc i =>
    hexValue_of_position (fun h0 => hclean.nul (h0 ▸ hc))
  obtain hstrict | ⟨n, hlen, hn⟩ := hdigit.strict
  · exact hstrict
  · have hpos : 0 < n := Nat.pos_of_ne_zero fun h => hn.1 h rfl
    rw [List.length_nil, Nat.zero_add] at hlen
    by_cases hs : s = []
    case neg => exact absurd (hlen ▸ Nat.dvd_mul_left _ n) (hclean.aligned (hn.2 hpos) hs)
    case pos =>
      have hdelim := List.length_pos_iff.mpr (hn.2 hpos)
      rw [hs] at hlen
      have hzero := Nat.mul_eq_zero.mp hlen.symm
      omega

theorem clean_iff (hgroup : 1 ≤ group) (h : LaxText delim group s v) : (∃ w, HexText delim group s w) ↔ Clean delim group s :=
  ⟨fun ⟨_, hw⟩ => hw.isClean hgroup, fun hclean => ⟨v, h.strict hclean⟩⟩

end Strict

section Encode

variable {upperCase : Bool} {k : Nat}

theorem hexValue_hexDigit (h : n < 16) : hexValue (hexDigit upperCase n) = some n := by
  have hall : ∀ (u : Bool) (n : Fin 16), hexValue (hexDigit u n.val) = some n.val := by decide
  exact hall upperCase ⟨n, h⟩

theorem pairs_hexByte (upperCase : Bool) (data : Bytes) : Pairs hexValue (data.flatMap (hexByte upperCase)) data := by
  induction data with
  | nil => exact .nil
  | cons c data ih =>
    have hc : UInt8.ofNat (16 * (c.toNat / 16) + c.toNat % 16) = c := by rw [Nat.div_add_mod, UInt8.ofNat_toNat]
    have hlt := c.toNat_lt
    have hhigh : hexValue (hexDigit upperCase (c.toNat / 16)) = some (c.toNat / 16) := hexValue_hexDigit (by omega)
    have hlow : hexValue (hexDigit upperCase (c.toNat % 16)) = some (c.toNat % 16) := hexValue_hexDigit (by omega)
    have h := Pairs.cons hhigh hlow ih
    rwa [hc] at h

theorem encodeFrom_cons (hgroup : group ≠ 0) (k : Nat) (c : UInt8) (s : Bytes) :
    encodeFrom upperCase delim group k (c :: s) = (if k ≠ 0 ∧ k % group = 0 then delimiter delim else []) ++
      hexByte upperCase c ++ encodeFrom upperCase delim group (k + 1) s := by
  rw [encodeFrom.eq_def]
  cases delim with
  | none       => simp [delimiter]
  | some delim => simp [delimiter, hgroup]

-- In a group there is no delimiter.
theorem encodeFrom_append (hgroup : group ≠ 0) (hk : ∀ i < data.length, (k + i) % group ≠ 0) (s : Bytes) :
    encodeFrom upperCase delim group k (data ++ s) =
      data.flatMap (hexByte upperCase) ++ encodeFrom upperCase delim group (k + data.length) s := by
  induction data generalizing k with
  | nil => rfl
  | cons c data ih =>
    have hzero : k % group ≠ 0 := hk 0 (by simp)
    have hrest : ∀ i < data.length, (k + 1 + i) % group ≠ 0 := by
      intro i hi
      rw [Nat.add_assoc, Nat.add_comm 1]
      exact hk (i + 1) (by simpa using hi)
    rw [List.cons_append, encodeFrom_cons hgroup, if_neg (fun h => hzero h.2), ih hrest, List.flatMap_cons, List.length_cons,
      List.nil_append, List.append_assoc, Nat.add_assoc, Nat.add_comm 1]

theorem groups_encodeFrom (hgroup : 1 ≤ group) (hk : k % group = 0) (data : Bytes) :
    Groups hexValue false (delimiter delim) group (if k = 0 then [] else delimiter delim)
      (encodeFrom upperCase delim group k data) data := by
  generalize hn : data.length = n
  induction n using Nat.strong_induction_on generalizing data k with
  | h n ih =>
    cases data with
    | nil => exact .nil
    | cons c data =>
      have hinner : ∀ i < (data.take (group - 1)).length, (k + 1 + i) % group ≠ 0 := by
        intro i hi
        rw [List.length_take] at hi
        have hlt : 1 + i < group := by omega
        rw [Nat.add_assoc, Nat.add_mod, hk, Nat.zero_add, Nat.mod_mod, Nat.mod_eq_of_lt hlt]
        omega
      have hlead : (if k ≠ 0 ∧ k % group = 0 then delimiter delim else []) = if k = 0 then [] else delimiter delim := by
        by_cases hzero : k = 0
        case pos => simp [hzero]
        case neg => simp [hzero, hk]
      have hpairs := pairs_hexByte upperCase (c :: data.take (group - 1))
      have heq := @encodeFrom_append delim group (data.take (group - 1)) upperCase (k + 1) (by omega) hinner (data.drop (group - 1))
      rw [List.take_append_drop] at heq
      rw [encodeFrom_cons (by omega), hlead, heq, ← List.append_assoc, List.append_assoc _ (hexByte upperCase c),
        ← List.flatMap_cons]
      by_cases hlong : group - 1 ≤ data.length
      case pos =>
        have hlen : (c :: data.take (group - 1)).length = group := by
          rw [List.length_cons, List.length_take_of_le hlong]
          omega
        have hnext : k + 1 + (data.take (group - 1)).length = k + group := by rw [List.length_take_of_le hlong]; omega
        have hrest := ih (data.drop (group - 1)).length (by rw [← hn, List.length_drop, List.length_cons]; omega) (k := k + group)
          (by rw [Nat.add_mod_right, hk]) (data.drop (group - 1)) rfl
        rw [if_neg (by omega)] at hrest
        rw [hnext]
        have h := @Groups.group hexValue false _ _ (if k = 0 then [] else delimiter delim) _ _ _ _ hpairs hlen hrest
        rwa [List.cons_append, List.take_append_drop] at h
      case neg =>
        have htake : data.take (group - 1) = data := List.take_of_length_le (by omega)
        have hdrop : data.drop (group - 1) = [] := List.drop_of_length_le (by omega)
        rw [htake] at hpairs ⊢
        rw [hdrop, encodeFrom, List.append_nil]
        exact .last hpairs (by simp) (by simp; omega)

theorem hexText_encode (hgroup : 1 ≤ group) (data : Bytes) (upperCase : Bool) (delim : Option CString) :
    HexText delim group (eggHexEncodeFull data upperCase delim group) data :=
  groups_encodeFrom (k := 0) hgroup (Nat.zero_mod _) data

end Encode

-- Encoding and decoding gives the same bytes. What is decoded is a text of pairs of digits with delimiters between the groups,
-- if a text that would be decoded has no NUL and no delimiter behind the last group.
theorem hex_codec_iff (delim : Option CString) (group : Nat) (hgroup : 1 ≤ group) :
    (∀ data upperCase (nData : Int), nData = -1 ∨ nData = (eggHexEncodeFull data upperCase delim group).length →
      eggHexDecodeFull (eggHexEncodeFull data upperCase delim group) nData delim group = some data) ∧
    ∀ data nData, (∀ v, eggHexDecodeFull data nData delim group = some v → ∃ w, HexText delim group (text data nData) w) ↔
      ((∃ v, LaxText delim group (text data nData) v) → Clean delim group (text data nData)) := by
  constructor
  case left =>
    intro data upperCase nData hnData
    have htext := hexText_encode hgroup data upperCase delim
    rw [eggHexDecodeFull_eq_some_iff hgroup]
    generalize eggHexEncodeFull data upperCase delim group = s at hnData htext
    have hs : text s nData = s := by
      obtain rfl | rfl := hnData
      · exact (if_pos rfl).trans (cstr_eq (htext.isClean hgroup).nul)
      · rw [text, if_neg (by omega), Int.toNat_natCast, List.take_length]
    rw [hs]
    exact htext.lax
  case right =>
    intro data nData
    constructor
    case mp =>
      rintro h ⟨v, hv⟩
      exact (clean_iff hgroup hv).mp (h v ((eggHexDecodeFull_eq_some_iff hgroup nData).mpr hv))
    case mpr =>
      intro h v hv
      have hlax := (eggHexDecodeFull_eq_some_iff hgroup nData).mp hv
      exact (clean_iff hgroup hlax).mpr (h ⟨v, hlax⟩)

def colon : CString where
  bytes := ascii ":".toList
  nul   := by decide

theorem hex_codec_iff_colon :
    eggHexDecodeFull (eggHexEncodeFull [1, 2, 3] true (some colon) 2) (-1) (some colon) 2 = some [1, 2, 3] ∧
    ((∀ v, eggHexDecodeFull (ascii "0102:".toList) 5 (some colon) 2 = some v →
        ∃ w, HexText (some colon) 2 (text (ascii "0102:".toList) 5) w) ↔
      ((∃ v, LaxText (some colon) 2 (text (ascii "0102:".toList) 5) v) →
        Clean (some colon) 2 (text (ascii "0102:".toList) 5))) :=
  have h := hex_codec_iff (some colon) 2 (by decide)
  ⟨h.1 [1, 2, 3] true (-1) (.inl rfl), h.2 _ 5⟩

-- The digit A and a NUL.
theorem not_hexText : ¬∀ v, eggHexDecodeFull [65, 0] 2 none 1 = some v → ∃ w, HexText none 1 (text [65, 0] 2) w := by
  intro h
  obtain ⟨w, hw⟩ := h [0xA0] (by decide)
  exact (hw.isClean (Nat.le_refl 1)).nul (by decide)

end Hex
