import Mathlib.Logic.Relation
import GcrModel.Egg.Armor.Theorems.Markers
import GcrModel.Library.Scan

-- When `egg_armor_parse` is safe.
namespace Armor

open GLib

variable {l hay tail pre r type rest body after x p data : Bytes} {headers : Option Headers}
  {n fuel pos : Nat}

-- A pointer that a loop over spaces cannot pass.
def Stops (p : Bytes) (n : Nat) : Prop :=
  ∃ c, p[n]? = some c ∧ (isspace c → c = newline)

theorem Stops.drop {i : Nat} (h : Stops p n) (hi : i ≤ n) : Stops (p.drop i) (n - i) := by
  obtain ⟨c, hc, hs⟩ := h
  exact ⟨c, by rwa [List.getElem?_drop, Nat.add_sub_cancel' hi], hs⟩

theorem Stops.lt_length (h : Stops p n) : n < p.length := by
  obtain ⟨c, hc, -⟩ := h
  exact (List.getElem?_eq_some_iff.mp hc).1

theorem skipSpaces_ok (h : Stops x n) : ∃ k found, skipSpaces x = .ok (k, found) ∧ k ≤ n := by
  induction x generalizing n with
  | nil => exact absurd h.lt_length (Nat.not_lt_zero n)
  | cons c x ih =>
    rw [skipSpaces]
    by_cases hc : isspace c
    case neg => exact ⟨0, false, by rw [if_neg hc], Nat.zero_le n⟩
    case pos =>
      rw [if_pos hc]
      by_cases hn : c = newline
      case pos => exact ⟨0, true, by rw [if_pos hn], Nat.zero_le n⟩
      case neg =>
        cases n with
        | zero =>
          obtain ⟨d, hd, hs⟩ := h
          cases hd
          exact absurd (hs hc) hn
        | succ n =>
          obtain ⟨k, found, he, hk⟩ := ih (h.drop (Nat.succ_le_succ (Nat.zero_le n)))
          exact ⟨k + 1, found, by rw [if_neg hn, he]; rfl, Nat.succ_le_succ hk⟩

theorem findHeaderEnd_ok (h : Stops p n) (hf : n < fuel) :
    ∃ hend, findHeaderEnd fuel p n = .ok hend ∧ ∀ m, hend = some m → m ≤ n := by
  induction fuel generalizing p n with
  | zero => exact absurd hf (Nat.not_lt_zero n)
  | succ fuel ih =>
    simp only [findHeaderEnd, slice, if_pos h.lt_length.le, bind, Except.bind]
    cases hi : (p.take n).idxOf? newline with
    | none => exact ⟨none, rfl, by simp⟩
    | some i =>
      have hin : i + 1 ≤ n := by
        have := (List.findIdx?_eq_some_iff_getElem.mp hi).1
        simp only [List.length_take] at this
        omega
      obtain ⟨k, found, hk, hkn⟩ := skipSpaces_ok (h.drop hin)
      have hm : i + 1 + k ≤ n := by omega
      simp only [hk, check, if_pos hm]
      cases found with
      | true => exact ⟨_, rfl, by simpa using hm⟩
      | false =>
        obtain ⟨hend, he, hle⟩ := ih (h.drop hm) (by omega)
        simp only [he, Bool.false_eq_true, if_false]
        refine ⟨_, rfl, fun m hm' => ?_⟩
        obtain ⟨j, hj, rfl⟩ := Option.map_eq_some_iff.mp hm'
        have := hle j hj
        omega

theorem armorParseBlock_ok (h : Stops data n) (hn : n ≠ 0) : ∃ block, armorParseBlock data n headers = .ok block := by
  obtain ⟨hend, he, -⟩ := findHeaderEnd_ok h (Nat.lt_succ_self n)
  simp only [armorParseBlock, check, if_pos hn, he, slice, if_pos h.lt_length.le, bind, Except.bind]
  split
  · exact ⟨_, rfl⟩
  · exact ⟨_, rfl⟩

theorem getElem?_of_prefix {q : Bytes} {c : UInt8} {i : Nat} (h : [c] <+: q.drop i) (hq : q <+: p) :
    p[i]? = some c := by
  obtain ⟨s, hs⟩ := h
  obtain ⟨t, rfl⟩ := hq
  have hc : q[i]? = some c := by rw [← Nat.add_zero i, ← List.getElem?_drop, ← hs]; rfl
  rw [List.getElem?_append_left (List.getElem?_eq_some_iff.mp hc).1, hc]

-- The data of a block ends at the END marker or at the newline before the checksum.
theorem endOffset_stops (h : Ends hay type body after) : Stops (hay ++ tail) (endOffset (hay ++ tail) body) := by
  have hbody : Stops (hay ++ tail) body.length := by
    refine ⟨45, ?_, by decide⟩
    rw [h.eq, List.append_assoc, List.getElem?_append_right (le_refl _), Nat.sub_self]
    rfl
  unfold endOffset
  cases hs : strrstr [newline] (if body = [] then cstr (hay ++ tail) else body.dropLast) with
  | none => exact hbody
  | some line =>
    have hpre : (if body = [] then cstr (hay ++ tail) else body.dropLast) <+: hay ++ tail := by
      split
      · exact List.takeWhile_prefix _
      · rw [h.eq, List.append_assoc]
        exact (List.dropLast_prefix body).trans (List.prefix_append ..)
    simp only
    split
    · exact ⟨newline, getElem?_of_prefix (prefix_of_strrstr hs).right hpre, fun _ => rfl⟩
    · exact hbody

theorem endOffset_le (hb : body ≠ []) : endOffset data body ≤ body.length := by
  unfold endOffset
  rw [if_neg hb]
  cases hs : strrstr [newline] body.dropLast with
  | none => exact le_refl _
  | some line =>
    have := (prefix_of_strrstr hs).left
    simp only [List.length_dropLast] at this
    simp only
    split <;> omega

-- The rest of the data behind a block, where the next one is looked for.
def Next (l l' : Bytes) : Prop :=
  ∃ type rest body after, Begins l type rest ∧ Ends rest type body after ∧
    l' = rest.drop (endOffset rest body + armorSuff.length)

-- The block at the start of the data has a type. Something follows its END marker, and if the block
-- is empty then there is a NUL somewhere, and what looks like a checksum line does not start less than
-- five bytes before the end.
structure Safe (l : Bytes) : Prop where
  type  : ∀ rest, ¬Begins l [] rest
  block : ∀ type rest body after, Begins l type rest → Ends rest type body after → after ≠ [] ∧
            (body = [] → 0 ∈ rest ∧ endOffset rest body + armorSuff.length ≤ rest.length)

theorem Begins.exists_append (h : Begins l type rest) : ∃ pre outer, l = pre ++ rest ∧ outer < pre.length ∧
    ∀ tail, armorFindBegin (l ++ tail) l.length = (do
      check .assertion (0 < type.length)
      .ok (some (type, outer, pre.length))) := by
  obtain ⟨pre, r, hb, hs, hn⟩ := h
  refine ⟨pre ++ armorPrefBegin ++ type ++ armorSuff, pre.length, by simp [hb.eq, hs.eq], ?_, fun tail => ?_⟩
  · simp only [List.length_append, armorSuff, ascii, List.length_map, List.length_cons]
    omega
  · simp only [armorFindBegin_eq hb hs hn, List.length_append]

theorem armorFindEnd_ok (he : Ends rest type body after) (ha : after ++ tail ≠ [])
    (hz : body = [] → 0 ∈ rest ++ tail) : ∃ outerEnd, 0 < outerEnd ∧ outerEnd ≤ rest.length + tail.length ∧
    armorFindEnd (rest ++ tail) rest.length type = .ok (some (endOffset (rest ++ tail) body, outerEnd)) := by
  obtain ⟨c, q, hc⟩ := List.exists_cons_of_ne_nil ha
  have hlen : rest.length + tail.length =
      body.length + armorPrefEnd.length + type.length + armorSuff.length + (q.length + 1) := by
    rw [← List.length_append, he.eq]
    have := congrArg List.length hc
    simp only [List.length_append, List.length_cons] at this ⊢
    omega
  have hsuff : armorSuff.length = 5 := rfl
  rw [armorFindEnd_eq he, if_neg (fun h => h.2 (hz h.1)), hc]
  refine ⟨_, ?_, ?_, rfl⟩
  · split <;> omega
  · split <;> omega

theorem drop_append_add (pre rest tail : Bytes) (n : Nat) :
    (pre ++ rest ++ tail).drop (pre.length + n) = (rest ++ tail).drop n := by
  rw [List.append_assoc, drop_append_length]

-- One round of the loop.
theorem armorParseFrom_step (tail : Bytes) (fuel pos : Nat) (headers : Option Headers) (hb : Begins l type rest) (ht : type ≠ []) (he : Ends rest type body after)
    (ha : after ++ tail ≠ []) (hz : body = [] → 0 ∈ rest ++ tail) : ∃ block outerBeg outerEnd,
    (if endOffset (rest ++ tail) body ≠ 0 then
      armorParseBlock (rest ++ tail) (endOffset (rest ++ tail) body) headers else .ok none) = .ok block ∧
    outerBeg < outerEnd ∧ outerEnd ≤ l.length + tail.length ∧
    armorParseFrom (fuel + 1) pos (l ++ tail) l.length headers = (do
      let next := endOffset (rest ++ tail) body + armorSuff.length
      check .underflow (next ≤ rest.length)
      let found ← armorParseFrom fuel (pos + (l.length - rest.length + next)) ((rest ++ tail).drop next)
        (rest.length - next) (block.elim headers fun block => block.2.map fun _ => [])
      .ok ((block.elim [] fun block => [⟨type, block.1, pos + outerBeg, pos + outerEnd, block.2⟩]) ++ found)) := by
  obtain ⟨pre, outer, hl, houter, hbegin⟩ := hb.exists_append
  obtain ⟨outerEnd, hpos, hle, hend⟩ := armorFindEnd_ok he ha hz
  have hlen : l.length = pre.length + rest.length := by rw [hl, List.length_append]
  have hdrop : (l ++ tail).drop pre.length = rest ++ tail := by
    rw [hl, ← Nat.add_zero pre.length, drop_append_add, List.drop_zero]
  obtain ⟨block, hblock⟩ : ∃ block, (if endOffset (rest ++ tail) body ≠ 0 then
      armorParseBlock (rest ++ tail) (endOffset (rest ++ tail) body) headers else .ok none) = .ok block := by
    split
    case isTrue hne => exact armorParseBlock_ok (endOffset_stops he) hne
    case isFalse    => exact ⟨none, rfl⟩
  refine ⟨block, outer, pre.length + outerEnd, hblock, by omega, by omega, ?_⟩
  have hn : l.length ≠ 0 := by omega
  have hpos' : 0 < type.length := List.length_pos_iff.mpr ht
  have hsub : l.length - pre.length = rest.length := by omega
  have hsub' : l.length - rest.length = pre.length := by omega
  have hnext (k : Nat) : (l ++ tail).drop (pre.length + k) = (rest ++ tail).drop k := by
    rw [hl, drop_append_add]
  have hcheck (k : Nat) : pre.length + k ≤ l.length ↔ k ≤ rest.length := by omega
  have hsub'' (k : Nat) : l.length - (pre.length + k) = rest.length - k := by omega
  rw [armorParseFrom, if_neg hn, hbegin]
  simp only [check, if_pos hpos', bind, Except.bind, hdrop, hsub, hend, hblock, hsub', Nat.add_assoc, hnext]
  cases block with
  | none =>
    simp only [hcheck, hsub'', Option.elim_none, List.nil_append]
    generalize armorParseFrom fuel _ _ _ headers = found
    cases found <;> rfl
  | some block =>
    have hassert : outer < pre.length + outerEnd := by omega
    simp only [hcheck, hsub'', hassert, if_true, Option.elim_some, List.singleton_append]

theorem armorParseFrom_begin_none (tail : Bytes) (h : ∀ type rest, ¬Begins l type rest) :
    armorParseFrom (fuel + 1) pos (l ++ tail) l.length headers = .ok [] := by
  rw [armorParseFrom, armorFindBegin_none h]
  split <;> rfl

theorem armorParseFrom_type_nil (tail : Bytes) (h : Begins l [] rest) :
    armorParseFrom (fuel + 1) pos (l ++ tail) l.length headers = .error .assertion := by
  obtain ⟨pre, outer, hl, houter, hbegin⟩ := h.exists_append
  have hn : l.length ≠ 0 := by
    have := congrArg List.length hl
    rw [List.length_append] at this
    omega
  rw [armorParseFrom, if_neg hn, hbegin]
  rfl

theorem armorParseFrom_end (fuel pos : Nat) (headers : Option Headers) (tail : Bytes) (hb : Begins l type rest) (ht : type ≠ []) :
    ∃ next, armorParseFrom (fuel + 1) pos (l ++ tail) l.length headers =
      armorFindEnd (rest ++ tail) rest.length type >>= next ∧ next none = .ok [] := by
  obtain ⟨pre, outer, hl, houter, hbegin⟩ := hb.exists_append
  have hlen : l.length = pre.length + rest.length := by rw [hl, List.length_append]
  have hdrop : (l ++ tail).drop pre.length = rest ++ tail := by
    rw [hl, ← Nat.add_zero pre.length, drop_append_add, List.drop_zero]
  have hn : l.length ≠ 0 := by omega
  have hsub : l.length - pre.length = rest.length := by omega
  have hpos : 0 < type.length := List.length_pos_iff.mpr ht
  rw [armorParseFrom, if_neg hn, hbegin]
  simp only [check, if_pos hpos, bind, Except.bind, hdrop, hsub]
  exact ⟨_, rfl, rfl⟩

theorem Begins.unique {type' rest' : Bytes} (h : Begins l type rest) (h' : Begins l type' rest') :
    type = type' ∧ rest = rest' := by
  obtain ⟨pre, r, hb, hs, -⟩ := h
  obtain ⟨pre', r', hb', hs', -⟩ := h'
  obtain ⟨-, rfl⟩ := hb.toFirst.unique hb'.toFirst
  exact hs.toFirst.unique hs'.toFirst

theorem Ends.unique {body' after' : Bytes} (h : Ends rest type body after) (h' : Ends rest type body' after') :
    body = body' ∧ after = after' := by
  obtain ⟨hbody, hr⟩ := h.toFirst.unique h'.toFirst
  exact ⟨hbody, List.append_cancel_left (List.append_cancel_left hr)⟩

theorem endOffset_add_le (h : Ends rest type body after) (hb : body ≠ []) :
    endOffset data body + armorSuff.length ≤ rest.length := by
  have hle : endOffset data body ≤ body.length := endOffset_le hb
  have hlen := h.length_le
  have : armorPrefEnd.length = 9 := rfl
  have : armorSuff.length = 5 := rfl
  omega

theorem Safe.of_begin_none (h : ∀ type rest, ¬Begins l type rest) : Safe l where
  type rest                      := h [] rest
  block type rest _ _ hb := absurd hb (h type rest)

theorem Safe.of_end_none (hb : Begins l type rest) (ht : type ≠ []) (h : ∀ body after, ¬Ends rest type body after) :
    Safe l where
  type rest' hb' := ht (hb.unique hb').left
  block type' rest' body after hb' he := by
    obtain ⟨rfl, rfl⟩ := hb.unique hb'
    exact absurd he (h body after)

theorem reachable_iff (h : ∀ l', ¬Next l l') :
    (∀ l', Relation.ReflTransGen Next l l' → Safe l') ↔ Safe l := by
  refine ⟨fun hs => hs l .refl, fun hs l' hr => ?_⟩
  rcases hr.cases_head with rfl | ⟨m, hm, -⟩
  · exact hs
  · exact absurd hm (h m)

theorem reachable_next_iff (hb : Begins l type rest) (he : Ends rest type body after) (hs : Safe l) :
    (∀ l', Relation.ReflTransGen Next l l' → Safe l') ↔
      ∀ l', Relation.ReflTransGen Next (rest.drop (endOffset rest body + armorSuff.length)) l' → Safe l' := by
  refine ⟨fun h l' hr => h l' (hr.head ⟨type, rest, body, after, hb, he, rfl⟩), fun h l' hr => ?_⟩
  rcases hr.cases_head with rfl | ⟨m, ⟨type', rest', body', after', hb', he', rfl⟩, hr⟩
  · exact hs
  · obtain ⟨rfl, rfl⟩ := hb.unique hb'
    obtain ⟨rfl, rfl⟩ := he.unique he'
    exact h l' hr

theorem Begins.length_lt (h : Begins l type rest) : rest.length < l.length := by
  obtain ⟨pre, outer, rfl, houter, -⟩ := h.exists_append
  rw [List.length_append]
  omega

theorem armorFindEnd_error (tail : Bytes) (he : Ends rest type body after)
    (h : after ++ tail = [] ∨ body = [] ∧ 0 ∉ rest ++ tail) :
    armorFindEnd (rest ++ tail) rest.length type = .error .outOfBounds := by
  rw [armorFindEnd_eq he]
  rcases h with h | h
  · rw [h]
    split <;> rfl
  · rw [if_pos h]

-- How a round ends.
inductive Ended (fuel pos : Nat) (l tail : Bytes) (headers : Option Headers) : Except Fault (List Found) → Prop
  | noBegin : (∀ type rest, ¬Begins l type rest) → Ended fuel pos l tail headers (.ok [])
  | noType {rest : Bytes} : Begins l [] rest → Ended fuel pos l tail headers (.error .assertion)
  | noEnd {type rest : Bytes} : Begins l type rest → type ≠ [] → (∀ body after, ¬Ends rest type body after) →
    Ended fuel pos l tail headers (.ok [])
  | outside {type rest body after : Bytes} : Begins l type rest → type ≠ [] → Ends rest type body after →
    (after ++ tail = [] ∨ body = [] ∧ 0 ∉ rest ++ tail) → Ended fuel pos l tail headers (.error .outOfBounds)
  | underflow {type rest body after : Bytes} : Begins l type rest → type ≠ [] → Ends rest type body after →
    ¬(after ++ tail = [] ∨ body = [] ∧ 0 ∉ rest ++ tail) → rest.length < endOffset (rest ++ tail) body + armorSuff.length →
    Ended fuel pos l tail headers (.error .underflow)
  | block {type rest body after : Bytes} {block : Option (Bytes × Option Headers)} {pos' outerBeg outerEnd : Nat} :
    Begins l type rest → type ≠ [] → Ends rest type body after → ¬(after ++ tail = [] ∨ body = [] ∧ 0 ∉ rest ++ tail) →
    endOffset (rest ++ tail) body + armorSuff.length ≤ rest.length →
    (if endOffset (rest ++ tail) body ≠ 0 then
      armorParseBlock (rest ++ tail) (endOffset (rest ++ tail) body) headers else .ok none) = .ok block →
    pos' + (rest.drop (endOffset (rest ++ tail) body + armorSuff.length)).length = pos + l.length →
    outerBeg < outerEnd → outerEnd ≤ l.length + tail.length →
    Ended fuel pos l tail headers
      (armorParseFrom fuel pos' (rest.drop (endOffset (rest ++ tail) body + armorSuff.length) ++ tail)
        (rest.drop (endOffset (rest ++ tail) body + armorSuff.length)).length
        (block.elim headers fun block => block.2.map fun _ => []) >>= fun found =>
          .ok ((block.elim [] fun block => [⟨type, block.1, pos + outerBeg, pos + outerEnd, block.2⟩]) ++ found))

theorem armorParseFrom_ended (fuel pos : Nat) (l tail : Bytes) (headers : Option Headers) :
    Ended fuel pos l tail headers (armorParseFrom (fuel + 1) pos (l ++ tail) l.length headers) := by
  by_cases hb : ∃ type rest, Begins l type rest
  case neg =>
    simp only [not_exists] at hb
    rw [armorParseFrom_begin_none tail hb]
    exact .noBegin hb
  case pos =>
    obtain ⟨type, rest, hb⟩ := hb
    by_cases ht : type = []
    case pos =>
      subst ht
      rw [armorParseFrom_type_nil tail hb]
      exact .noType hb
    case neg =>
      obtain ⟨next, hround, hnone⟩ := armorParseFrom_end fuel pos headers tail hb ht
      by_cases he : ∃ body after, Ends rest type body after
      case neg =>
        simp only [not_exists] at he
        rw [armorFindEnd_none he] at hround
        rw [hround.trans hnone]
        exact .noEnd hb ht he
      case pos =>
        obtain ⟨body, after, he⟩ := he
        by_cases hfault : after ++ tail = [] ∨ body = [] ∧ 0 ∉ rest ++ tail
        case pos =>
          rw [hround, armorFindEnd_error tail he hfault]
          exact .outside hb ht he hfault
        case neg =>
          have hinside := hfault
          rw [not_or, not_and, not_not] at hinside
          obtain ⟨block, outerBeg, outerEnd, hblock, hlt, hend, hstep⟩ :=
            armorParseFrom_step tail fuel pos headers hb ht he hinside.left hinside.right
          rw [hstep]
          by_cases hle : endOffset (rest ++ tail) body + armorSuff.length ≤ rest.length
          case neg =>
            simp only [check, if_neg hle, bind, Except.bind]
            exact .underflow hb ht he hfault (Nat.not_le.mp hle)
          case pos =>
            have hlen := hb.length_lt
            simp only [check, if_pos hle, bind, Except.bind, List.drop_append_of_le_length hle, ← List.length_drop]
            refine .block hb ht he hfault hle hblock ?_ hlt hend
            simp only [List.length_drop]
            omega

-- The loop is safe if and only if it is in all of its rounds.
theorem armorParseFrom_ok_iff (hf : l.length < fuel) :
    (∃ found, armorParseFrom fuel pos l l.length headers = .ok found) ↔
      ∀ l', Relation.ReflTransGen Next l l' → Safe l' := by
  induction fuel generalizing l pos headers with
  | zero => exact absurd hf (Nat.not_lt_zero _)
  | succ fuel ih =>
    have hround := armorParseFrom_ended fuel pos l [] headers
    rw [List.append_nil] at hround
    generalize armorParseFrom (fuel + 1) pos l l.length headers = result at hround ⊢
    cases hround with
    | noBegin hb =>
      rw [reachable_iff fun l' ⟨type, rest, _, _, hb', _⟩ => hb type rest hb']
      exact iff_of_true ⟨[], rfl⟩ (.of_begin_none hb)
    | noType hb => exact iff_of_false (by simp) fun hs => (hs l .refl).type _ hb
    | noEnd hb ht he =>
      have hnext : ∀ l', ¬Next l l' := by
        rintro l' ⟨type', rest', body, after, hb', he', -⟩
        obtain ⟨rfl, rfl⟩ := hb.unique hb'
        exact he body after he'
      rw [reachable_iff hnext]
      exact iff_of_true ⟨[], rfl⟩ (.of_end_none hb ht he)
    | outside hb ht he hfault =>
      simp only [List.append_nil] at hfault
      refine iff_of_false (by simp) fun hs => ?_
      obtain ⟨ha, hz⟩ := (hs l .refl).block _ _ _ _ hb he
      exact hfault.elim ha fun h => h.right (hz h.left).left
    | @underflow type rest body after hb ht he _ hlt =>
      rw [List.append_nil] at hlt
      refine iff_of_false (by simp) fun hs => ?_
      by_cases hbody : body = []
      · exact Nat.not_le.mpr hlt (((hs l .refl).block type rest body after hb he).right hbody).right
      · exact Nat.not_le.mpr hlt (endOffset_add_le he hbody)
    | @block type rest body after _ _ _ _ hb ht he hfault hle =>
      simp only [List.append_nil, not_or, not_and, not_not] at hfault hle ⊢
      have hsafe : Safe l := by
        refine ⟨fun rest' hb' => ht (hb.unique hb').left, fun type' rest' body' after' hb' he' => ?_⟩
        obtain ⟨rfl, rfl⟩ := hb.unique hb'
        obtain ⟨rfl, rfl⟩ := he.unique he'
        exact ⟨hfault.left, fun h => ⟨hfault.right h, hle⟩⟩
      have hlt : (rest.drop (endOffset rest body + armorSuff.length)).length < fuel := by
        have := hb.length_lt
        rw [List.length_drop]
        omega
      rw [reachable_next_iff hb he hsafe]
      refine Iff.trans ⟨fun ⟨_, h⟩ => ?_, fun ⟨found, h⟩ => ⟨_, Scan.bind_eq_ok.mpr ⟨found, h, rfl⟩⟩⟩ (ih hlt)
      obtain ⟨found, h, -⟩ := Scan.bind_eq_ok.mp h
      exact ⟨found, h⟩

-- A round that finds a block and does not fail.
structure Round (fuel pos : Nat) (l tail : Bytes) (headers : Option Headers) (found : List Found)
    (type rest body after : Bytes) (block : Option (Bytes × Option Headers)) (found' : List Found) : Prop where
  begins : Begins l type rest
  ends   : Ends rest type body after
  parse  : (if endOffset (rest ++ tail) body ≠ 0 then
    armorParseBlock (rest ++ tail) (endOffset (rest ++ tail) body) headers else .ok none) = .ok block
  le     : endOffset (rest ++ tail) body + armorSuff.length ≤ rest.length
  next   : ∃ pos', pos' +
    (rest.drop (endOffset (rest ++ tail) body + armorSuff.length)).length = pos + l.length ∧
    armorParseFrom fuel pos' (rest.drop (endOffset (rest ++ tail) body + armorSuff.length) ++ tail)
      (rest.drop (endOffset (rest ++ tail) body + armorSuff.length)).length
      (block.elim headers fun block => block.2.map fun _ => []) = .ok found'
  result : ∃ outerBeg outerEnd, outerBeg < outerEnd ∧ outerEnd ≤ l.length + tail.length ∧
    found = (block.elim [] fun block => [⟨type, block.1, pos + outerBeg, pos + outerEnd, block.2⟩]) ++ found'

theorem armorParseFrom_cases {found : List Found}
    (h : armorParseFrom (fuel + 1) pos (l ++ tail) l.length headers = .ok found) :
    found = [] ∨ ∃ type rest body after block found', Round fuel pos l tail headers found type rest body after block found' := by
  have hround := armorParseFrom_ended fuel pos l tail headers
  rw [h] at hround
  generalize hresult : Except.ok found = result at hround
  cases hround with
  | noBegin | noEnd                   => exact .inl (Except.ok.inj hresult)
  | noType | outside | underflow      => cases hresult
  | block hb ht he _ hle hblock hpos hlt hend =>
    obtain ⟨found', hnext, heq⟩ := Scan.bind_eq_ok.mp hresult.symm
    exact .inr ⟨_, _, _, _, _, found', hb, he, hblock, hle, ⟨_, hpos, hnext⟩, _, _, hlt, hend, (Except.ok.inj heq).symm⟩

-- The outer ranges are in the input, and the byte behind it if there is one in the memory.
theorem outer_le {found : List Found} (h : armorParseFrom fuel pos (l ++ tail) l.length headers = .ok found) :
    ∀ f ∈ found, f.outerBeg < f.outerEnd ∧ f.outerEnd ≤ pos + l.length + tail.length := by
  induction fuel generalizing pos l headers found with
  | zero => cases h
  | succ fuel ih =>
    rcases armorParseFrom_cases h with rfl | ⟨type, rest, body, after, block, found', r⟩
    · simp
    · obtain ⟨pos', hlen, hnext⟩ := r.next
      obtain ⟨outerBeg, outerEnd, hlt, hle, rfl⟩ := r.result
      intro f hf
      rcases List.mem_append.mp hf with hf | hf
      · cases block with
        | none => simp at hf
        | some block =>
          cases List.mem_singleton.mp hf
          exact ⟨Nat.add_lt_add_left hlt pos, by simp only; omega⟩
      · rw [← hlen]
        exact ih hnext f hf

-- `egg_armor_parse` is safe if and only if all blocks that it gets to are.
theorem eggArmorParse_safe_iff (input : Bytes) :
    (∃ found, eggArmorParse input input.length = .ok found ∧
      ∀ f ∈ found, f.outerBeg < f.outerEnd ∧ f.outerEnd ≤ input.length) ↔
    ∀ l, Relation.ReflTransGen Next input l → Safe l := by
  rw [← armorParseFrom_ok_iff (Nat.lt_succ_self _)]
  constructor
  · rintro ⟨found, h, -⟩
    exact ⟨found, h⟩
  · rintro ⟨found, h⟩
    refine ⟨found, h, ?_⟩
    have h' : armorParseFrom (input.length + 1) 0 (input ++ []) input.length none = .ok found := by
      rw [List.append_nil]
      exact h
    simpa using outer_le h'

-- A marker without a type makes an assertion fail.
theorem eggArmorParse_not_safe : ¬∀ input : Bytes, ∃ found, eggArmorParse input input.length = .ok found ∧
    ∀ f ∈ found, f.outerBeg < f.outerEnd ∧ f.outerEnd ≤ input.length := by
  intro h
  obtain ⟨found, hf, -⟩ := h (armorPrefBegin ++ armorSuff)
  have hfault : eggArmorParse (armorPrefBegin ++ armorSuff) (armorPrefBegin ++ armorSuff).length =
      .error .assertion := by
    decide
  rw [hfault] at hf
  cases hf

section Memory

-- What is read in a larger memory is the same, unless the smaller one is left.
abbrev Extends {α : Type} (x y : Result α) : Prop :=
  Scan.Extends .outOfBounds x y

-- The marker or the block at the start of the data is read beyond its end, or one behind it is.
inductive Leaves : Bytes → Prop
  | here {l type rest body after : Bytes} (hb : Begins l type rest) (ht : type ≠ []) (he : Ends rest type body after)
    (h : after = [] ∨ body = [] ∧ 0 ∉ rest) : Leaves l
  | next {l type rest body after : Bytes} (hb : Begins l type rest) (ht : type ≠ []) (he : Ends rest type body after)
    (hle : endOffset rest body + armorSuff.length ≤ rest.length) :
    Leaves (rest.drop (endOffset rest body + armorSuff.length)) → Leaves l

end Memory

end Armor
