import GcrModel.Gcr.GnupgProcess.Theorems.Channel
import Mathlib.Data.List.Flatten

namespace GnupgProcess

open GLib

variable {α β : Type*} {b c p : Bytes} {cs : List Bytes} {rs : List Report}

-- What a filter leaves of a list is all of it, and what was added to it is nothing.
theorem flatMap_filter_eq_append_iff {g : α → List β} {p : α → Bool} {l : List α} {u : List β} :
    (l.filter p).flatMap g = l.flatMap g ++ u ↔ u = [] ∧ ∀ a ∈ l, p a = false → g a = [] := by
  induction l
  case nil => exact ⟨fun h => ⟨h.symm, fun _ ha => absurd ha List.not_mem_nil⟩, fun h => h.1.symm⟩
  case cons a l ih =>
    rw [List.forall_mem_cons, List.flatMap_cons, List.filter_cons]
    cases ha : p a
    case true => simp [ih]
    case false =>
      simp only [Bool.false_eq_true, if_false, true_imp_iff]
      constructor
      · intro h
        have hle := ((List.filter_sublist (p := p) (l := l)).flatMap g).length_le
        have hlen := congrArg List.length h
        simp only [List.length_append] at hlen
        have hga : g a = [] := List.length_eq_zero_iff.mp (by omega)
        rw [hga, List.nil_append, ih] at h
        exact ⟨h.1, hga, h.2⟩
      · rintro ⟨hu, hga, hl⟩
        rw [hga, List.nil_append, ih]
        exact ⟨hu, hl⟩

theorem Run.chunks_eq_stream_iff (run : Run) (fd : Fd) :
    (run.chunks fd).flatten = run.stream fd ↔ run.Complete fd := by
  rw [chunks, reads, ← List.flatMap_def, stream, flatMap_filter_eq_append_iff, Complete]
  refine and_congr_right fun _ => forall₂_congr fun r _ => ?_
  cases hin : r.ioIn <;> simp [Report.succeeds, Report.fails, Report.bytes, hin]

namespace Source.Text

theorem taken_foldl_data (t : Text) : (rs.foldl data t).taken = t.taken ++ (rs.map Report.bytes).flatten := by
  induction rs generalizing t
  case nil          => simp
  case cons r rs ih => simp [ih, data]

theorem taken_foldl_read (flush : Report → Bool) (t : Text) :
    (rs.foldl (read flush) t).taken = t.taken ++ (rs.map Report.bytes).flatten := by
  induction rs generalizing t
  case nil          => simp
  case cons r rs ih => simp [ih, read]

end Source.Text

-- The lines of the status, found chunk by chunk.
def emitted : Bytes → List Bytes → List Bytes
  | _, []      => []
  | b, c :: cs => (parseLines (b ++ c) (c = [])).1 ++ emitted (parseLines (b ++ c) (c = [])).2 cs

theorem lines_foldl_status (t : Source.Text) :
    (rs.foldl (Source.Text.read (·.bytes = [])) t).lines = t.lines ++ emitted t.buffer (rs.map Report.bytes) := by
  induction rs generalizing t
  case nil          => simp [emitted]
  case cons r rs ih => simp [ih, emitted, Source.Text.read]

section Status

theorem emitted_nil (hn : newline ∉ b) (h0 : 0 ∉ b) : emitted b ([] :: cs) = finalLine b ++ emitted [] cs := by
  rw [emitted, List.append_nil, parseLines_eq h0, ended_of_notMem hn, unended_of_notMem hn]
  simp

theorem emitted_cons (hc : c ≠ []) (h0 : 0 ∉ b ++ c) :
    emitted b (c :: cs) = ended (b ++ c) ++ emitted (unended (b ++ c)) cs := by
  rw [emitted, parseLines_eq h0]
  simp [hc]

theorem nul_notMem_unended (h : 0 ∉ b) : 0 ∉ unended b :=
  fun h0 => h (Lines.mem_of_mem_rest h0)

theorem nul_notMem_rest (h : 0 ∉ b ++ c) : 0 ∉ unended b ++ c := by
  rw [List.mem_append, not_or] at h ⊢
  exact ⟨nul_notMem_unended h.1, h.2⟩

theorem finalLine_of_ne (h : b ≠ []) : finalLine b = [b] :=
  if_neg h

-- There is a line for each end, and when there is no other they are the ones.
theorem emitted_ended (hn : newline ∉ b) (h0 : 0 ∉ b ++ cs.flatten) :
    (ended (b ++ cs.flatten)).length ≤ (emitted b cs).length ∧
      ((emitted b cs).length = (ended (b ++ cs.flatten)).length → emitted b cs = ended (b ++ cs.flatten)) := by
  induction cs generalizing b
  case nil =>
    rw [List.flatten_nil, List.append_nil, ended_of_notMem hn, emitted]
    exact ⟨Nat.le_refl _, fun _ => rfl⟩
  case cons c cs ih =>
    rw [List.flatten_cons] at h0 ⊢
    by_cases hc : c = []
    case pos =>
      subst hc
      rw [List.nil_append] at h0 ⊢
      obtain ⟨hle, heq⟩ := ih (b := []) List.not_mem_nil fun h => h0 (List.mem_append_right _ h)
      rw [List.nil_append] at hle heq
      have hlen : (ended (b ++ cs.flatten)).length = (ended cs.flatten).length := length_ended hn
      rw [emitted_nil hn fun h => h0 (List.mem_append_left _ h), List.length_append, hlen]
      refine ⟨by omega, fun h => ?_⟩
      by_cases hb : b = []
      case pos =>
        subst hb
        exact heq (by simpa [finalLine] using h)
      case neg =>
        rw [finalLine_of_ne hb, List.length_singleton] at h
        omega
    case neg =>
      rw [← List.append_assoc] at h0 ⊢
      obtain ⟨hle, heq⟩ := ih (newline_notMem_unended (b ++ c)) (nul_notMem_rest h0)
      have h0' : 0 ∉ b ++ c := fun h => h0 (List.mem_append_left _ h)
      rw [emitted_cons hc h0', ended_append, List.length_append, List.length_append]
      exact ⟨by omega, fun h => by rw [heq (by omega)]⟩

theorem stripCr_append (p : Bytes) (h : c ≠ []) : stripCr (p ++ c) = p ++ stripCr c := by
  rw [stripCr, stripCr, List.getLast?_append_of_ne_nil p h, List.dropLast_append_of_ne_nil h]
  split <;> rfl

-- The line end is all that is missing when a piece is a line.
theorem stripCr_eq_nil (h : p = stripCr (p ++ c)) : stripCr c = [] := by
  by_cases hc : c = []
  case pos => rw [hc, stripCr]; rfl
  case neg =>
    rw [stripCr_append p hc] at h
    exact List.append_right_eq_self.mp h.symm

theorem eq_of_cons_eq_concat {a z : α} {l : List α} (h : a :: l = l ++ [z]) : z = a := by
  induction l generalizing a
  case nil => exact (List.head_eq_of_cons_eq h).symm
  case cons y l ih =>
    obtain ⟨rfl, h⟩ := List.cons_eq_cons.mp h
    exact ih h

-- A line that is flushed before its end is there is not one of the text.
theorem flushed_ne (hn : newline ∉ p) (hcs : cs.flatten ≠ []) (h0 : 0 ∉ cs.flatten) :
    p :: emitted [] cs ≠ linesOf (p ++ cs.flatten) := by
  intro h
  obtain ⟨hle, heq⟩ := emitted_ended (b := []) List.not_mem_nil h0
  rw [List.nil_append] at hle heq
  have hends : (ended (p ++ cs.flatten)).length = (ended cs.flatten).length := length_ended hn
  have hlen := congrArg List.length h
  rw [linesOf, List.length_cons, List.length_append, hends] at hlen
  -- There is no line for an end more, so the last line has none.
  by_cases hu : unended (p ++ cs.flatten) = []
  case pos =>
    rw [hu, finalLine, if_pos rfl, List.length_nil] at hlen
    omega
  case neg =>
    rw [finalLine_of_ne hu, List.length_singleton] at hlen
    rw [heq (by omega), linesOf, finalLine_of_ne hu] at h
    obtain hR | ⟨x, R, hx, hR⟩ := Lines.notMem_or_split newline cs.flatten
    · have hpR : newline ∉ p ++ cs.flatten := fun hm => (List.mem_append.mp hm).elim hn hR
      rw [ended_of_notMem hR, ended_of_notMem hpR, unended_of_notMem hpR, List.nil_append] at h
      exact hcs (List.append_right_eq_self.mp (List.head_eq_of_cons_eq h).symm)
    · have hpx : newline ∉ p ++ x := fun hm => (List.mem_append.mp hm).elim hn hx
      rw [hR, ← List.append_assoc] at h hu
      rw [ended_cut hx, ended_cut hpx, unended_cut hpx, List.cons_append] at h
      obtain ⟨hp, htail⟩ := List.cons_eq_cons.mp h
      rw [unended_cut hpx, eq_of_cons_eq_concat htail] at hu
      exact hu (stripCr_eq_nil hp)

theorem emitted_of_flatten_nil (h : cs.flatten = []) : emitted [] cs = [] := by
  induction cs
  case nil => rfl
  case cons c cs ih =>
    obtain ⟨rfl, h⟩ := List.append_eq_nil_iff.mp (List.flatten_cons ▸ h)
    rw [emitted_nil List.not_mem_nil List.not_mem_nil, ih h]
    rfl

theorem linesOf_of_notMem (h : newline ∉ b) : linesOf b = finalLine b := by
  rw [linesOf, ended_of_notMem h, unended_of_notMem h, List.nil_append]

-- The places where there is a chunk without data.
theorem forall_split_cons {q : List Bytes → List Bytes → Prop} :
    (∀ pre post, c :: cs = pre ++ [] :: post → q pre post) ↔
      (c = [] → q [] cs) ∧ ∀ pre post, cs = pre ++ [] :: post → q (c :: pre) post := by
  constructor
  · intro h
    exact ⟨fun hc => h [] cs (hc ▸ rfl), fun pre post hcs => h (c :: pre) post (hcs ▸ rfl)⟩
  · rintro ⟨h, ht⟩ (_ | ⟨_, pre⟩) post hcs
    · obtain ⟨hc, rfl⟩ := List.cons_eq_cons.mp hcs
      exact h hc
    · obtain ⟨rfl, htail⟩ := List.cons_eq_cons.mp hcs
      exact ht pre post htail

theorem exists_split_cons {q : List Bytes → Prop} :
    (∃ pre post, c :: cs = pre ++ [] :: post ∧ q post) ↔
      c = [] ∧ q cs ∨ ∃ pre post, cs = pre ++ [] :: post ∧ q post := by
  constructor
  · rintro ⟨_ | ⟨_, pre⟩, post, hcs, hq⟩
    · obtain ⟨hc, rfl⟩ := List.cons_eq_cons.mp hcs
      exact .inl ⟨hc, hq⟩
    · obtain ⟨-, hcs⟩ := List.cons_eq_cons.mp hcs
      exact .inr ⟨pre, post, hcs, hq⟩
  · rintro (⟨rfl, hq⟩ | ⟨pre, post, rfl, hq⟩)
    · exact ⟨[], cs, rfl, hq⟩
    · exact ⟨c :: pre, post, rfl, hq⟩

theorem flatten_eq_nil_of_split {pre post : List Bytes} (h : cs.flatten = []) (hcs : cs = pre ++ [] :: post) :
    post.flatten = [] := by
  rw [hcs, List.flatten_append, List.flatten_cons] at h
  exact (List.append_eq_nil_iff.mp h).2

-- The lines are those of the text when nothing is flushed too early and the rest is flushed.
theorem emitted_iff (hn : newline ∉ b) (h0 : 0 ∉ b ++ cs.flatten) :
    emitted b cs = linesOf (b ++ cs.flatten) ↔
      (∀ pre post, cs = pre ++ [] :: post → unended (b ++ pre.flatten) = [] ∨ post.flatten = []) ∧
        (unended (b ++ cs.flatten) = [] ∨ ∃ pre post, cs = pre ++ [] :: post ∧ post.flatten = []) := by
  induction cs generalizing b
  case nil =>
    rw [List.flatten_nil, List.append_nil, linesOf_of_notMem hn, unended_of_notMem hn, emitted]
    simp [finalLine]
  case cons c cs ih =>
    rw [List.flatten_cons] at h0
    rw [forall_split_cons, exists_split_cons, List.flatten_cons]
    by_cases hc : c = []
    case pos =>
      subst hc
      rw [List.nil_append] at h0
      have hcs0 : 0 ∉ cs.flatten := fun h => h0 (List.mem_append_right _ h)
      rw [emitted_nil hn fun h => h0 (List.mem_append_left _ h)]
      by_cases hb : b = []
      case pos =>
        subst hb
        have ih := ih (b := []) List.not_mem_nil hcs0
        have hnil : unended [] = [] := rfl
        simp only [List.nil_append, List.flatten_cons, List.flatten_nil, finalLine, if_true, hnil, true_or, true_imp_iff,
          true_and] at ih ⊢
        rw [ih]
        refine and_congr_right fun _ => ⟨.imp_right .inr, fun h => ?_⟩
        obtain h | h | h := h
        · exact .inl h
        · exact .inl (h ▸ hnil)
        · exact .inr h
      case neg =>
        have hpend : unended b ≠ [] := (unended_of_notMem hn).symm ▸ hb
        rw [finalLine_of_ne hb, List.nil_append, List.singleton_append]
        by_cases hcs : cs.flatten = []
        case pos =>
          rw [hcs, emitted_of_flatten_nil hcs, List.append_nil, linesOf_of_notMem hn, finalLine_of_ne hb]
          refine iff_of_true rfl ⟨⟨fun _ => .inr rfl, fun pre post h => ?_⟩, .inr (.inl ⟨rfl, rfl⟩)⟩
          exact .inr (flatten_eq_nil_of_split hcs h)
        case neg =>
          refine iff_of_false (flushed_ne hn hcs hcs0) fun h => ?_
          rw [List.flatten_nil, List.append_nil] at h
          exact (h.1.1 rfl).elim hpend hcs
    case neg =>
      rw [← List.append_assoc] at h0 ⊢
      have h0' : 0 ∉ b ++ c := fun h => h0 (List.mem_append_left _ h)
      rw [emitted_cons hc h0', linesOf_append, List.append_cancel_left_eq,
        ih (newline_notMem_unended _) (nul_notMem_rest h0), ← unended_append]
      simp only [hc, false_imp_iff, true_and, false_and, false_or, List.flatten_cons, ← List.append_assoc,
        ← unended_append]

end Status

section Errors

def flushed (flush : Bool) (b : Bytes) : List Bytes :=
  if flush then finalLine (unended b) else []

theorem read_eq (flush : Report → Bool) (t : Source.Text) {r : Report} (h0 : 0 ∉ t.buffer ++ r.bytes) :
    Source.Text.read flush t r = {
      taken  := t.taken ++ r.bytes
      buffer := if flush r then [] else unended (t.buffer ++ r.bytes)
      lines  := t.lines ++ (ended (t.buffer ++ r.bytes) ++ flushed (flush r) (t.buffer ++ r.bytes)) } := by
  rw [Source.Text.read, parseLines_eq h0, flushed]

-- The errors are flushed by the report that closes them.
theorem lines_foldl_error {l : List Report} (t : Source.Text) (hn : newline ∉ t.buffer)
    (hl : l = (live rs).filter Report.succeeds) (h0 : 0 ∉ t.buffer ++ (l.map Report.bytes).flatten) :
    (l.foldl (Source.Text.read (·.ioHup)) t).lines = t.lines ++
      (ended (t.buffer ++ (l.map Report.bytes).flatten) ++
        flushed (l.any (·.ioHup)) (t.buffer ++ (l.map Report.bytes).flatten)) := by
  induction rs generalizing t l
  case nil => simp [hl, live, flushed, ended_of_notMem hn]
  case cons r rs ih =>
    rw [live] at hl
    cases hc : r.closes
    case true =>
      rw [hc, if_pos rfl] at hl
      cases hd : r.succeeds
      case false => simp [hl, hd, flushed, ended_of_notMem hn]
      case true =>
        obtain rfl : l = [r] := by simp [hl, hd]
        have h0' : 0 ∉ t.buffer ++ r.bytes := by simpa using h0
        rw [List.foldl_cons, List.foldl_nil, read_eq _ t h0']
        simp
    case false =>
      rw [hc, if_neg Bool.false_ne_true] at hl
      cases hd : r.succeeds
      case false =>
        rw [List.filter_cons_of_neg (Bool.eq_false_iff.mp hd)] at hl
        exact ih t hn hl h0
      case true =>
        have hhup : r.ioHup = false := by
          rw [Report.closes, Bool.or_eq_false_iff] at hc
          exact hc.1
        rw [List.filter_cons_of_pos hd] at hl
        subst hl
        have happend : t.buffer ++ (((r :: (live rs).filter Report.succeeds).map Report.bytes).flatten) =
            t.buffer ++ r.bytes ++ (((live rs).filter Report.succeeds).map Report.bytes).flatten :=
          (List.append_assoc ..).symm
        rw [happend] at h0 ⊢
        have h0' : 0 ∉ t.buffer ++ r.bytes := fun h => h0 (List.mem_append_left _ h)
        rw [List.foldl_cons, read_eq _ t h0', hhup, if_neg Bool.false_ne_true,
          ih _ (newline_notMem_unended _) rfl (nul_notMem_rest h0), ended_append (t.buffer ++ r.bytes),
          flushed, flushed, flushed, unended_append (t.buffer ++ r.bytes), List.any_cons, hhup, Bool.false_or]
        simp

theorem flushed_eq_iff {flush : Bool} : ended b ++ flushed flush b = linesOf b ↔ unended b = [] ∨ flush := by
  rw [linesOf, List.append_cancel_left_eq, flushed]
  cases flush <;> simp [finalLine]

end Errors

namespace Run

variable {run : Run}

theorem output_iff : run.final.output = run.stream .output ↔ run.Complete .output := by
  have htext := congrArg Source.Text.taken (run.text_final .output (by decide))
  have hout : run.final.output = (run.chunks .output).flatten := htext.trans (Source.Text.taken_foldl_data {})
  rw [hout, chunks_eq_stream_iff]

theorem attributes_iff : run.final.attributes = run.stream .attribute ↔ run.Complete .attribute := by
  have htext := congrArg Source.Text.taken (run.text_final .attribute (by decide))
  have hout : run.final.attributes = (run.chunks .attribute).flatten := htext.trans (Source.Text.taken_foldl_data {})
  rw [hout, chunks_eq_stream_iff]

theorem text_lines_nul (flush : Report → Bool) (rs : List Report) :
    ∀ line ∈ (rs.foldl (Source.Text.read flush) {}).lines, 0 ∉ line := by
  have hfold (t : Source.Text) (ht : ∀ line ∈ t.lines, 0 ∉ line) :
      ∀ line ∈ (rs.foldl (Source.Text.read flush) t).lines, 0 ∉ line := by
    induction rs generalizing t
    case nil => exact ht
    case cons r rs ih =>
      refine ih _ fun line hline => ?_
      obtain hline | hline := List.mem_append.mp hline
      · exact ht line hline
      · exact nul_notMem_parseLines hline
  exact hfold {} fun line hline => absurd hline List.not_mem_nil

-- The lines are strings, so they are not those of a text with a NUL.
theorem nul_notMem_of_lines {flush : Report → Bool} {s : Bytes}
    (h : (rs.foldl (Source.Text.read flush) {}).lines = linesOf s) : 0 ∉ s := by
  intro h0
  obtain ⟨line, hline, h0⟩ := nul_mem_linesOf h0
  exact text_lines_nul flush rs line (h ▸ hline) h0

theorem status_iff : run.final.statusTaken = run.stream .status ∧ run.final.statusLines = linesOf (run.stream .status) ↔
    run.Complete .status ∧ 0 ∉ run.stream .status ∧ run.Flushes := by
  have htext := run.text_final .status (by decide)
  have htaken : run.final.statusTaken = (run.chunks .status).flatten :=
    (congrArg Source.Text.taken htext).trans (Source.Text.taken_foldl_read _ {})
  have hlines : run.final.statusLines = emitted [] (run.chunks .status) :=
    (congrArg Source.Text.lines htext).trans (lines_foldl_status {})
  rw [htaken, chunks_eq_stream_iff]
  refine and_congr_right fun hc => ?_
  have hs := run.chunks_eq_stream_iff .status |>.mpr hc
  have hnul : run.final.statusLines = linesOf (run.stream .status) → 0 ∉ run.stream .status :=
    fun h => nul_notMem_of_lines ((congrArg Source.Text.lines htext).symm.trans h)
  rw [← and_iff_right_of_imp hnul]
  refine and_congr_right fun h0 => ?_
  rw [hlines, ← hs]
  have h0' : 0 ∉ [] ++ (run.chunks .status).flatten := by rwa [List.nil_append, hs]
  have hiff := emitted_iff (b := []) List.not_mem_nil h0'
  rw [List.nil_append] at hiff
  rw [hiff]
  constructor
  · rintro ⟨hbetween, hlast⟩
    exact ⟨fun h => hbetween _ _ h, hs ▸ hlast⟩
  · rintro ⟨hbetween, hlast⟩
    exact ⟨fun _ _ h => hbetween h, hs ▸ hlast⟩

theorem error_iff : run.final.errorTaken = run.stream .error ∧ run.final.errorLines = linesOf (run.stream .error) ↔
    run.Complete .error ∧ 0 ∉ run.stream .error ∧ run.Ends := by
  have htext := run.text_final .error (by decide)
  have htaken : run.final.errorTaken = (run.chunks .error).flatten :=
    (congrArg Source.Text.taken htext).trans (Source.Text.taken_foldl_read _ {})
  rw [htaken, chunks_eq_stream_iff]
  refine and_congr_right fun hc => ?_
  have hs := run.chunks_eq_stream_iff .error |>.mpr hc
  have hnul : run.final.errorLines = linesOf (run.stream .error) → 0 ∉ run.stream .error :=
    fun h => nul_notMem_of_lines ((congrArg Source.Text.lines htext).symm.trans h)
  rw [← and_iff_right_of_imp hnul]
  refine and_congr_right fun h0 => ?_
  have hlines : run.final.errorLines = ended (run.stream .error) ++
      flushed ((run.reads .error).any (·.ioHup)) (run.stream .error) := by
    rw [← hs]
    obtain ⟨rs, hrs⟩ : ∃ rs, run.reads .error = (live rs).filter Report.succeeds := by
      rw [reads, reports]
      split
      case isTrue  => exact ⟨_, rfl⟩
      case isFalse => exact ⟨[], rfl⟩
    have h0' : 0 ∉ [] ++ (run.chunks .error).flatten := by rwa [List.nil_append, hs]
    exact (congrArg Source.Text.lines htext).trans (lines_foldl_error {} List.not_mem_nil hrs h0')
  rw [hlines, flushed_eq_iff, Ends, List.any_eq_true]

-- What is written is delivered exactly when it is read to its end and all of its lines are flushed when they end.
theorem delivered_iff (run : Run) : run.Delivered ↔ run.Whole := by
  constructor
  · rintro ⟨hout, hattr, hst, hsl, het, hel⟩
    obtain ⟨hstatus, hs0, hf⟩ := (status_iff).mp ⟨hst, hsl⟩
    obtain ⟨herror, he0, he⟩ := (error_iff).mp ⟨het, hel⟩
    refine ⟨fun {fd} hfd => ?_, hs0, hf, he0, he⟩
    cases fd
    · exact absurd rfl hfd
    · exact (output_iff).mp hout
    · exact herror
    · exact hstatus
    · exact (attributes_iff).mp hattr
  · rintro ⟨hc, hs0, hf, he0, he⟩
    obtain ⟨hst, hsl⟩ := (status_iff).mpr ⟨hc (by decide), hs0, hf⟩
    obtain ⟨het, hel⟩ := (error_iff).mpr ⟨hc (by decide), he0, he⟩
    exact ⟨(output_iff).mpr (hc (by decide)), (attributes_iff).mpr (hc (by decide)), hst, hsl, het, hel⟩

-- A read of the status that is interrupted in the middle of a line.
def interruptedStatus : Run where
  hasInput := false
  opened _ := true
  unread _ := []
  unopened h := Bool.noConfusion h
  polls := [
    { report := fun _ => { ioIn := true, reads := .short ⟨[65], by decide⟩ } },
    { report := fun _ => { ioIn := true, reads := .interrupted } },
    { report := fun _ => { ioIn := true, ioHup := true, reads := .short ⟨[66, newline], by decide⟩ } }]

theorem not_delivered_interruptedStatus :
    ¬∀ run : Run, (∀ fd, run.final.opened fd = false) → run.Delivered := by
  intro h
  have hclosed (fd : Fd) : interruptedStatus.final.opened fd = false := by
    cases fd <;> rfl
  have hd := h interruptedStatus hclosed
  obtain ⟨-, -, hflushes⟩ := (status_iff).mp ⟨hd.status, hd.statusLines⟩
  have hchunks : interruptedStatus.chunks .status = [[65]] ++ [] :: [[66, newline]] := rfl
  have hcut : ¬(unended [[65]].flatten = [] ∨ [[66, newline]].flatten = []) := by decide
  exact hcut (hflushes.between hchunks)

end Run

end GnupgProcess
