import GcrModel.GLib.Strings

-- A GInputStream that is read until there are so many bytes.
namespace GLib

-- What a read of a stream comes upon: at least one byte, the end of the file, or an error, which may be a cancelled call.
inductive Arrival
  | data (first : UInt8) (rest : Bytes)
  | eof
  | error
  deriving DecidableEq, Repr

abbrev InputStream := List Arrival

namespace InputStream

-- `g_input_stream_read_all`: whether there was no error, with the bytes in front of it or of the end of the file.
@[grind =]
def readAll : Nat → InputStream → Bool × Bytes × InputStream
  | 0,         s                     => (true, [], s)
  | _ + 1,     []                    => (true, [], [])
  | _ + 1,     .eof :: s             => (true, [], s)
  | _ + 1,     .error :: s           => (false, [], s)
  | count + 1, .data first rest :: s =>
    match rest.drop count with
    -- A short read, or all that was asked for.
    | []            =>
      let (ret, bytes, s) := readAll (count - rest.length) s
      (ret, first :: rest ++ bytes, s)
    | next :: later => (true, first :: rest.take count, .data next later :: s)

-- The bytes in front of the end of the file or an error.
@[grind =]
def content : InputStream → Bytes
  | .data first rest :: s => first :: rest ++ content s
  | _                     => []

-- Whether an error comes after these bytes.
@[grind =]
def failing : InputStream → Bool
  | .data _ _ :: s => failing s
  | .error :: _    => true
  | _              => false

-- What is read is what comes next, and all of it unless the stream ends.
theorem readAll_spec (count : Nat) (s : InputStream) :
    (readAll count s).2.1 = (content s).take count ∧
    ((readAll count s).1 = true ↔ count ≤ (content s).length ∨ failing s = false) ∧
    (count ≤ (content s).length →
      content (readAll count s).2.2 = (content s).drop count ∧ failing (readAll count s).2.2 = failing s) := by
  fun_induction readAll count s with
  | case1 s => simp
  | case2 n => simp [content, failing]
  | case3 n s => simp [content, failing]
  | case4 n s => simp [content, failing]
  | case5 count first rest s hdrop ret bytes s' hread ih =>
    have hle : rest.length ≤ count := List.drop_eq_nil_iff.mp hdrop
    obtain ⟨hbytes, hret, hrest⟩ := ih
    simp only [hread] at hbytes hret hrest
    simp only [content, failing, List.length_append, List.length_cons, List.take_succ_cons, List.drop_succ_cons,
      List.cons_append]
    refine ⟨?_, ?_, fun hcount => ?_⟩
    · rw [hbytes, List.take_append, List.take_of_length_le hle]
    · rw [hret]
      exact or_congr_left (by omega)
    · obtain ⟨hcontent, hfailing⟩ := hrest (by omega)
      rw [hcontent, List.drop_append, List.drop_eq_nil_of_le hle, List.nil_append]
      exact ⟨rfl, hfailing⟩
  | case6 count first rest s next later hdrop =>
    have hlt : count < rest.length := by
      refine Nat.lt_of_not_le fun hle => ?_
      cases (List.drop_eq_nil_iff.mpr hle).symm.trans hdrop
    simp only [content, failing, List.length_append, List.length_cons, List.take_succ_cons, List.drop_succ_cons,
      List.cons_append]
    refine ⟨?_, ?_, fun _ => ⟨?_, trivial⟩⟩
    · rw [List.take_append_of_le_length (Nat.le_of_lt hlt)]
    · exact iff_of_true trivial (.inl (by omega))
    · rw [List.drop_append_of_le_length (Nat.le_of_lt hlt), hdrop, List.cons_append]

end InputStream

end GLib
