import GcrModel.Gcr.Openpgp.Theorems.Safety

-- A packet is read the same when less follows it.
namespace Openpgp

open GLib

namespace Format

-- What is read from the front of a text does not depend on how much follows.
def Local {α : Type} (f : Format α) : Prop :=
  ∀ text a text', f.run text = some (a, text') →
    ∃ front, text = front ++ text' ∧ ∀ u, u <+: text' → f.run (front ++ u) = some (a, u)

variable {α β : Type} {f f' : Format α} {g : α → Format β} {n : Nat} {a : α}

namespace Local

theorem pure : Local (Pure.pure a : Format α) := by
  rintro text _ _ ⟨⟩
  exact ⟨[], rfl, fun _ _ => rfl⟩

theorem failure : Local (Alternative.failure : Format α) := by
  rintro text b text' ⟨⟩

theorem bind (hf : Local f) (hg : ∀ a, Local (g a)) : Local (f >>= g) := by
  intro text b text' h
  rw [StateT.run_bind] at h
  obtain ⟨⟨a, middle⟩, hmiddle, hrest⟩ := Option.bind_eq_some_iff.mp h
  obtain ⟨front, rfl, hfront⟩ := hf text a middle hmiddle
  obtain ⟨front', rfl, hfront'⟩ := hg a middle b text' hrest
  refine ⟨front ++ front', (List.append_assoc _ _ _).symm, ?_⟩
  intro u hu
  have hfirst := hfront (front' ++ u) ((List.prefix_append_right_inj front').mpr hu)
  rw [List.append_assoc, StateT.run_bind, hfirst]
  exact hfront' u hu

theorem ite {c : Prop} [Decidable c] (h : c → Local f) (h' : ¬c → Local f') : Local (if c then f else f') := by
  split
  case isTrue hc  => exact h hc
  case isFalse hc => exact h' hc

end Local

theorem local_byte : Local byte := by
  intro text c text' h
  cases text with
  | nil      => cases h
  | cons _ _ =>
    cases h
    exact ⟨[c], rfl, fun _ _ => rfl⟩

theorem local_bytes (n : Nat) : Local (bytes n) := by
  intro text buf text' h
  change (if text.length < n then none else some (text.take n, text.drop n)) = some (buf, text') at h
  split at h
  case isTrue  => cases h
  case isFalse hlt =>
    cases h
    have hlen : (text.take n).length = n := List.length_take_of_le (Nat.le_of_not_lt hlt)
    exact ⟨text.take n, (List.take_append_drop n text).symm, fun u _ => run_bytes hlen u⟩

theorem local_uint (n : Nat) : Local (uint n) :=
  (local_bytes n).bind fun _ => .pure

theorem local_newLength : Local newLength := by
  apply (local_byte).bind
  intro c
  apply Local.ite fun _ => .pure
  intro _
  apply Local.ite
  · exact fun _ => (local_byte).bind fun _ => .pure
  intro _
  exact Local.ite (fun _ => local_uint 4) fun _ => .failure

-- All that is left is the body.
theorem local_remaining_bytes : Local (remaining >>= bytes) := by
  intro text buf text' h
  have hrun : (remaining >>= bytes).run text = some (text, []) := by
    rw [run_remaining_bind]
    exact (congrArg _ (List.append_nil text).symm).trans (run_bytes rfl [])
  cases hrun.symm.trans h
  refine ⟨text, (List.append_nil text).symm, ?_⟩
  intro u hu
  rw [List.prefix_nil.mp hu, List.append_nil]
  exact hrun

theorem local_oldLength_bytes (ctb : UInt8) : Local (oldLength ctb >>= bytes) := by
  rw [oldLength]
  split
  case isTrue => exact ((local_byte).bind fun _ => .pure).bind local_bytes
  split
  case isTrue => exact (local_uint 2).bind local_bytes
  split
  case isTrue => exact (local_uint 4).bind local_bytes
  case isFalse => exact local_remaining_bytes

-- The test of the length is made again when the body is read.
theorem complete_bytes (pktType : UInt8) (length : Nat) :
    (do
      let p ← (do let rest ← remaining; if rest < length then failure else pure (pktType, length) : Format (UInt8 × Nat))
      let body ← bytes p.2
      pure (p.1, body) : Format (UInt8 × Bytes)) =
        (do let body ← bytes length; pure (pktType, body)) := by
  funext text
  change (_ : Format (UInt8 × Bytes)).run text = (_ : Format (UInt8 × Bytes)).run text
  rw [bind_assoc, run_remaining_bind]
  split
  case isTrue h =>
    have hbytes : (bytes length).run text = none := if_pos h
    have hright : (do let body ← bytes length; pure (pktType, body) : Format (UInt8 × Bytes)).run text = none := by
      rw [StateT.run_bind, hbytes]
      rfl
    exact hright.symm
  case isFalse => rfl

theorem local_packet : Local packet := by
  have hbody {length : Format Nat} (pktType : UInt8) (h : Local (length >>= bytes)) : Local (do
      let p ← (do
        let length ← length
        let rest ← remaining
        if rest < length then failure else pure (pktType, length) : Format (UInt8 × Nat))
      let body ← bytes p.2
      pure (p.1, body) : Format (UInt8 × Bytes)) := by
    rw [bind_assoc]
    simp only [complete_bytes]
    rw [← bind_assoc]
    exact h.bind fun _ => .pure
  rw [packet, header, bind_assoc]
  apply (local_byte).bind
  intro ctb
  dsimp only
  split
  case isTrue  => exact .failure
  case isFalse =>
    split
    case isTrue  => exact hbody _ ((local_newLength).bind local_bytes)
    case isFalse => exact hbody _ (local_oldLength_bytes ctb)

end Format

open Format

variable {text text' body : Bytes} {pktType : UInt8} {ps qs : List Piece} {p : Piece} {g : Piece × List Piece}

theorem cut_none (h : packet.run text = none) : cut text = ([], text) := by
  rw [cut]
  split
  case h_1 => rfl
  case h_2 h' => cases h.symm.trans h'

theorem cut_some (h : packet.run text = some ((pktType, body), text')) :
    cut text = (⟨pktType, body, text.take (text.length - text'.length)⟩ :: (cut text').1, (cut text').2) := by
  rw [cut]
  split
  case h_1 h' => cases h.symm.trans h'
  case h_2 h' =>
    cases h.symm.trans h'
    rfl

theorem cut_front {front : Bytes} (h : packet.run (front ++ text) = some ((pktType, body), text)) :
    cut (front ++ text) = (⟨pktType, body, front⟩ :: (cut text).1, (cut text).2) := by
  rw [cut_some h, List.length_append, Nat.add_sub_cancel, List.take_left]

theorem cut_nil : cut [] = ([], []) :=
  cut_none rfl

-- The first packets are the same when only they are there.
theorem cut_append (h : (cut text).1 = ps ++ qs) : ∃ rest, text = ps.flatMap Piece.raw ++ rest ∧
    cut rest = (qs, (cut text).2) ∧ cut (ps.flatMap Piece.raw) = (ps, []) := by
  induction ps generalizing text with
  | nil => exact ⟨text, rfl, Prod.ext h rfl, cut_nil⟩
  | cons p ps ih =>
    cases hrun : packet.run text with
    | none =>
      rw [cut_none hrun] at h
      cases h
    | some r =>
      obtain ⟨⟨pktType, body⟩, text'⟩ := r
      obtain ⟨front, rfl, hlocal⟩ := local_packet text _ text' hrun
      rw [cut_front hrun] at h ⊢
      obtain ⟨hp, hps⟩ := List.cons.inj h
      subst hp
      obtain ⟨rest, rfl, hrest, hfirst⟩ := ih hps
      have hfront := hlocal (ps.flatMap Piece.raw) (List.prefix_append _ _)
      refine ⟨rest, (List.append_assoc _ _ _).symm, hrest, ?_⟩
      rw [List.flatMap_cons, cut_front hfront, hfirst]

theorem group_cons_key (h : p.isKey) : group (p :: ps) = ([], (p, (group ps).1) :: (group ps).2) :=
  if_pos h

theorem group_cons_rest (h : ¬p.isKey) : group (p :: ps) = (p :: (group ps).1, (group ps).2) :=
  if_neg h

theorem group_append (ps : List Piece) : (group ps).1 ++ (group ps).2.flatMap pieces = ps := by
  induction ps with
  | nil => rfl
  | cons p ps ih =>
    by_cases hkey : p.isKey
    case pos =>
      rw [group_cons_key hkey]
      exact congrArg (p :: ·) ih
    case neg =>
      rw [group_cons_rest hkey]
      exact congrArg (p :: ·) ih

-- Only the first packet of a group is a key.
structure Keyed (g : Piece × List Piece) : Prop where
  key  : g.1.isKey
  rest : ∀ p ∈ g.2, ¬p.isKey

theorem group_keyed (ps : List Piece) : (∀ p ∈ (group ps).1, ¬p.isKey) ∧ ∀ g ∈ (group ps).2, Keyed g := by
  induction ps with
  | nil => exact ⟨fun _ h => absurd h List.not_mem_nil, fun _ h => absurd h List.not_mem_nil⟩
  | cons p ps ih =>
    obtain ⟨hlead, hkeyed⟩ := ih
    by_cases hkey : p.isKey
    case pos =>
      rw [group_cons_key hkey]
      exact ⟨fun _ h => absurd h List.not_mem_nil, List.forall_mem_cons.mpr ⟨⟨hkey, hlead⟩, hkeyed⟩⟩
    case neg =>
      rw [group_cons_rest hkey]
      exact ⟨List.forall_mem_cons.mpr ⟨hkey, hlead⟩, hkeyed⟩

theorem group_rest (h : ∀ p ∈ ps, ¬p.isKey) : group ps = (ps, []) := by
  induction ps with
  | nil => rfl
  | cons p ps ih =>
    obtain ⟨hp, hps⟩ := List.forall_mem_cons.mp h
    rw [group_cons_rest hp, ih hps]

theorem group_pieces (h : Keyed g) : group (pieces g) = ([], [g]) := by
  rw [pieces, group_cons_key h.key, group_rest h.rest]

-- A key with what follows it gives the same packets when it is alone.
theorem cut_raw (h : g ∈ (group (cut text).1).2) : cut (raw g) = (pieces g, []) := by
  obtain ⟨before, after, hsplit⟩ := List.append_of_mem h
  have hps := group_append (cut text).1
  rw [hsplit, List.flatMap_append, List.flatMap_cons, ← List.append_assoc] at hps
  obtain ⟨rest, _, hrest, _⟩ := cut_append hps.symm
  have hg : (cut rest).1 = pieces g ++ after.flatMap pieces := congrArg Prod.fst hrest
  obtain ⟨_, _, _, hraw⟩ := cut_append hg
  exact hraw

end Openpgp

-- What the parser gives to the callback in terms of the packets.
namespace Openpgp

open GLib Format

variable {hashes : Hashes} {flags : Flags} {current : UInt64} {data text tail outer : Bytes} {closure : Closure}
  {block : Option Nat} {beg fuel : Nat} {ps qs : List Piece} {p : Piece} {rs : List Record}
  {g : Piece × List Piece} {gs : List (Piece × List Piece)}

theorem parsePacket_eq (closure : Closure) (p : Piece) : parsePacket hashes flags closure p.pktType p.body =
    (do let rs ← addPiece hashes flags closure.records p; pure { closure with records := rs }) := by
  rw [addPiece, parsePacket, parsePacket]
  split
  case isTrue  => rfl
  case isFalse =>
    cases parseOpenpgpPacket hashes flags p.body p.body.length p.pktType ⟨0, closure.records⟩
    all_goals rfl

theorem normalize_eq (hkeys : flags.keys) (closure : Closure) :
    normalize (fun _ => current) flags beg closure =
      (do let rs ← normalizeKeyRecords current closure.records; pure { closure with records := rs }) :=
  if_pos hkeys

-- The bytes of the block that is open.
def openBytes (data : Bytes) (beg : Nat) (block : Option Nat) : Option Bytes :=
  block.map fun b => (data.drop b).take (beg - b)

theorem maybeEmitOpenpgpBlock_some {b : Nat} (hlt : b < beg) (hbeg : beg ≤ data.length) :
    maybeEmitOpenpgpBlock data closure (some b) beg =
      .ok { records := [], blocks := closure.blocks ++ [⟨closure.records, (data.drop b).take (beg - b)⟩] } := by
  rw [maybeEmitOpenpgpBlock, if_neg (Nat.ne_of_lt hlt), if_neg (Nat.not_le.mpr hlt), slice_eq (Nat.le_of_lt hlt) hbeg]
  rfl

theorem finish_none (hashes : Hashes) (hkeys : flags.keys) (tail : Bytes) :
    (finish (fun _ => current) flags data closure none beg).map Closure.blocks =
      (blocksOf hashes flags current tail [] closure.records none).map (closure.blocks ++ ·) := by
  rw [finish, normalize_eq hkeys, bind_assoc, Scan.map_bind, blocksOf, Scan.map_bind]
  apply bind_congr
  intro rs
  exact congrArg Except.ok (List.append_nil _).symm

theorem finish_blocks (hkeys : flags.keys) (hbeg : beg ≤ data.length) (hblock : ∀ b, block = some b → b < beg) :
    (finish (fun _ => current) flags data closure block beg).map Closure.blocks =
      (blocksOf hashes flags current [] [] closure.records (openBytes data beg block)).map (closure.blocks ++ ·) := by
  cases block with
  | none   => exact finish_none hashes hkeys []
  | some b =>
    rw [finish, normalize_eq hkeys, bind_assoc, Scan.map_bind]
    rw [openBytes, Option.map_some, blocksOf, lastRecords, if_pos rfl, Scan.map_bind]
    apply bind_congr
    intro rs
    rw [pure_bind, maybeEmitOpenpgpBlock_some (hblock b rfl) hbeg]
    rfl

theorem startPacket_key {pktType : UInt8} (hkeys : flags.keys) (hkey : pktType = 6 ∨ pktType = 5) :
    startPacket (fun _ => current) flags data closure block beg pktType =
      (do
        let rs ← normalizeKeyRecords current closure.records
        let closure ← maybeEmitOpenpgpBlock data { closure with records := rs } block beg
        pure (closure, some beg)) := by
  have hnew : ¬flags.keys ∨ pktType = 6 ∨ pktType = 5 := .inr hkey
  rw [startPacket]
  dsimp only
  rw [if_pos hkey, normalize_eq hkeys, bind_assoc]
  apply bind_congr
  intro rs
  rw [pure_bind, if_pos hnew]

theorem startPacket_rest {pktType : UInt8} (hkeys : flags.keys) (hkey : ¬(pktType = 6 ∨ pktType = 5)) :
    startPacket (fun _ => current) flags data closure block beg pktType = .ok (closure, block) := by
  have hnew : ¬(¬flags.keys ∨ pktType = 6 ∨ pktType = 5) := by
    rintro (h | h)
    · exact h hkeys
    · exact hkey h
  rw [startPacket]
  dsimp only
  rw [if_neg hkey, pure_bind, if_neg hnew]
  rfl

theorem blocksOf_key (hkey : p.isKey) : blocksOf hashes flags current tail (p :: ps) rs none =
    (do
      let rs ← normalizeKeyRecords current rs
      let rs ← addPiece hashes flags rs p
      blocksOf hashes flags current tail ps rs (some p.raw)) :=
  if_pos hkey

theorem blocksOf_next (hkey : p.isKey) : blocksOf hashes flags current tail (p :: ps) rs (some outer) =
    (do
      let rs ← normalizeKeyRecords current rs
      let next ← addPiece hashes flags [] p
      let blocks ← blocksOf hashes flags current tail ps next (some p.raw)
      pure (⟨rs, outer⟩ :: blocks)) :=
  if_pos hkey

theorem blocksOf_rest {outer : Option Bytes} (hkey : ¬p.isKey) : blocksOf hashes flags current tail (p :: ps) rs outer =
    (do
      let rs ← addPiece hashes flags rs p
      blocksOf hashes flags current tail ps rs (outer.map (· ++ p.raw))) :=
  if_neg hkey

theorem openBytes_append {stop : Nat} (hle : beg ≤ stop) (hblock : ∀ b, block = some b → b < beg) :
    openBytes data stop block = (openBytes data beg block).map (· ++ (data.drop beg).take (stop - beg)) := by
  cases block with
  | none   => rfl
  | some b =>
    have hlt := hblock b rfl
    have hdrop : data.drop beg = (data.drop b).drop (beg - b) := by
      rw [List.drop_drop, Nat.add_sub_cancel' (Nat.le_of_lt hlt)]
    have hsum : stop - b = (beg - b) + (stop - beg) := by omega
    rw [openBytes, Option.map_some, openBytes, Option.map_some, Option.map_some, hdrop, hsum, List.take_add]

theorem append_next (x : Result (List Block)) (b : Block) (bs : List Block) :
    x.map (bs ++ [b] ++ ·) = (do let next ← x; pure (b :: next)).map (bs ++ ·) := by
  cases x with
  | error e => rfl
  | ok next => exact congrArg Except.ok (List.append_assoc bs [b] next)

-- The packets from `beg` on. The fuel is more than the bytes that are left.
theorem parseFrom_blocks (hkeys : flags.keys) (hbeg : beg ≤ data.length) (hfuel : data.length < beg + fuel)
    (hblock : ∀ b, block = some b → b < beg) :
    (parseFrom hashes (fun _ => current) flags data fuel beg block closure).map Closure.blocks =
      (blocksOf hashes flags current (cut (data.drop beg)).2 (cut (data.drop beg)).1 closure.records
        (openBytes data beg block)).map (closure.blocks ++ ·) := by
  induction fuel generalizing beg block closure with
  | zero      => exact absurd hbeg (Nat.not_le.mpr hfuel)
  | succ fuel ih =>
    rw [parseFrom]
    split
    case isTrue hend =>
      rw [List.drop_eq_nil_of_le (Nat.le_of_eq hend.symm), cut_nil]
      exact finish_blocks hkeys hbeg hblock
    case isFalse hend =>
      cases hheader : header.run (data.drop beg) with
      | none =>
        obtain ⟨s, hread⟩ := readOpenpgpPacket_none hbeg hheader
        have hne : block ≠ some beg := fun h => Nat.lt_irrefl _ (hblock beg h)
        rw [hread, Scan.ok_bind, cut_none (run_packet_none hheader)]
        dsimp only
        rw [if_pos hne]
        cases block with
        | none   => exact finish_none hashes hkeys _
        | some b =>
          have htail : data.drop beg ≠ [] := by
            rw [Ne, List.drop_eq_nil_iff]
            omega
          rw [openBytes, Option.map_some, blocksOf, lastRecords, if_neg htail, maybeEmitOpenpgpBlock_some (hblock b rfl) hbeg]
          exact (finish_none hashes hkeys []).trans (congrArg Except.ok (List.append_nil _))
      | some r =>
        obtain ⟨⟨pktType, length⟩, text'⟩ := r
        obtain ⟨s, hread, hlt, hstop, rfl⟩ := readOpenpgpPacket_some hbeg hheader
        have hslice := slice_eq (m := data) (Nat.le_add_right s.cursor length) hstop
        rw [hread, Scan.ok_bind]
        dsimp only
        rw [hslice, Scan.ok_bind, Nat.add_sub_cancel_left, cut_some (run_packet_some hheader), List.drop_drop]
        have hraw : (data.drop beg).length - (data.drop (s.cursor + length)).length = s.cursor + length - beg := by
          rw [List.length_drop, List.length_drop]
          omega
        have hnext (closure : Closure) {block : Option Nat} (hblock : ∀ b, block = some b → b < s.cursor + length) :
            (parseFrom hashes (fun _ => current) flags data fuel (s.cursor + length) block closure).map _ = _ :=
          ih hstop (by omega) hblock
        rw [hraw]
        have hpacket (closure : Closure) : parsePacket hashes flags closure pktType ((data.drop s.cursor).take length) = _ :=
          parsePacket_eq closure ⟨pktType, (data.drop s.cursor).take length, (data.drop beg).take (s.cursor + length - beg)⟩
        by_cases hkey : pktType = 6 ∨ pktType = 5
        case pos =>
          have hpiece : Piece.isKey ⟨pktType, (data.drop s.cursor).take length,
              (data.drop beg).take (s.cursor + length - beg)⟩ := by
            simpa [Piece.isKey] using hkey
          have hbegun : ∀ b, some beg = some b → b < s.cursor + length := fun b hb => by cases hb; omega
          have hopen (closure : Closure) := hnext closure hbegun
          rw [startPacket_key hkeys hkey, bind_assoc, Scan.map_bind]
          cases block with
          | none   =>
            rw [openBytes, Option.map_none, blocksOf_key hpiece, Scan.map_bind]
            apply bind_congr
            intro rs
            rw [maybeEmitOpenpgpBlock, Scan.ok_bind, pure_bind]
            dsimp only
            rw [hpacket, bind_assoc, Scan.map_bind, Scan.map_bind]
            apply bind_congr
            intro rs
            exact hopen _
          | some b =>
            rw [openBytes, Option.map_some, blocksOf_next hpiece, Scan.map_bind]
            apply bind_congr
            intro rs
            rw [maybeEmitOpenpgpBlock_some (hblock b rfl) hbeg, Scan.ok_bind, pure_bind]
            dsimp only
            rw [hpacket, bind_assoc, Scan.map_bind, Scan.map_bind]
            apply bind_congr
            intro next
            rw [pure_bind, hopen]
            exact append_next _ _ _
        case neg =>
          have hrest : ∀ b, block = some b → b < s.cursor + length := fun b hb => by have := hblock b hb; omega
          rw [startPacket_rest hkeys hkey, Scan.ok_bind, blocksOf_rest (by simpa [Piece.isKey] using hkey),
            ← openBytes_append (by omega) hblock, hpacket, bind_assoc, Scan.map_bind, Scan.map_bind]
          apply bind_congr
          intro rs
          exact hnext _ hrest

theorem openpgpParse_blocks (hashes : Hashes) (current : UInt64) (hkeys : flags.keys) (data : Bytes) :
    openpgpParse hashes (fun _ => current) flags data =
      blocksOf hashes flags current (cut data).2 (cut data).1 [] none := by
  have hparse : (parseFrom hashes (fun _ => current) flags data (data.length + 1) 0 none {}).map Closure.blocks =
      (blocksOf hashes flags current (cut (data.drop 0)).2 (cut (data.drop 0)).1 [] none).map ([] ++ ·) :=
    parseFrom_blocks hkeys (Nat.zero_le _) (by omega) fun _ h => absurd h (Option.some_ne_none _).symm
  have hmap (x : Result (List Block)) : x.map ([] ++ ·) = x := by
    cases x
    all_goals rfl
  rw [List.drop_zero, hmap] at hparse
  rw [openpgpParse, ← hparse]
  cases parseFrom hashes (fun _ => current) flags data (data.length + 1) 0 none {}
  all_goals rfl

-- Packets that are no keys only add records and bytes.
theorem blocksOf_gather {outer : Option Bytes} (h : ∀ p ∈ qs, ¬p.isKey) :
    blocksOf hashes flags current tail (qs ++ ps) rs outer =
      (do
        let rs ← gather hashes flags rs qs
        blocksOf hashes flags current tail ps rs (outer.map (· ++ qs.flatMap Piece.raw))) := by
  induction qs generalizing rs outer with
  | nil =>
    cases outer
    case none => rfl
    case some =>
      rw [Option.map_some, List.flatMap_nil, List.append_nil]
      rfl
  | cons p qs ih =>
    obtain ⟨hp, hqs⟩ := List.forall_mem_cons.mp h
    rw [List.cons_append, blocksOf_rest hp, gather, List.foldlM_cons, bind_assoc]
    apply bind_congr
    intro rs
    rw [ih hqs, Option.map_map]
    cases outer
    case none => rfl
    case some =>
      rw [Option.map_some, Option.map_some, List.flatMap_cons, Function.comp_apply, List.append_assoc]
      rfl

theorem gather_cons (rs : List Record) (p : Piece) (ps : List Piece) :
    gather hashes flags rs (p :: ps) = (do let rs ← addPiece hashes flags rs p; gather hashes flags rs ps) :=
  List.foldlM_cons

theorem lastRecords_nil (rs : List Record) : lastRecords current [] rs = normalizeKeyRecords current rs :=
  if_pos rfl

-- The block that is open ends where the next key begins.
theorem blocksOf_open (h : ∀ g ∈ gs, Keyed g) (rs : List Record) (outer : Bytes) :
    blocksOf hashes flags current tail (gs.flatMap pieces) rs (some outer) =
      (do
        let rs ← lastRecords current (if gs.isEmpty then tail else []) rs
        let blocks ← emitted hashes flags current tail [] gs
        pure (⟨rs, outer⟩ :: blocks)) := by
  induction gs generalizing rs outer with
  | nil => rfl
  | cons g gs ih =>
    obtain ⟨hg, hgs⟩ := List.forall_mem_cons.mp h
    rw [List.flatMap_cons, pieces, List.cons_append, blocksOf_next hg.key, List.isEmpty_cons, if_neg Bool.false_ne_true,
      lastRecords_nil, emitted, pieces, gather_cons]
    apply bind_congr
    intro rs
    simp only [bind_assoc, pure_bind]
    apply bind_congr
    intro next
    rw [blocksOf_gather hg.rest, bind_assoc]
    apply bind_congr
    intro next
    rw [Option.map_some, ih hgs]
    simp only [bind_assoc, pure_bind]
    rfl

theorem blocksOf_groups (h : ∀ g ∈ gs, Keyed g) (rs : List Record) :
    blocksOf hashes flags current tail (gs.flatMap pieces) rs none =
      (do
        let rs ← normalizeKeyRecords current rs
        emitted hashes flags current tail rs gs) := by
  cases gs with
  | nil => rfl
  | cons g gs =>
    obtain ⟨hg, hgs⟩ := List.forall_mem_cons.mp h
    rw [List.flatMap_cons, pieces, List.cons_append, blocksOf_key hg.key]
    apply bind_congr
    intro rs
    rw [emitted, pieces, gather_cons, bind_assoc]
    apply bind_congr
    intro rs
    rw [blocksOf_gather hg.rest]
    apply bind_congr
    intro rs
    rw [Option.map_some, blocksOf_open hgs]
    rfl

-- The records in front of the first key go to the first block.
theorem openpgpParse_groups (hashes : Hashes) (current : UInt64) (hkeys : flags.keys) (data : Bytes) :
    openpgpParse hashes (fun _ => current) flags data =
      (do
        let lead ← gather hashes flags [] (group (cut data).1).1
        let lead ← normalizeKeyRecords current lead
        emitted hashes flags current (cut data).2 lead (group (cut data).1).2) := by
  obtain ⟨hlead, hkeyed⟩ := group_keyed (cut data).1
  have hsplit : blocksOf hashes flags current (cut data).2
      ((group (cut data).1).1 ++ (group (cut data).1).2.flatMap pieces) [] none = _ :=
    blocksOf_gather hlead
  rw [group_append] at hsplit
  rw [openpgpParse_blocks hashes current hkeys, hsplit]
  apply bind_congr
  intro lead
  exact blocksOf_groups hkeyed lead

theorem openpgpParse_raw (hashes : Hashes) (current : UInt64) (hkeys : flags.keys) (hg : g ∈ (group (cut data).1).2) :
    openpgpParse hashes (fun _ => current) flags (raw g) =
      (do
        let rs ← gather hashes flags [] (pieces g)
        let rs ← normalizeKeyRecords current rs
        pure [⟨rs, raw g⟩]) := by
  have hkeyed := (group_keyed (cut data).1).2 g hg
  rw [openpgpParse_groups hashes current hkeys, cut_raw hg]
  dsimp only
  rw [group_pieces hkeyed]
  rfl

end Openpgp
