import GcrModel.Egg.Symkey.Symkey
import GcrModel.Library.Blocks

-- egg-hkdf-libgcrypt.c
namespace Hkdf

open GLib Symkey

-- The variables of the loop. `at'` is the distance from `output`.
structure Expand where
  buffer  : Bytes
  nBuffer : Nat
  nOutput : Nat
  at'     : Nat
  output  : Bytes
  deriving DecidableEq, Repr

-- No result if something is written outside of the memory.
def expandRound (md : Mac) (prk info : Bytes) (i : Nat) (s : Expand) : Option Expand := do
  let digest := md.mac prk (s.buffer.take s.nBuffer ++ info ++ [UInt8.ofNat i])
  let buffer ← memcpy s.buffer 0 (digest.take md.size)
  let step := min md.size s.nOutput
  let output ← memcpy s.output s.at' (buffer.take step)
  some ⟨buffer, md.size, s.nOutput - step, s.at' + step, output⟩

-- At most so many rounds from `i` on.
def expand (md : Mac) (prk info : Bytes) : Nat → Nat → Expand → Option Expand
  | 0,         _, s => some s
  | count + 1, i, s =>
    (expandRound md prk info i s).bind fun s => if s.nOutput = 0 then some s else expand md prk info count (i + 1) s

-- Whether there was a key, and what is in the memory for it then. The new buffer holds `fresh` before it is written.
def eggHkdfPerform (md : Option Mac) (fresh : Nat → UInt8) (input : Bytes) (salt : Option Bytes) (info output : Bytes)
    (nOutput : Nat) : Option (Bool × Bytes) :=
  match md with
  | none    => some (false, output)
  | some md =>
    if 255 * md.size % 2 ^ 32 < nOutput then some (false, output)
    else
      let buffer := (List.range md.size).map fresh
      -- Salt defaults to hash_len zeros
      let salt := salt.getD (List.replicate md.size 0)
      -- Step 1: Extract
      let prk := md.mac salt input
      -- Step 2: Expand
      (expand md prk info 255 1 ⟨buffer, 0, nOutput, 0, output⟩).map fun s => (true, s.output)

-- The blocks T(0), T(1), T(2) of the expansion. The first one is empty.
def block (md : Mac) (prk info : Bytes) : Nat → Bytes
  | 0     => []
  | i + 1 => md.mac prk (block md prk info i ++ info ++ [UInt8.ofNat (i + 1)])

-- T(1) || T(2) || ... || T(i)
def blocks (md : Mac) (prk info : Bytes) (i : Nat) : Bytes :=
  Blocks.join (fun i => block md prk info (i + 1)) i

-- The first bytes of as many blocks as it takes.
def expansion (md : Mac) (prk info : Bytes) (n : Nat) : Bytes :=
  Blocks.first (fun i => block md prk info (i + 1)) md.size n

variable {md : Mac} {prk info output data : Bytes} {n i count offset : Nat} {s : Expand}

theorem length_block (md : Mac) (prk info : Bytes) (i : Nat) : (block md prk info (i + 1)).length = md.size :=
  md.length _ _

theorem take_blocks_succ : (blocks md prk info (i + 1)).take n =
    (blocks md prk info i).take n ++ (block md prk info (i + 1)).take (n - i * md.size) :=
  Blocks.take_join_succ (length_block md prk info) i n

-- The variables after so many rounds, where `output` is the memory before them.
structure After (md : Mac) (prk info output : Bytes) (n i : Nat) (s : Expand) : Prop where
  length  : s.buffer.length = md.size
  buffer  : s.buffer.take s.nBuffer = block md prk info i
  nOutput : s.nOutput = n - i * md.size
  at'     : s.at' = ((blocks md prk info i).take n).length
  output  : s.output = (blocks md prk info i).take n ++ output.drop s.at'

-- There is one more block after a round.
theorem After.round (h : After md prk info output n i s) (hle : n ≤ output.length) :
    ∃ s', expandRound md prk info (i + 1) s = some s' ∧ After md prk info output n (i + 1) s' := by
  have hblock : (block md prk info (i + 1)).take md.size = block md prk info (i + 1) :=
    List.take_of_length_le (Nat.le_of_eq (length_block md prk info i))
  have hbuffer : memcpy s.buffer 0 (block md prk info (i + 1)) = some (block md prk info (i + 1)) := by
    have hcopy := @memcpy_append (block md prk info (i + 1)) [] s.buffer (by rw [length_block, h.length])
    rwa [length_block, List.drop_of_length_le (Nat.le_of_eq h.length), List.append_nil] at hcopy
  have hstep : (block md prk info (i + 1)).take (min md.size s.nOutput) =
      (block md prk info (i + 1)).take (n - i * md.size) := by
    rw [← h.nOutput, Nat.min_comm, ← List.take_take, hblock]
  have hat : s.at' = min n (i * md.size) := by
    rw [h.at', List.length_take, blocks, Blocks.length_join (length_block md prk info)]
  have hroom : ((block md prk info (i + 1)).take (n - i * md.size)).length ≤ (output.drop s.at').length := by
    rw [List.length_take, List.length_drop, hat]
    omega
  have houtput : memcpy s.output s.at' ((block md prk info (i + 1)).take (n - i * md.size)) =
      some ((blocks md prk info (i + 1)).take n ++ output.drop (s.at' + min md.size s.nOutput)) := by
    have hcopy := memcpy_append ((blocks md prk info i).take n) (output.drop s.at') hroom
    rw [← h.output, ← h.at', ← take_blocks_succ, List.drop_drop, List.length_take, length_block, ← h.nOutput,
      Nat.min_comm] at hcopy
    rw [← h.nOutput]
    exact hcopy
  refine ⟨⟨block md prk info (i + 1), md.size, s.nOutput - min md.size s.nOutput, s.at' + min md.size s.nOutput,
    (blocks md prk info (i + 1)).take n ++ output.drop (s.at' + min md.size s.nOutput)⟩, ?_, ?_⟩
  · have hmac : md.mac prk (s.buffer.take s.nBuffer ++ info ++ [UInt8.ofNat (i + 1)]) = block md prk info (i + 1) := by
      rw [h.buffer]
      rfl
    rw [expandRound, hmac, hblock, hbuffer, Option.bind_eq_bind, Option.bind_some]
    dsimp only
    rw [hstep, houtput]
    rfl
  · constructor
    case length  => exact length_block md prk info i
    case buffer  => exact hblock
    case nOutput =>
      show s.nOutput - min md.size s.nOutput = n - (i + 1) * md.size
      rw [h.nOutput, Nat.succ_mul]
      omega
    case at' =>
      show s.at' + min md.size s.nOutput = _
      rw [take_blocks_succ, List.length_append, ← h.at', List.length_take, length_block, h.nOutput, Nat.min_comm]
    case output => rfl

-- The rounds that there are write all the bytes, and they stop where there are no more.
theorem After.expand (h : After md prk info output n i s) (hle : n ≤ output.length) (hcount : n ≤ (i + count) * md.size) :
    ∃ s', expand md prk info count (i + 1) s = some s' ∧ s'.output = expansion md prk info n ++ output.drop n := by
  have hdone : ∀ {i s}, After md prk info output n i s → n ≤ i * md.size →
      s.output = expansion md prk info n ++ output.drop n := by
    intro i s h hi
    have hall : (blocks md prk info i).take n = expansion md prk info n :=
      (Blocks.first_eq (length_block md prk info) md.pos hi).symm
    rw [h.output, h.at', hall, expansion, Blocks.length_first (length_block md prk info) md.pos]
  induction count generalizing i s with
  | zero => exact ⟨s, rfl, hdone h hcount⟩
  | succ count ih =>
    obtain ⟨s', hround, hafter⟩ := h.round hle
    rw [Hkdf.expand, hround, Option.bind_some]
    split
    case isTrue hzero =>
      rw [hafter.nOutput] at hzero
      exact ⟨s', rfl, hdone hafter (Nat.le_of_sub_eq_zero hzero)⟩
    case isFalse => exact ih hafter (by rwa [Nat.add_right_comm])

-- The first bytes of the expansion are written into the memory, and no others. The size of a digest is a small one.
theorem eggHkdfPerform_eq (md : Mac) (hsize : 255 * md.size < 2 ^ 32) (fresh : Nat → UInt8) (input : Bytes)
    (salt : Option Bytes) (info output : Bytes) {n : Nat} (hn : n ≤ 255 * md.size) (hle : n ≤ output.length) :
    let prk := md.mac (salt.getD (List.replicate md.size 0)) input
    (expansion md prk info n).length = n ∧
      eggHkdfPerform (some md) fresh input salt info output n = some (true, expansion md prk info n ++ output.drop n) := by
  intro prk
  have hstart : After md prk info output n 0 ⟨(List.range md.size).map fresh, 0, n, 0, output⟩ := by
    constructor
    case length  => rw [List.length_map, List.length_range]
    case buffer  => rfl
    case nOutput => rw [Nat.zero_mul, Nat.sub_zero]
    case at'     => rw [blocks, Blocks.join_zero, List.take_nil, List.length_nil]
    case output  => rw [blocks, Blocks.join_zero, List.take_nil, List.nil_append, List.drop_zero]
  obtain ⟨s, hexpand, houtput⟩ := @After.expand _ _ _ _ _ _ 255 _ hstart hle (by rwa [Nat.zero_add])
  refine ⟨Blocks.length_first (length_block md prk info) md.pos n, ?_⟩
  rw [eggHkdfPerform]
  dsimp only
  rw [Nat.mod_eq_of_lt hsize, if_neg (Nat.not_lt.mpr hn), hexpand, Option.map_some, houtput]

-- Two bytes that are the lengths of what was hashed.
def lengths : Mac where
  mac key data := [UInt8.ofNat key.length, UInt8.ofNat data.length]
  size         := 2
  pos          := Nat.two_pos
  length _ _   := rfl

theorem eggHkdfPerform_lengths :
    (expansion lengths [2, 1] [7] 3).length = 3 ∧
      eggHkdfPerform (some lengths) (fun _ => 9) [5] none [7] [1, 1, 1, 1] 3 =
        some (true, expansion lengths [2, 1] [7] 3 ++ [1]) :=
  eggHkdfPerform_eq lengths (by decide) (fun _ => 9) [5] none [7] [1, 1, 1, 1] (by decide) (by decide)

end Hkdf
