import Mathlib.Data.List.Basic
import Mathlib.Data.List.Flatten
import Mathlib.Data.List.GetD

-- Blocks of one size behind each other, of which as much is used as is needed.
namespace Blocks

variable {α : Type*} {f g : Nat → List α} {u c d n : Nat}

def join (f : Nat → List α) (c : Nat) : List α :=
  (List.range c).flatMap f

-- The first `n` elements of as many blocks as it takes.
def first (f : Nat → List α) (u n : Nat) : List α :=
  (join f ((n + u - 1) / u)).take n

@[simp]
theorem join_zero (f : Nat → List α) : join f 0 = [] :=
  rfl

theorem join_succ (f : Nat → List α) (c : Nat) : join f (c + 1) = join f c ++ f c := by
  simp [join, List.range_succ]

theorem join_congr (h : ∀ i < c, f i = g i) : join f c = join g c := by
  induction c with
  | zero => rfl
  | succ c ih => rw [join_succ, join_succ, ih fun i hi => h i (Nat.lt_succ_of_lt hi), h c (Nat.lt_succ_self c)]

theorem length_join (h : ∀ i, (f i).length = u) (c : Nat) : (join f c).length = c * u := by
  induction c with
  | zero      => rw [join_zero, Nat.zero_mul]; rfl
  | succ c ih => rw [join_succ, List.length_append, ih, h, Nat.succ_mul]

-- An element of a block.
theorem getD_join (h : ∀ i, (f i).length = u) {i : Nat} (hi : i < c * u) (a : α) :
    (join f c).getD i a = (f (i / u)).getD (i % u) a := by
  have hu : 0 < u := Nat.pos_of_ne_zero fun h => by rw [h, Nat.mul_zero] at hi; exact Nat.not_lt_zero _ hi
  induction c with
  | zero => exact absurd hi (by rw [Nat.zero_mul]; exact Nat.not_lt_zero i)
  | succ c ih =>
    have hlen := length_join h c
    rw [join_succ]
    by_cases hlt : i < c * u
    case pos => rw [List.getD_append _ _ _ _ (by rw [hlen]; exact hlt), ih hlt]
    case neg =>
      have hle := Nat.not_lt.mp hlt
      rw [Nat.succ_mul] at hi
      have hsplit : i = u * c + (i - c * u) := by rw [Nat.mul_comm]; omega
      have hdiv : i / u = c := by
        rw [hsplit, Nat.mul_add_div hu, Nat.div_eq_of_lt (by omega), Nat.add_zero]
      have hmod : i % u = i - c * u := by
        conv_lhs => rw [hsplit, Nat.mul_add_mod, Nat.mod_eq_of_lt (by omega)]
      rw [List.getD_append_right _ _ _ _ (by rw [hlen]; exact hle), hlen, hdiv, hmod]

-- A block more adds what is still missing.
theorem take_join_succ (h : ∀ i, (f i).length = u) (c n : Nat) :
    (join f (c + 1)).take n = (join f c).take n ++ (f c).take (n - c * u) := by
  rw [join_succ, List.take_append, length_join h]

theorem take_join_of_le (h : ∀ i, (f i).length = u) (hn : n ≤ c * u) (hle : c ≤ d) : (join f d).take n = (join f c).take n := by
  induction hle with
  | refl => rfl
  | @step d hle ih =>
    have hd : n - d * u = 0 := Nat.sub_eq_zero_of_le (Nat.le_trans hn (Nat.mul_le_mul_right u hle))
    rw [take_join_succ h, ih, hd, List.take_zero, List.append_nil]

theorem le_ceil_mul (hu : 0 < u) (n : Nat) : n ≤ (n + u - 1) / u * u := by
  have hsplit := Nat.div_add_mod (n + u - 1) u
  have hlt := Nat.mod_lt (n + u - 1) hu
  rw [Nat.mul_comm] at hsplit
  omega

theorem ceil_le (hu : 0 < u) (h : n ≤ c * u) : (n + u - 1) / u ≤ c := by
  rw [Nat.div_le_iff_le_mul_add_pred hu, Nat.mul_comm]
  omega

-- More blocks than it takes do no harm.
theorem first_eq (h : ∀ i, (f i).length = u) (hu : 0 < u) (hn : n ≤ c * u) : first f u n = (join f c).take n :=
  (take_join_of_le h (le_ceil_mul hu n) (ceil_le hu hn)).symm

theorem length_first (h : ∀ i, (f i).length = u) (hu : 0 < u) (n : Nat) : (first f u n).length = n := by
  rw [first, List.length_take, length_join h]
  exact Nat.min_eq_left (le_ceil_mul hu n)

theorem take_first (h : ∀ i, (f i).length = u) (hu : 0 < u) (hn : u ≤ n) : (first f u n).take u = f 0 := by
  have hpos : 1 ≤ (n + u - 1) / u := Nat.div_pos (by omega) hu
  have hone : join f 1 = f 0 := by rw [join_succ, join_zero, List.nil_append]
  rw [first, List.take_take, Nat.min_eq_left hn, take_join_of_le h (Nat.le_of_eq (Nat.one_mul u).symm) hpos, hone,
    List.take_of_length_le (Nat.le_of_eq (h 0))]

end Blocks

-- Cipher block chaining over a block cipher.
namespace Cbc

abbrev Bytes := List UInt8

structure BlockCipher (κ : Type*) where
  encrypt : κ → Bytes → Bytes
  decrypt : κ → Bytes → Bytes

-- On blocks of this size the cipher can be inverted.
structure BlockCipher.Lawful {κ : Type*} (cipher : BlockCipher κ) (size : Nat) : Prop where
  length_encrypt  : ∀ key block, block.length = size → (cipher.encrypt key block).length = size
  decrypt_encrypt : ∀ key block, block.length = size → cipher.decrypt key (cipher.encrypt key block) = block

variable {κ : Type*} (cipher : BlockCipher κ) (size : Nat) (key : κ)

def xor (a b : Bytes) : Bytes :=
  List.zipWith (· ^^^ ·) a b

-- The first blocks of a text, after the block `iv`.
def encrypt : Nat → Bytes → Bytes → Bytes
  | 0,     _,  _    => []
  | n + 1, iv, text =>
    let block := cipher.encrypt key (xor (text.take size) iv)
    block ++ encrypt n block (text.drop size)

def decrypt : Nat → Bytes → Bytes → Bytes
  | 0,     _,  _    => []
  | n + 1, iv, text =>
    let block := text.take size
    xor (cipher.decrypt key block) iv ++ decrypt n block (text.drop size)

variable {cipher size} {n : Nat} {iv text a b : Bytes}

theorem xor_xor (h : a.length = b.length) : xor (xor a b) b = a := by
  induction a generalizing b with
  | nil => rfl
  | cons x a ih =>
    cases b with
    | nil => simp at h
    | cons y b =>
      have hxy : x ^^^ y ^^^ y = x := by rw [UInt8.xor_assoc, UInt8.xor_self, UInt8.xor_zero]
      have htail := ih (Nat.succ.inj h)
      rw [xor, xor] at htail ⊢
      rw [List.zipWith_cons_cons, List.zipWith_cons_cons, hxy, htail]

theorem length_encrypt (hc : cipher.Lawful size) (hiv : iv.length = size) (h : text.length = n * size) :
    (encrypt cipher size key n iv text).length = n * size := by
  induction n generalizing iv text with
  | zero => simp [encrypt]
  | succ n ih =>
    rw [Nat.succ_mul] at h
    have hblock : (xor (text.take size) iv).length = size := by
      simp [xor, hiv, h]
    have henc := hc.length_encrypt key _ hblock
    rw [encrypt, List.length_append, henc, ih henc (by simp [h]), Nat.succ_mul, Nat.add_comm]

-- Whole blocks are decrypted to what they were.
theorem decrypt_encrypt (hc : cipher.Lawful size) (hiv : iv.length = size) (h : text.length = n * size) :
    decrypt cipher size key n iv (encrypt cipher size key n iv text) = text := by
  induction n generalizing iv text with
  | zero =>
    rw [Nat.zero_mul] at h
    rw [List.eq_nil_of_length_eq_zero h]
    rfl
  | succ n ih =>
    rw [Nat.succ_mul] at h
    have htake : (text.take size).length = size := by simp [h]
    have hblock : (xor (text.take size) iv).length = size := by simp [xor, hiv, htake]
    have henc := hc.length_encrypt key _ hblock
    have hlen : (encrypt cipher size key (n + 1) iv text).take size = cipher.encrypt key (xor (text.take size) iv) := by
      rw [encrypt, List.take_left' henc]
    have hrest : (encrypt cipher size key (n + 1) iv text).drop size =
        encrypt cipher size key n (cipher.encrypt key (xor (text.take size) iv)) (text.drop size) := by
      rw [encrypt, List.drop_left' henc]
    rw [decrypt, hlen, hrest, hc.decrypt_encrypt key _ hblock, xor_xor (htake.trans hiv.symm), ih henc (by simp [h])]
    exact List.take_append_drop size text

end Cbc
