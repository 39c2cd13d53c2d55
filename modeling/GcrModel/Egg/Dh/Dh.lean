import GcrModel.Egg.Symkey.Symkey
import Mathlib.Data.Nat.Digits.Lemmas
import Mathlib.Data.Nat.Size

-- egg-dh-libgcrypt.c. The numbers of the library are natural ones, and there is memory for all of them.
namespace Dh

open GLib Loop Symkey

structure EggDhParams where
  prime : Nat
  base  : Nat
  deriving DecidableEq, Repr

-- How a call ends: with an assertion that fails, or with a pair of a public and a private number.
inductive Outcome
  | assertion
  | pair (pub priv : Nat)
  deriving DecidableEq, Repr

-- `gcry_mpi_randomize` bumps up to the next byte.
def gcryMpiRandomize (bits random : Nat) : Nat :=
  random % 2 ^ ((bits + 7) / 8 * 8)

def gcryMpiClearHighbit (n bit : Nat) : Nat :=
  n % 2 ^ bit

def gcryMpiPowm (base exponent modulus : Nat) : Nat :=
  base ^ exponent % modulus

-- The number, and how many draws were made for it.
def randomRound (bits : Nat) (draws : Nat → Nat) (s : Nat × Nat) : Nat ⊕ Nat × Nat :=
  if s.1 = 0 then .inr (gcryMpiRandomize bits (draws s.2), s.2 + 1) else .inl s.1

-- No result if the draws were all zero until now.
def eggDhGenPair (fuel : Nat) (params : EggDhParams) (bits : Nat) (draws : Nat → Nat) : Option Outcome :=
  let pbits := params.prime.size
  if pbits ≤ 1 then some .assertion
  else if bits ≠ 0 ∧ pbits < bits then some .assertion
  else
    let bits := if bits = 0 then pbits else bits
    (run (randomRound bits draws) fuel (0, 0)).map fun priv =>
      -- Secret key value must be less than half of p
      let priv := if bits < priv.size then gcryMpiClearHighbit priv bits else priv
      let priv := if pbits - 1 < priv.size then gcryMpiClearHighbit priv (pbits - 1) else priv
      if params.prime ≤ priv then .assertion else .pair (gcryMpiPowm params.base priv params.prime) priv

-- The secret, or `NULL`. No result if something is written outside of the memory, which is cleared when it is new.
def eggDhGenSecret (peer priv : Nat) (params : EggDhParams) : Option (Option Bytes) :=
  let k := gcryMpiPowm peer priv params.prime
  let nPrime := (mpiPrint params.prime).length
  let nValue := (mpiPrint k).length
  if nPrime < nValue then some none
  else do
    let value ← memcpy (List.replicate nPrime 0) 0 (mpiPrint k)
    -- Pad the secret with zero bytes to match length of prime in bytes.
    if nValue < nPrime then
      let value ← memcpy value (nPrime - nValue) (value.take nValue)
      (memcpy value 0 (List.replicate (nPrime - nValue) 0)).map some
    else some (some value)

def eggDhPubkeyExport (pub : Nat) : Bytes :=
  mpiPrint pub

def eggDhPubkeyNewFromBytes (bytes : Bytes) : Nat :=
  mpiScan bytes

-- The first draw that is not zero.
def Drawn (bits : Nat) (draws : Nat → Nat) (number : Nat) : Prop :=
  ∃ k, gcryMpiRandomize bits (draws k) = number ∧ number ≠ 0 ∧ ∀ j < k, gcryMpiRandomize bits (draws j) = 0

-- The bits of a private number that are left of what was drawn.
def kept (params : EggDhParams) (bits : Nat) : Nat :=
  min bits (params.prime.size - 1)

-- The number of bits that are drawn.
def drawnBits (params : EggDhParams) (bits : Nat) : Nat :=
  if bits = 0 then params.prime.size else bits

-- A number that is drawn stays after it was cut, and is less than half of the prime then.
def Suited (params : EggDhParams) (bits number : Nat) : Prop :=
  ¬2 ^ kept params bits ∣ number ∧ 2 * (number % 2 ^ kept params bits) < params.prime

variable {params : EggDhParams} {bits number fuel : Nat} {draws : Nat → Nat} {outcome : Outcome} {pub priv : Nat}

theorem random_of_drawn (h : Drawn bits draws number) : ∃ fuel, run (randomRound bits draws) fuel (0, 0) = some number := by
  obtain ⟨k, hk, hne, hzero⟩ := h
  have hstart : ∀ j ≤ k, Relation.ReflTransGen (Next (randomRound bits draws)) (0, 0) (0, j) := by
    intro j hj
    induction j with
    | zero => exact .refl
    | succ j ih =>
      refine (ih (Nat.le_of_succ_le hj)).tail ?_
      rw [Next, randomRound, if_pos rfl, hzero j hj]
  have hlast : Next (randomRound bits draws) (0, k) (number, k + 1) := by
    rw [Next, randomRound, if_pos rfl, hk]
  have hstop : randomRound bits draws (number, k + 1) = .inl number := if_neg hne
  exact run_eq_some_iff.mpr ⟨_, (hstart k (Nat.le_refl k)).tail hlast, hstop⟩

theorem drawn_of_random (h : run (randomRound bits draws) fuel (0, 0) = some number) : Drawn bits draws number := by
  let p (s : Nat × Nat) := s.1 = 0 ∧ (∀ j < s.2, gcryMpiRandomize bits (draws j) = 0) ∨ Drawn bits draws s.1
  have hround : ∀ s t, p s → Next (randomRound bits draws) s t → p t := by
    intro s t hs hst
    rw [Next, randomRound] at hst
    split at hst
    case isFalse => cases hst
    case isTrue hzero =>
      obtain rfl := Sum.inr.inj hst
      have hprevious : ∀ j < s.2, gcryMpiRandomize bits (draws j) = 0 := by
        obtain ⟨-, hall⟩ | ⟨k, -, hne, -⟩ := hs
        · exact hall
        · exact absurd hzero hne
      by_cases hnext : gcryMpiRandomize bits (draws s.2) = 0
      · refine .inl ⟨hnext, fun j hj => ?_⟩
        obtain hj | rfl := Nat.lt_succ_iff_lt_or_eq.mp hj
        · exact hprevious j hj
        · exact hnext
      · exact .inr ⟨s.2, rfl, hnext, hprevious⟩
  obtain ⟨s, hs, hstop⟩ := invariant (p := p) (.inl ⟨rfl, fun j hj => absurd hj (Nat.not_lt_zero j)⟩) hround h
  rw [randomRound] at hstop
  split at hstop
  case isTrue         => cases hstop
  case isFalse hne =>
    obtain rfl := Sum.inl.inj hstop
    obtain ⟨hzero, -⟩ | hdrawn := hs
    · exact absurd hzero hne
    · exact hdrawn

-- Bits are only cut off where there are more of them.
theorem clear_eq (n bit : Nat) : (if bit < n.size then gcryMpiClearHighbit n bit else n) = n % 2 ^ bit := by
  split
  case isTrue       => rfl
  case isFalse hle => rw [Nat.mod_eq_of_lt (Nat.size_le.mp (Nat.not_lt.mp hle))]

theorem mod_two_pow_mod (n a b : Nat) : n % 2 ^ a % 2 ^ b = n % 2 ^ min a b := by
  obtain hle | hle := Nat.le_total a b
  · rw [Nat.min_eq_left hle]
    exact Nat.mod_eq_of_lt (Nat.lt_of_lt_of_le (Nat.mod_lt _ (Nat.two_pow_pos a)) (Nat.pow_le_pow_right Nat.two_pos hle))
  · rw [Nat.min_eq_right hle]
    exact Nat.mod_mod_of_dvd n (pow_dvd_pow 2 hle)

theorem kept_lt_prime (hprime : 1 < params.prime.size) (n : Nat) : n % 2 ^ kept params bits < params.prime := by
  have hpow : 2 ^ (params.prime.size - 1) ≤ params.prime := Nat.lt_size.mp (by omega)
  have hkept : 2 ^ kept params bits ≤ 2 ^ (params.prime.size - 1) :=
    Nat.pow_le_pow_right Nat.two_pos (Nat.min_le_right _ _)
  exact Nat.lt_of_lt_of_le (Nat.mod_lt _ (Nat.two_pow_pos _)) (Nat.le_trans hkept hpow)

-- No assertion fails, and the pair is made of the bits that are kept.
theorem eggDhGenPair_eq (hprime : 1 < params.prime.size) (hbits : bits ≤ params.prime.size) :
    eggDhGenPair fuel params bits draws =
      (run (randomRound (drawnBits params bits) draws) fuel (0, 0)).map fun number =>
        .pair (gcryMpiPowm params.base (number % 2 ^ kept params (drawnBits params bits)) params.prime)
          (number % 2 ^ kept params (drawnBits params bits)) := by
  rw [eggDhGenPair]
  dsimp only
  rw [if_neg (Nat.not_le.mpr hprime), if_neg fun h => Nat.not_lt.mpr hbits h.2]
  refine Option.map_congr fun number _ => ?_
  rw [clear_eq, clear_eq, mod_two_pow_mod]
  exact if_neg (Nat.not_le.mpr (kept_lt_prime hprime number))

theorem mpiScan_mpiPrint (n : Nat) : mpiScan (mpiPrint n) = n := by
  have hdigits : (Radix.digits 256 n).map (UInt8.toNat ∘ UInt8.ofNat) = Radix.digits 256 n := by
    conv_rhs => rw [← List.map_id (Radix.digits 256 n)]
    refine List.map_congr_left fun d hd => ?_
    exact UInt8.toNat_ofNat_of_lt' (Radix.lt_of_mem_digits (by decide) hd)
  rw [mpiScan, mpiPrint, List.map_map, hdigits, Radix.value_digits]

-- As many bytes as the bits take.
theorem length_mpiPrint (n : Nat) : (mpiPrint n).length = (n.size + 7) / 8 := by
  refine eq_of_forall_ge_iff fun k => ?_
  have hpow : 256 ^ k = 2 ^ (8 * k) := by rw [Nat.pow_mul]
  rw [mpiPrint, List.length_map, Radix.digits, List.length_reverse, Nat.digits_length_le_iff (by decide), hpow, ← Nat.size_le]
  omega

-- A number in front of which there are zero bytes, so that it is as long as another one.
def padded (n length : Nat) : Bytes :=
  List.replicate (length - (mpiPrint n).length) 0 ++ mpiPrint n

theorem length_padded {n length : Nat} (hle : (mpiPrint n).length ≤ length) : (padded n length).length = length := by
  rw [padded, List.length_append, List.length_replicate, Nat.sub_add_cancel hle]

-- Memory that is new, and what is written at its start.
theorem memcpy_fresh {value : Bytes} {n : Nat} (hle : value.length ≤ n) :
    memcpy (List.replicate n 0) 0 value = some (value ++ List.replicate (n - value.length) 0) := by
  have hcopy := @memcpy_append value [] (List.replicate n 0) (by rw [List.length_replicate]; exact hle)
  rwa [List.nil_append, List.nil_append, List.drop_replicate] at hcopy

-- The value is moved to the end of the memory.
theorem memcpy_end (value : Bytes) (padding : Nat) :
    memcpy (value ++ List.replicate padding 0) padding value =
      some ((value ++ List.replicate padding 0).take padding ++ value) := by
  have hsplit := List.take_append_drop padding (value ++ List.replicate padding 0)
  have hfront : ((value ++ List.replicate padding 0).take padding).length = padding := by
    rw [List.length_take, List.length_append, List.length_replicate]
    omega
  have hback : value.length = ((value ++ List.replicate padding 0).drop padding).length := by
    rw [List.length_drop, List.length_append, List.length_replicate, Nat.add_sub_cancel]
  have hcopy := @memcpy_append value ((value ++ List.replicate padding 0).take padding)
    ((value ++ List.replicate padding 0).drop padding) (Nat.le_of_eq hback)
  rwa [hsplit, hfront, hback, List.drop_length, List.append_nil] at hcopy

-- The bytes in front of it are cleared.
theorem memcpy_front {front : Bytes} {padding : Nat} (hlen : front.length = padding) (value : Bytes) :
    memcpy (front ++ value) 0 (List.replicate padding 0) = some (List.replicate padding 0 ++ value) := by
  obtain rfl := hlen
  have hcopy := @memcpy_append (List.replicate front.length 0) [] (front ++ value)
    (by rw [List.length_replicate, List.length_append]; omega)
  rwa [List.nil_append, List.nil_append, List.length_replicate, List.drop_left] at hcopy

-- The secret is as long as the prime, whatever its value.
theorem eggDhGenSecret_eq (peer priv : Nat) (hpos : 0 < params.prime) :
    (mpiPrint (gcryMpiPowm peer priv params.prime)).length ≤ (mpiPrint params.prime).length ∧
    eggDhGenSecret peer priv params =
      some (some (padded (gcryMpiPowm peer priv params.prime) (mpiPrint params.prime).length)) := by
  have hlt : gcryMpiPowm peer priv params.prime < params.prime := Nat.mod_lt _ hpos
  have hle : (mpiPrint (gcryMpiPowm peer priv params.prime)).length ≤ (mpiPrint params.prime).length := by
    have hsize := Nat.size_le_size (Nat.le_of_lt hlt)
    rw [length_mpiPrint, length_mpiPrint]
    omega
  refine ⟨hle, ?_⟩
  rw [eggDhGenSecret, padded]
  generalize mpiPrint (gcryMpiPowm peer priv params.prime) = secret at *
  rw [if_neg (Nat.not_lt.mpr hle), memcpy_fresh hle, Option.bind_eq_bind, Option.bind_some]
  split
  case isTrue hshort =>
    have hfront : ((secret ++ List.replicate ((mpiPrint params.prime).length - secret.length) 0).take
        ((mpiPrint params.prime).length - secret.length)).length = (mpiPrint params.prime).length - secret.length := by
      rw [List.length_take, List.length_append, List.length_replicate]
      omega
    rw [List.take_left, memcpy_end, Option.bind_some, memcpy_front hfront]
    rfl
  case isFalse hlong =>
    have hzero : (mpiPrint params.prime).length - secret.length = 0 := Nat.sub_eq_zero_of_le (Nat.not_lt.mp hlong)
    rw [hzero, List.replicate_zero, List.append_nil, List.nil_append]

theorem powm_comm (params : EggDhParams) (a b : Nat) :
    gcryMpiPowm (gcryMpiPowm params.base a params.prime) b params.prime =
      gcryMpiPowm (gcryMpiPowm params.base b params.prime) a params.prime := by
  rw [gcryMpiPowm, gcryMpiPowm, gcryMpiPowm, gcryMpiPowm, ← Nat.pow_mod, ← Nat.pow_mod, ← Nat.pow_mul, ← Nat.pow_mul,
    Nat.mul_comm]

-- What a pair is for: its private number is not zero and less than half of the prime, the public one goes with it and stays
-- the same when it is sent, and it has a secret with every other pair, as long as the prime.
structure Agrees (params : EggDhParams) (bits : Nat) (draws : Nat → Nat) : Prop where
  asserts  : ∀ fuel, eggDhGenPair fuel params bits draws ≠ some .assertion
  pair     : ∃ fuel pub priv, eggDhGenPair fuel params bits draws = some (.pair pub priv) ∧ priv ≠ 0 ∧
    2 * priv < params.prime ∧ pub = gcryMpiPowm params.base priv params.prime
  transfer : ∀ pub, eggDhPubkeyNewFromBytes (eggDhPubkeyExport pub) = pub
  secret   : ∀ {fuel fuel' pub priv bits' draws' pub' priv'}, eggDhGenPair fuel params bits draws = some (.pair pub priv) →
    bits' ≤ params.prime.size → eggDhGenPair fuel' params bits' draws' = some (.pair pub' priv') → ∃ secret,
      eggDhGenSecret pub' priv params = some (some secret) ∧ eggDhGenSecret pub priv' params = some (some secret) ∧
        secret.length = (params.prime.size + 7) / 8

theorem pair_inv (hprime : 1 < params.prime.size) (hbits : bits ≤ params.prime.size)
    (h : eggDhGenPair fuel params bits draws = some (.pair pub priv)) :
    ∃ number, Drawn (drawnBits params bits) draws number ∧ priv = number % 2 ^ kept params (drawnBits params bits) ∧
      pub = gcryMpiPowm params.base priv params.prime := by
  rw [eggDhGenPair_eq hprime hbits, Option.map_eq_some_iff] at h
  obtain ⟨number, hrun, heq⟩ := h
  cases heq
  exact ⟨number, drawn_of_random hrun, rfl, rfl⟩

-- The same secret for both sides.
theorem secret_of_pairs (hprime : 1 < params.prime.size) {a b : Nat} :
    ∃ secret, eggDhGenSecret (gcryMpiPowm params.base b params.prime) a params = some (some secret) ∧
      eggDhGenSecret (gcryMpiPowm params.base a params.prime) b params = some (some secret) ∧
        secret.length = (params.prime.size + 7) / 8 := by
  have hpos : 0 < params.prime := Nat.size_pos.mp (by omega)
  obtain ⟨hle, hsecret⟩ := eggDhGenSecret_eq (gcryMpiPowm params.base b params.prime) a hpos
  obtain ⟨-, hsecret'⟩ := eggDhGenSecret_eq (gcryMpiPowm params.base a params.prime) b hpos
  refine ⟨_, hsecret, ?_, ?_⟩
  · rw [hsecret', powm_comm]
  · rw [length_padded hle, length_mpiPrint]

theorem Agrees.suited (h : Agrees params bits draws) (hprime : 1 < params.prime.size) (hbits : bits ≤ params.prime.size) :
    ∃ number, Drawn (drawnBits params bits) draws number ∧ Suited params (drawnBits params bits) number := by
  obtain ⟨fuel, pub, priv, hpair, hne, hhalf, -⟩ := h.pair
  obtain ⟨number, hdrawn, rfl, -⟩ := pair_inv hprime hbits hpair
  exact ⟨number, hdrawn, fun hdvd => hne (Nat.mod_eq_zero_of_dvd hdvd), hhalf⟩

-- A pair is what it should be if and only if the number that was drawn for it is suited.
theorem genPair_agrees_iff (hprime : 1 < params.prime.size) (hbits : bits ≤ params.prime.size) :
    Agrees params bits draws ↔
      ∃ number, Drawn (drawnBits params bits) draws number ∧ Suited params (drawnBits params bits) number := by
  constructor
  · exact fun h => h.suited hprime hbits
  · rintro ⟨number, hdrawn, hkept, hhalf⟩
    constructor
    case asserts =>
      intro fuel
      rw [eggDhGenPair_eq hprime hbits]
      cases run (randomRound (drawnBits params bits) draws) fuel (0, 0) <;> simp
    case pair =>
      obtain ⟨fuel, hrun⟩ := random_of_drawn hdrawn
      refine ⟨fuel, _, _, ?_, fun hzero => hkept (Nat.dvd_of_mod_eq_zero hzero), hhalf, rfl⟩
      rw [eggDhGenPair_eq hprime hbits, hrun]
      rfl
    case transfer => exact mpiScan_mpiPrint
    case secret   =>
      intro fuel fuel' pub priv bits' draws' pub' priv' hpair hbits' hpair'
      obtain ⟨-, -, -, rfl⟩ := pair_inv hprime hbits hpair
      obtain ⟨-, -, -, rfl⟩ := pair_inv hprime hbits' hpair'
      exact secret_of_pairs hprime

theorem agrees_six : Agrees ⟨23, 5⟩ 0 fun _ => 6 :=
  (@genPair_agrees_iff ⟨23, 5⟩ 0 (fun _ => 6) (by decide) (by decide)).mpr
    ⟨6, ⟨0, by decide, by decide, fun j hj => absurd hj (Nat.not_lt_zero j)⟩, by decide, by decide⟩

-- The number is cut to zero, or it is more than half of the prime.
theorem not_agrees_cut : ¬Agrees ⟨23, 5⟩ 0 (fun _ => 16) ∧ ¬Agrees ⟨23, 5⟩ 0 fun _ => 15 := by
  constructor
  · intro h
    obtain ⟨number, ⟨_, hnumber, -⟩, hkept, -⟩ := h.suited (by decide) (by decide)
    obtain rfl : 16 = number := hnumber
    revert hkept
    decide
  · intro h
    obtain ⟨number, ⟨_, hnumber, -⟩, -, hhalf⟩ := h.suited (by decide) (by decide)
    obtain rfl : 15 = number := hnumber
    revert hhalf
    decide

end Dh
