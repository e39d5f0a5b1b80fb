import ElektronPool.Bitcoin.Block
import Mathlib.Tactic.IntervalCases

/-!
# Share and network difficulty

The difficulty of a hash and of a target, as exact rationals. A hash is below the target
that `bits` encode exactly if its difficulty reaches the network difficulty
(`ge_networkDifficulty`), although the pool computes the two separately.
-/

namespace ElektronPool.Stratum
set_option autoImplicit false
open Js Bitcoin

/-- `TRUE_DIFF_ONE`. -/
def trueDiffOne : ℚ := 65535 * 2 ^ 208

/-- The difficulty of a hash, read as a number. The hash zero has infinite difficulty. -/
def submissionDifficulty (target : ℕ) : Number :=
  if target = 0 then .inf false else .fin (trueDiffOne / target)

/-- `calculateDifficulty`. -/
def calculateDifficulty (hash256 : Buffer → Hash) (header : Buffer) : Number :=
  submissionDifficulty (hash256 header).value

/-- `StratumV1JobsService.calculateNetworkDifficulty`. A target of zero divides to infinity. -/
def calculateNetworkDifficulty (nBits : BitVec 32) : Number :=
  let mantissa := (nBits &&& 0x007fffff#32).toNat
  let exponent := (nBits.sshiftRight 24 &&& 0xff#32).toNat
  let target : ℚ := mantissa * 256 ^ ((exponent : ℤ) - 3)
  let maxTarget : ℚ := 2 ^ 208 * 65535
  if target = 0 then .inf false else .fin (maxTarget / target)

/-- The hash is small enough for the difficulty. -/
def Meets (hash : ℕ) : Number → Prop
  | .fin difficulty => hash * difficulty ≤ trueDiffOne
  | .inf negative => negative = true ∨ hash = 0
  | .nan => False

theorem trueDiffOne_pos : 0 < trueDiffOne := by
  rw [trueDiffOne]
  norm_num

/-- Every difficulty is positive. -/
theorem submissionDifficulty_pos (hash : ℕ) : (Number.fin 0).lt (submissionDifficulty hash) = true := by
  unfold submissionDifficulty
  split
  · rfl
  · rename_i nonzero
    have positive : (0 : ℚ) < hash := by exact_mod_cast Nat.pos_of_ne_zero nonzero
    exact decide_eq_true (div_pos trueDiffOne_pos positive)

theorem ge_submissionDifficulty {hash : ℕ} {difficulty : Number} :
    (submissionDifficulty hash).ge difficulty = true ↔ Meets hash difficulty := by
  unfold submissionDifficulty
  split
  · rename_i zero
    subst zero
    cases difficulty with
    | nan => simp [Number.ge, Meets]
    | inf negative => simp [Number.ge, Number.lt, Meets]
    | fin d => simp [Number.ge, Number.lt, Meets, trueDiffOne_pos.le]
  · rename_i nonzero
    have positive : (0 : ℚ) < hash := by exact_mod_cast Nat.pos_of_ne_zero nonzero
    cases difficulty with
    | nan => simp [Number.ge, Meets]
    | inf negative => simp [Number.ge, Number.lt, Meets, nonzero]
    | fin d =>
      simp only [Number.ge, Number.lt, Meets, Bool.not_eq_true', decide_eq_false_iff_not, not_lt]
      rw [le_div_iff₀ positive, mul_comm]

theorem toNat_mantissa (nBits : BitVec 32) : (nBits &&& 0x007fffff#32).toNat = mantissa nBits := by
  rw [BitVec.toNat_and]
  exact Nat.and_two_pow_sub_one_eq_mod _ 23

theorem toNat_exponent (nBits : BitVec 32) : (nBits.sshiftRight 24 &&& 0xff#32).toNat = exponent nBits := by
  -- the arithmetic shift fills up with the sign, which the mask takes away again
  have same : nBits.sshiftRight 24 &&& 0xff#32 = nBits >>> 24 := by
    apply BitVec.eq_of_getLsbD_eq
    intro i bound
    have mask : (0xff#32).getLsbD i = decide (i < 8) := by
      interval_cases i <;> rfl
    rw [BitVec.getLsbD_and, BitVec.getLsbD_sshiftRight, BitVec.getLsbD_ushiftRight, mask]
    by_cases low : i < 8
    · simp [low, show 24 + i < 32 by omega, show ¬ 32 ≤ i by omega]
    · simp [low, BitVec.getLsbD_of_ge nBits (24 + i) (by omega)]
  rw [same, BitVec.toNat_ushiftRight, Nat.shiftRight_eq_div_pow, exponent]

/-- **The network test is the target test.** -/
theorem ge_networkDifficulty {hash : ℕ} {nBits : BitVec 32} :
    (submissionDifficulty hash).ge (calculateNetworkDifficulty nBits) = true ↔ hash ≤ target nBits := by
  rw [ge_submissionDifficulty, le_target_iff, calculateNetworkDifficulty, toNat_mantissa, toNat_exponent]
  generalize size : (mantissa nBits : ℚ) * 256 ^ ((exponent nBits : ℤ) - 3) = bound
  have nonneg : 0 ≤ bound := by
    rw [← size]
    positivity
  split
  · rename_i zero
    subst zero
    simp [Meets]
  · rename_i nonzero
    have positive : 0 < bound := lt_of_le_of_ne nonneg (Ne.symm nonzero)
    have one : (0 : ℚ) < 2 ^ 208 * 65535 := by norm_num
    rw [Meets, trueDiffOne, mul_div_assoc', div_le_iff₀ positive, mul_comm (65535 : ℚ), mul_comm (hash : ℚ)]
    exact mul_le_mul_iff_right₀ one

end ElektronPool.Stratum
