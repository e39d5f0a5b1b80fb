import ElektronPool.Stratum.Vardiff

/-!
# How near the power of two is

`nearestPowerOfTwo` on exact numbers. An argument from 1 up to `2^31` gives the power of two
below it. A smaller one is scaled up by 100 until it is one of these, and the power is scaled
back, which for the smallest ends below the minimum. A larger one loses its high bits with the
conversion to 32 bits, and the multiples of `2^32` have none left, however often they are scaled.
-/

namespace ElektronPool.Stratum
set_option autoImplicit false
open Js

/-! ## The highest power of two -/

section
variable {x : BitVec 32} {k n : ℕ}

/-- The bits from `k` down are set for `n` places, and none is above. -/
structure Spread (k n : ℕ) (x : BitVec 32) : Prop where
  set : ∀ i, i ≤ k → k < i + n → x.getLsbD i = true
  clear : ∀ i, k < i → x.getLsbD i = false

theorem Spread.or_sshiftRight (below : k < 31) (h : Spread k n x) : Spread k (2 * n) (x ||| x.sshiftRight n) := by
  have msb : x.msb = false := by
    rw [BitVec.msb_eq_getLsbD_last]
    exact h.clear 31 below
  constructor
  · intro i le near
    rw [BitVec.getLsbD_or, BitVec.getLsbD_sshiftRight, Bool.or_eq_true]
    by_cases first : k < i + n
    · exact .inl (h.set i le first)
    · right
      have inside : ¬ 32 ≤ i := by omega
      have bound : n + i < 32 := by omega
      simp only [inside, decide_false, Bool.not_false, Bool.true_and, if_pos bound]
      exact h.set (n + i) (by omega) (by omega)
  · intro i above
    rw [BitVec.getLsbD_or, BitVec.getLsbD_sshiftRight, h.clear i above, Bool.false_or]
    split
    · rw [h.clear (n + i) (by omega), Bool.and_false]
    · rw [msb, Bool.and_false]

/-- All bits below the highest one are set in the end. -/
theorem smear_of_spread (below : k < 31) (h : Spread k 1 x) : smear x = BitVec.ofNat 32 (2 ^ (k + 1) - 1) := by
  have spread := ((((h.or_sshiftRight below).or_sshiftRight below).or_sshiftRight below).or_sshiftRight
    below).or_sshiftRight below
  apply BitVec.eq_of_getLsbD_eq
  intro i bound
  rw [smear, BitVec.getLsbD_or, BitVec.sshiftRight_zero, Bool.or_self, BitVec.getLsbD_ofNat, Nat.testBit_two_pow_sub_one]
  by_cases le : i ≤ k
  · rw [spread.set i le (by omega)]
    simp [bound, Nat.lt_succ_of_le le]
  · rw [spread.clear i (by omega)]
    simp [show ¬ i < k + 1 by omega]

/-- A word has its highest bit at its logarithm. -/
theorem spread_log2 (nonzero : x.toNat ≠ 0) : Spread x.toNat.log2 1 x := by
  constructor
  · intro i le near
    obtain rfl : i = x.toNat.log2 := by omega
    exact Nat.testBit_log2 nonzero
  · intro i above
    have high := Nat.lt_log2_self (n := x.toNat)
    exact Nat.testBit_lt_two_pow (high.trans_le (Nat.pow_le_pow_right two_pos above))

theorem toInt_of_pos (positive : 0 < x.toInt) : x.toInt = x.toNat ∧ x.toNat < 2 ^ 31 := by
  have below := BitVec.toInt_lt (x := x)
  rw [BitVec.toInt_eq_toNat_cond] at positive below ⊢
  split at positive <;> omega

/-- A positive integer is within a factor of two above its highest power of two. -/
theorem highestPower_of_pos (positive : 0 < x.toInt) :
    ∃ k : ℕ, k < 31 ∧ highestPower x = 2 ^ k ∧ 2 ^ k ≤ x.toInt ∧ x.toInt < 2 ^ (k + 1) := by
  obtain ⟨value, bound⟩ := toInt_of_pos positive
  have nonzero : x.toNat ≠ 0 := by omega
  have low := Nat.log2_self_le nonzero
  have high := Nat.lt_log2_self (n := x.toNat)
  have below : x.toNat.log2 < 31 := (Nat.log2_lt nonzero).mpr bound
  have fits : 2 ^ (x.toNat.log2 + 1) ≤ 2 ^ 31 := Nat.pow_le_pow_right two_pos below
  have one_le : 1 ≤ 2 ^ x.toNat.log2 := Nat.one_le_two_pow
  rw [Nat.pow_succ] at high fits
  have smeared : (smear x).toInt = 2 * 2 ^ x.toNat.log2 - 1 := by
    have number : (smear x).toNat = 2 ^ x.toNat.log2 * 2 - 1 := by
      rw [smear_of_spread below (spread_log2 nonzero), BitVec.toNat_ofNat, Nat.pow_succ, Nat.mod_eq_of_lt (by omega)]
    rw [BitVec.toInt_eq_toNat_of_lt (by omega), number]
    push_cast [show 1 ≤ 2 ^ x.toNat.log2 * 2 by omega]
    ring
  refine ⟨x.toNat.log2, below, ?_, ?_, ?_⟩
  · rw [highestPower, toInt_sshiftRight_one, smeared]
    omega
  · rw [value]
    exact_mod_cast low
  · rw [value, pow_succ]
    exact_mod_cast high

end

/-! ## nearestPowerOfTwo on exact numbers -/

namespace Exact

/-- `MIN_DIFF`. -/
def minDiff : ℚ := 1 / 100000

/-- `nearestPowerOfTwo`, without any rounding. -/
def nearestPowerOfTwo : ℕ → ℚ → Option (Option ℚ)
  | 0, _ => none
  | frames + 1, val =>
    if val = 0 then some none
    else if val < minDiff then some (some minDiff)
    else
      let res := highestPower (Number.toInt32 (.fin val))
      if res = 0 ∧ val * 100 < minDiff then some (some minDiff)
      else if res = 0 then (nearestPowerOfTwo frames (val * 100)).map fun r => some (r.getD 0 / 100)
      else some (some res)

/-- The call returns this number. -/
def Returns (val r : ℚ) : Prop := ∃ frames, nearestPowerOfTwo frames val = some (some r)

/-- What a suggestion for `val` is meant to be: no less than the minimum, and a power that is within a
factor of two below `val` unless `val` is less than that itself. -/
def Meets (val : ℚ) : Prop :=
  ∃ r, Returns val r ∧ minDiff ≤ r ∧ (minDiff ≤ val → val / 2 < r ∧ r ≤ val)

theorem minDiff_pos : 0 < minDiff := by norm_num [minDiff]

theorem minDiff_le_one : minDiff ≤ 1 := by norm_num [minDiff]

section
variable {frames more : ℕ} {val r : ℚ}

/-- One call with an argument that is not tiny: a power of two, or the next call. -/
theorem nearestPowerOfTwo_succ (frames : ℕ) (low : minDiff ≤ val) : nearestPowerOfTwo (frames + 1) val =
    if highestPower (Number.toInt32 (.fin val)) = 0 then
      (nearestPowerOfTwo frames (val * 100)).map fun r => some (r.getD 0 / 100)
    else some (some (highestPower (Number.toInt32 (.fin val)) : ℚ)) := by
  have positive := minDiff_pos
  have scaled : ¬ val * 100 < minDiff := by linarith
  rw [nearestPowerOfTwo, if_neg (by linarith), if_neg (not_lt.mpr low)]
  simp only [scaled, and_false, if_false]

/-- More frames change nothing. -/
theorem nearestPowerOfTwo_mono {result : Option ℚ} (returned : nearestPowerOfTwo frames val = some result) (more : ℕ) :
    nearestPowerOfTwo (frames + more) val = some result := by
  induction frames generalizing val result with
  | zero => cases returned
  | succ frames ih =>
    rw [Nat.add_right_comm, nearestPowerOfTwo] at *
    dsimp only at returned ⊢
    split_ifs at returned ⊢ with zero tiny scaled power
    · exact returned
    · exact returned
    · exact returned
    · obtain ⟨inner, called, same⟩ := Option.map_eq_some_iff.mp returned
      rw [ih called, Option.map_some, same]
    · exact returned

theorem Returns.unique {r' : ℚ} (h : Returns val r) (h' : Returns val r') : r = r' := by
  obtain ⟨frames, returned⟩ := h
  obtain ⟨frames', returned'⟩ := h'
  have left := nearestPowerOfTwo_mono returned frames'
  have right := nearestPowerOfTwo_mono returned' frames
  rw [Nat.add_comm, right] at left
  exact (Option.some.inj (Option.some.inj left)).symm

/-! ## Below 2 ^ 31 -/

/-- The 32-bit integer of a number that fits. -/
theorem toInt_toInt32 (nonneg : 0 ≤ val) (high : val < 2 ^ 31) : (Number.toInt32 (.fin val)).toInt = ⌊val⌋ := by
  have floor_low : 0 ≤ ⌊val⌋ := Int.floor_nonneg.mpr nonneg
  have floor_high : ⌊val⌋ < 2 ^ 31 := Int.floor_lt.mpr (by exact_mod_cast high)
  rw [Number.toInt32, Number.trunc_of_nonneg nonneg, BitVec.toInt_ofInt_eq_self (by decide)] <;> omega

/-- An integer part that fits and is not zero. -/
theorem highestPower_of_one_le (low : 1 ≤ val) (high : val < 2 ^ 31) :
    ∃ k : ℕ, highestPower (Number.toInt32 (.fin val)) = 2 ^ k ∧ 2 ^ k ≤ val ∧ val < 2 ^ (k + 1) := by
  have integer := toInt_toInt32 (zero_le_one.trans low) high
  have positive : 1 ≤ ⌊val⌋ := Int.le_floor.mpr (by exact_mod_cast low)
  obtain ⟨k, -, power, le, lt⟩ := highestPower_of_pos (x := Number.toInt32 (.fin val)) (by omega)
  rw [integer] at le lt
  refine ⟨k, power, ?_, ?_⟩
  · exact_mod_cast Int.le_floor.mp le
  · exact_mod_cast Int.floor_lt.mp lt

/-- An argument that fits and is at least 1 takes one call. -/
theorem nearestPowerOfTwo_of_one_le (frames : ℕ) (low : 1 ≤ val) (high : val < 2 ^ 31) :
    ∃ k : ℕ, highestPower (Number.toInt32 (.fin val)) = 2 ^ k ∧
      nearestPowerOfTwo (frames + 1) val = some (some (2 ^ k)) ∧ 2 ^ k ≤ val ∧ val < 2 ^ (k + 1) := by
  obtain ⟨k, power, le, lt⟩ := highestPower_of_one_le low high
  have nonzero : (2 : ℤ) ^ k ≠ 0 := by positivity
  refine ⟨k, power, ?_, le, lt⟩
  rw [nearestPowerOfTwo_succ frames (minDiff_le_one.trans low), power, if_neg nonzero]
  push_cast
  rfl

/-- A fraction has no integer part. -/
theorem highestPower_of_lt_one (nonneg : 0 ≤ val) (below : val < 1) : highestPower (Number.toInt32 (.fin val)) = 0 := by
  have integer := toInt_toInt32 nonneg (below.trans (by norm_num))
  have zero : ⌊val⌋ = 0 := Int.floor_eq_zero_iff.mpr ⟨nonneg, below⟩
  obtain ⟨-, power⟩ | ⟨positive, -⟩ := highestPower_cases (x := Number.toInt32 (.fin val))
  · exact power
  · omega

/-- Scaled back three times, the powers from 16 on keep the minimum. -/
theorem minDiff_le_div_iff {k : ℕ} : minDiff ≤ 2 ^ k / 100 ^ 3 ↔ 4 ≤ k := by
  rw [minDiff, le_div_iff₀ (by positivity)]
  constructor
  · intro kept
    by_contra less
    have eight : (2 : ℚ) ^ k ≤ 2 ^ 3 := pow_le_pow_right₀ one_le_two (by omega)
    linarith
  · intro four
    have sixteen : (2 : ℚ) ^ 4 ≤ 2 ^ k := pow_le_pow_right₀ one_le_two four
    linarith

/-- What the call returns: a power of two scaled back `m` times, and how it lies to the argument
scaled up as often. -/
structure Scaled (val : ℚ) (m k : ℕ) : Prop where
  returned : Returns val (2 ^ k / 100 ^ m)
  le : 2 ^ k ≤ val * 100 ^ m
  lt : val * 100 ^ m < 2 ^ (k + 1)

theorem scaled_of_one_le (low : 1 ≤ val) (high : val < 2 ^ 31) : ∃ k, Scaled val 0 k := by
  obtain ⟨k, -, returned, le, lt⟩ := nearestPowerOfTwo_of_one_le 0 low high
  exact ⟨k, ⟨1, by simpa using returned⟩, by simpa using le, by simpa using lt⟩

/-- Below `2^31` the argument is scaled up until it is at least 1. -/
theorem exists_scaled (n : ℕ) (low : minDiff ≤ val) (high : val < 2 ^ 31) (scaled : 1 ≤ val * 100 ^ n) :
    ∃ m ≤ n, ∃ k, Scaled val m k := by
  induction n generalizing val with
  | zero =>
    obtain ⟨k, power⟩ := scaled_of_one_le (by simpa using scaled) high
    exact ⟨0, le_refl 0, k, power⟩
  | succ n ih =>
    by_cases one : 1 ≤ val
    · obtain ⟨k, power⟩ := scaled_of_one_le one high
      exact ⟨0, by omega, k, power⟩
    have positive := minDiff_pos
    have again : ∀ j : ℕ, val * 100 * 100 ^ j = val * 100 ^ (j + 1) := by
      intro j
      rw [pow_succ]
      ring
    obtain ⟨m, le, k, ⟨frames, called⟩, power_le, lt⟩ := ih (show minDiff ≤ val * 100 by linarith)
      (by linarith) (by rwa [again])
    rw [again] at power_le lt
    refine ⟨m + 1, by omega, k, ⟨frames + 1, ?_⟩, power_le, lt⟩
    rw [nearestPowerOfTwo_succ frames low, if_pos (highestPower_of_lt_one (by linarith) (by linarith)), called,
      Option.map_some, Option.getD_some, pow_succ, div_div]

namespace Scaled
variable {m k : ℕ}

/-- The power is within a factor of two below the argument. -/
theorem bounds (h : Scaled val m k) : val / 2 < 2 ^ k / 100 ^ m ∧ 2 ^ k / 100 ^ m ≤ val := by
  have hundred : (0 : ℚ) < 100 ^ m := by positivity
  have lt := h.lt
  rw [pow_succ] at lt
  constructor
  · rw [lt_div_iff₀ hundred]
    linarith
  · rw [div_le_iff₀ hundred]
    exact h.le

/-- Scaled up three times, the argument is at least 16. -/
theorem four_le_iff (h : Scaled val 3 k) : 4 ≤ k ↔ 16 / 1000000 ≤ val := by
  have le := h.le
  have lt := h.lt
  constructor
  · intro four
    have sixteen : (2 : ℚ) ^ 4 ≤ 2 ^ k := pow_le_pow_right₀ one_le_two four
    linarith
  · intro enough
    by_contra less
    have sixteen : (2 : ℚ) ^ (k + 1) ≤ 2 ^ 4 := pow_le_pow_right₀ one_le_two (by omega)
    linarith

/-- The minimum is kept unless the argument, scaled up three times, is below 16. -/
theorem minDiff_le_iff (h : Scaled val m k) (le : m ≤ 3) (low : minDiff ≤ val) :
    minDiff ≤ 2 ^ k / 100 ^ m ↔ 16 / 1000000 ≤ val := by
  by_cases large : 1 / 50000 ≤ val
  · have within := h.bounds.1
    rw [minDiff]
    constructor <;> intro <;> linarith
  have thrice : m = 3 := by
    by_contra other
    have twice : (100 : ℚ) ^ m ≤ 100 ^ 2 := pow_le_pow_right₀ (by norm_num) (by omega)
    have one_le : (1 : ℚ) ≤ 2 ^ k := one_le_pow₀ one_le_two
    have scaled := h.le
    have positive := minDiff_pos
    nlinarith
  subst thrice
  rw [minDiff_le_div_iff, h.four_le_iff]

end Scaled

/-! ## From 2 ^ 31 on -/

/-- The high bits are lost: the power is far too small, if there is any. -/
theorem le_of_returns (high : 2 ^ 31 ≤ val) (returned : Returns val r) : r ≤ 2 ^ 30 := by
  obtain ⟨frames, returned⟩ := returned
  have low : ∀ val : ℚ, 2 ^ 31 ≤ val → minDiff ≤ val := by
    intro val high
    exact minDiff_le_one.trans (by linarith)
  induction frames generalizing val r with
  | zero => cases returned
  | succ frames ih =>
    rw [nearestPowerOfTwo_succ frames (low val high)] at returned
    split at returned
    · obtain ⟨inner, called, same⟩ := Option.map_eq_some_iff.mp returned
      cases Option.some.inj same
      have scaled : (2 : ℚ) ^ 31 ≤ val * 100 := by linarith
      cases inner with
      | none =>
        norm_num
      | some inner =>
        have := ih scaled called
        rw [Option.getD_some]
        linarith
    · rename_i nonzero
      cases Option.some.inj (Option.some.inj returned)
      obtain ⟨-, zero⟩ | ⟨positive, -⟩ := highestPower_cases (x := Number.toInt32 (.fin val))
      · exact absurd zero nonzero
      · obtain ⟨k, below, power, -⟩ := highestPower_of_pos positive
        rw [power]
        push_cast
        exact pow_le_pow_right₀ one_le_two (by omega)

/-- A multiple of `2^32` has no bits at all, however often it is scaled: the calls go on until the
stack overflows. -/
theorem nearestPowerOfTwo_multiple (frames : ℕ) {multiple : ℕ} (positive : 0 < multiple) :
    nearestPowerOfTwo frames (2 ^ 32 * multiple) = none := by
  induction frames generalizing multiple with
  | zero => rfl
  | succ frames ih =>
    have one_le : (1 : ℚ) ≤ multiple := by exact_mod_cast positive
    have low : minDiff ≤ 2 ^ 32 * (multiple : ℚ) := minDiff_le_one.trans (by linarith)
    have word : Number.toInt32 (.fin (2 ^ 32 * multiple)) = 0#32 := by
      have natural : (2 : ℚ) ^ 32 * multiple = ((2 ^ 32 * multiple : ℕ) : ℚ) := by push_cast; ring
      rw [natural, Number.toInt32_natCast]
      apply BitVec.eq_of_toNat_eq
      simp
    have scaled : (2 : ℚ) ^ 32 * multiple * 100 = 2 ^ 32 * ((multiple * 100 : ℕ) : ℚ) := by push_cast; ring
    rw [nearestPowerOfTwo_succ frames low, if_pos (by rw [word]; decide), scaled, ih (by omega), Option.map_none]

/-- **A suggestion is what it is meant to be** exactly for what is below the minimum and from 0.000016
up to `2^31`. -/
theorem meets_iff (positive : 0 < val) : Meets val ↔ val < minDiff ∨ 16 / 1000000 ≤ val ∧ val < 2 ^ 31 := by
  constructor
  · rintro ⟨r, returned, least, within⟩
    by_contra outside
    push Not at outside
    obtain ⟨low, outside⟩ := outside
    obtain ⟨lower, upper⟩ := within low
    by_cases high : val < 2 ^ 31
    · obtain ⟨m, le, k, scaled⟩ := exists_scaled 3 low high (by rw [minDiff] at low; linarith)
      rw [returned.unique scaled.returned, scaled.minDiff_le_iff le low] at least
      exact absurd high (not_lt.mpr (outside least))
    · have power := le_of_returns (not_lt.mp high) returned
      linarith
  · rintro (tiny | ⟨low, high⟩)
    · refine ⟨minDiff, ⟨1, ?_⟩, le_refl _, fun low => absurd tiny (not_lt.mpr low)⟩
      rw [nearestPowerOfTwo, if_neg positive.ne', if_pos tiny]
    · have above : minDiff ≤ val := le_trans (by norm_num [minDiff]) low
      obtain ⟨m, le, k, scaled⟩ := exists_scaled 3 above high (by linarith)
      exact ⟨_, scaled.returned, (scaled.minDiff_le_iff le above).mpr low, fun _ => scaled.bounds⟩

/-- 3 is suggested 2. -/
theorem meets_iff_three : Meets 3 :=
  (meets_iff (by norm_num)).mpr (.inr (by norm_num))

/-- The minimum itself is scaled up to 10 and back to less than the minimum. -/
theorem not_meets_minDiff : ¬ ∀ val : ℚ, 0 < val → Meets val := by
  intro claim
  obtain ⟨r, returned, least, -⟩ := claim minDiff minDiff_pos
  have eight : Returns minDiff (8 / 1000000) := ⟨4, by decide +kernel⟩
  rw [returned.unique eight] at least
  exact absurd least (by norm_num [minDiff])

end

/-! ## With rounding -/

/-- Nothing is rounded for an argument from 1 up to `2^31`. -/
theorem nearestPowerOfTwo_fin (frames : ℕ) {val : ℚ} (low : 1 ≤ val) (high : val < 2 ^ 31) :
    ∃ r, nearestPowerOfTwo (frames + 1) val = some (some r) ∧
      Stratum.nearestPowerOfTwo (frames + 1) (.fin val) = some (some (.fin r)) ∧ val / 2 < r ∧ r ≤ val := by
  obtain ⟨k, power, returned, le, lt⟩ := nearestPowerOfTwo_of_one_le frames low high
  have nonzero : (2 : ℤ) ^ k ≠ 0 := by positivity
  obtain ⟨q, minimum, -, least⟩ := minDiff_eq
  have not_tiny : (Number.fin val).lt Stratum.minDiff = false := by
    rw [minimum]
    simp only [Number.lt, decide_eq_false_iff_not, not_lt]
    exact least.trans (by simpa using low)
  rw [pow_succ] at lt
  refine ⟨2 ^ k, returned, ?_, by linarith, le⟩
  rw [Stratum.nearestPowerOfTwo, if_neg (mt strictEq_zero.mp (by simp; linarith)), not_tiny]
  simp [power, nonzero]

end Exact

/-- A suggestion for a target from 1 up to `2^31` is within a factor of two below it. -/
theorem ClientStatistics.getSuggestedDifficulty_within {s : ClientStatistics} {now : ℤ} {clientDifficulty : Number}
    {target : ℚ} (frames : ℕ) (argument : s.suggestionArgument now clientDifficulty = some (.fin target))
    (low : 1 ≤ target) (high : target < 2 ^ 31) :
    ∃ r : ℚ, s.getSuggestedDifficulty (frames + 1) now clientDifficulty = some (some (.fin r)) ∧
      target / 2 < r ∧ r ≤ target := by
  obtain ⟨r, -, suggested, within⟩ := Exact.nearestPowerOfTwo_fin frames low high
  exact ⟨r, by rw [getSuggestedDifficulty, argument]; exact suggested, within⟩

end ElektronPool.Stratum
