import Mathlib.Algebra.Order.Floor.Ring
import Mathlib.Algebra.Order.Field.Power
import Mathlib.Data.Int.Log
import Mathlib.Data.Rat.Floor
import Mathlib.Tactic.FieldSimp
import Mathlib.Tactic.Linarith
import Mathlib.Tactic.NormNum
import Mathlib.Tactic.Positivity

/-!
# JavaScript numbers

A number is `NaN`, an infinity or the rational a finite double denotes; there is no
negative zero. Arithmetic is exact arithmetic followed by `round`, the nearest double,
ties to the even significand. What proofs need of `round` is `round_of_nonneg`: it keeps a
value within the powers of two around it.
-/

namespace Js

inductive Number where
  | nan
  | inf (negative : Bool)
  | fin (value : ℚ)
  deriving DecidableEq

/-- The integer nearest to `q`, ties to even. -/
def roundHalfEven (q : ℚ) : ℤ :=
  if q - ⌊q⌋ < 1 / 2 then ⌊q⌋
  else if 1 / 2 < q - ⌊q⌋ then ⌊q⌋ + 1
  else if ⌊q⌋ % 2 = 0 then ⌊q⌋ else ⌊q⌋ + 1

theorem roundHalfEven_intCast (n : ℤ) : roundHalfEven n = n := by
  simp [roundHalfEven]

theorem le_roundHalfEven {n : ℤ} {q : ℚ} (below : (n : ℚ) ≤ q) : n ≤ roundHalfEven q := by
  have floor : n ≤ ⌊q⌋ := Int.le_floor.mpr below
  unfold roundHalfEven
  split_ifs <;> omega

theorem roundHalfEven_le {n : ℤ} {q : ℚ} (above : q ≤ n) : roundHalfEven q ≤ n := by
  have floor : ⌊q⌋ ≤ n := by exact_mod_cast (Int.floor_le q).trans above
  by_cases top : ⌊q⌋ = n
  · have exact_eq : q = n := le_antisymm above (top ▸ Int.floor_le q)
    rw [exact_eq, roundHalfEven_intCast]
  · unfold roundHalfEven
    split_ifs <;> omega

theorem roundHalfEven_of_lt {n : ℤ} {q : ℚ} (below : (n : ℚ) ≤ q) (close : q < n + 1 / 2) : roundHalfEven q = n := by
  have floor : ⌊q⌋ = n := Int.floor_eq_iff.mpr ⟨below, by linarith⟩
  rw [roundHalfEven, floor, if_pos (by linarith)]

namespace Number

/-- The exponent of the last place of the doubles around `q`. -/
def ulpExponent (q : ℚ) : ℤ := max (Int.log 2 |q| - 52) (-1074)

/-- The nearest double. -/
def round (q : ℚ) : Number :=
  let nearest := roundHalfEven (q / 2 ^ ulpExponent q) * (2 : ℚ) ^ ulpExponent q
  if 2 ^ (1024 : ℤ) ≤ |nearest| then inf (decide (nearest < 0)) else fin nearest

def ofNat (n : ℕ) : Number := round n

/-- `Number.isFinite`. -/
def isFinite : Number → Bool
  | fin _ => true
  | _ => false

/-- A rational is a number only where a double denotes it. -/
def isDouble : Number → Bool
  | fin q => decide (round q = fin q)
  | _ => true

def neg : Number → Number
  | nan => nan
  | inf negative => inf !negative
  | fin q => fin (-q)

def add : Number → Number → Number
  | fin a, fin b => round (a + b)
  | inf a, inf b => if a = b then inf a else nan
  | inf a, fin _ | fin _, inf a => inf a
  | _, _ => nan

def mul : Number → Number → Number
  | fin a, fin b => round (a * b)
  | inf a, inf b => inf (a ^^ b)
  | inf a, fin b | fin b, inf a => if b = 0 then nan else inf (a ^^ decide (b < 0))
  | _, _ => nan

def div : Number → Number → Number
  | fin a, fin b => if b = 0 then (if a = 0 then nan else inf (decide (a < 0))) else round (a / b)
  | inf a, fin b => inf (a ^^ decide (b < 0))
  | fin _, inf _ => fin 0
  | _, _ => nan

/-- `a < b`; `false` as soon as one side is `NaN`. -/
def lt : Number → Number → Bool
  | fin a, fin b => decide (a < b)
  | fin _, inf negative => !negative
  | inf negative, fin _ => negative
  | inf a, inf b => a && !b
  | _, _ => false

/-- `a >= b`. -/
def ge : Number → Number → Bool
  | nan, _ | _, nan => false
  | a, b => !lt a b

theorem ge_trans {a b c : Number} (first : a.ge b = true) (second : b.ge c = true) : a.ge c = true := by
  cases a <;> cases b <;> cases c <;> simp_all [ge, lt]
  case fin.fin.fin => exact second.trans first
  case inf.inf.inf => grind

theorem ge_antisymm {a b : Number} (first : a.ge b = true) (second : b.ge a = true) : a = b := by
  cases a <;> cases b <;> simp_all [ge, lt]
  case fin.fin => exact le_antisymm second first
  case inf.inf => grind

/-- Two numbers that are not `NaN` compare one way or the other. -/
theorem ge_of_lt_eq_false {a b : Number} (left : a.ge a = true) (right : b.ge b = true) (below : a.lt b = false) :
    a.ge b = true := by
  cases a <;> cases b <;> simp_all [ge]

theorem ge_self_of_ge {a b : Number} (above : a.ge b = true) : a.ge a = true ∧ b.ge b = true := by
  cases a <;> cases b <;> simp_all [ge, lt]

theorem ge_self_of_lt {a b : Number} (below : a.lt b = true) : a.ge a = true ∧ b.ge b = true := by
  cases a <;> cases b <;> simp_all [ge, lt]

theorem ge_of_lt {a b : Number} (below : a.lt b = true) : b.ge a = true := by
  cases a <;> cases b <;> simp_all [ge, lt]
  case fin.fin => exact below.le

theorem ge_eq_false_of_lt {a b : Number} (below : a.lt b = true) : a.ge b = false := by
  cases a <;> cases b <;> simp_all [ge, lt]

/-- `a === b`. -/
def strictEq : Number → Number → Bool
  | nan, nan => false
  | a, b => decide (a = b)

theorem eq_of_strictEq {a b : Number} (same : a.strictEq b = true) : a = b := by
  cases a <;> cases b <;> simp_all [strictEq]

/-- `Math.trunc` of a rational. -/
def trunc (q : ℚ) : ℤ := if q < 0 then ⌈q⌉ else ⌊q⌋

/-- `ToInt32` (ECMA-262): the integer part modulo `2^32`, as a 32-bit word; `NaN` and the
infinities give zero. -/
def toInt32 : Number → BitVec 32
  | fin q => BitVec.ofInt 32 (trunc q)
  | _ => 0

theorem trunc_of_nonneg {q : ℚ} (h : 0 ≤ q) : trunc q = ⌊q⌋ := if_neg (not_lt.mpr h)

theorem toInt32_intCast (n : ℤ) : toInt32 (fin n) = BitVec.ofInt 32 n := by
  simp [toInt32, trunc]

theorem toInt32_natCast (n : ℕ) : toInt32 (fin n) = BitVec.ofNat 32 n := by
  rw [← Int.cast_natCast, toInt32_intCast, BitVec.ofInt_natCast]

/-! ## What rounding keeps -/

theorem log_le_of_le {q : ℚ} {k : ℤ} (positive : 0 < q) (below : q ≤ 2 ^ k) : Int.log 2 q ≤ k := by
  have next : q < ((2 : ℕ) : ℚ) ^ (k + 1) := by
    rw [Nat.cast_ofNat]
    exact below.trans_lt (zpow_lt_zpow_right₀ one_lt_two (by omega))
  have := (Int.lt_zpow_iff_log_lt one_lt_two positive).mp next
  omega

theorem zpow_log_le {q : ℚ} (positive : 0 < q) : (2 : ℚ) ^ Int.log 2 q ≤ q := by
  exact_mod_cast Int.zpow_log_le_self one_lt_two positive

theorem ulpExponent_of_pos {q : ℚ} (positive : 0 < q) : ulpExponent q = max (Int.log 2 q - 52) (-1074) := by
  rw [ulpExponent, abs_of_pos positive]

/-- A power of two that is a multiple of the last place, in units of the last place. -/
theorem zpow_div_ulp {k e : ℤ} (le : e ≤ k) : (2 : ℚ) ^ k / 2 ^ e = ((2 ^ (k - e).toNat : ℤ) : ℚ) := by
  rw [← zpow_sub₀ two_ne_zero, Int.cast_pow, Int.cast_ofNat, ← zpow_natCast, Int.toNat_of_nonneg (by omega)]

theorem round_eq_fin {q : ℚ} (small : |roundHalfEven (q / 2 ^ ulpExponent q) * (2 : ℚ) ^ ulpExponent q| < 2 ^ (1024 : ℤ)) :
    round q = fin (roundHalfEven (q / 2 ^ ulpExponent q) * 2 ^ ulpExponent q) := by
  rw [round, if_neg (not_le.mpr small)]

theorem round_zero : round 0 = fin 0 := by
  have zero : roundHalfEven (0 / 2 ^ ulpExponent 0) = 0 := by
    rw [zero_div]
    exact_mod_cast roundHalfEven_intCast 0
  rw [round_eq_fin] <;> rw [zero, Int.cast_zero, zero_mul]
  rw [abs_zero]
  positivity

theorem zero_add_of_isDouble {d : Number} (double : d.isDouble = true) : (fin 0).add d = d := by
  cases d with
  | fin q => simpa [add, isDouble] using double
  | nan => rfl
  | inf negative => rfl

/-- A rational that is a multiple of its own last place is a double. -/
theorem round_of_multiple {r : ℚ} {m : ℤ} (multiple : r = m * 2 ^ ulpExponent r) (small : |r| < 2 ^ (1024 : ℤ)) :
    round r = fin r := by
  have ulp : (2 : ℚ) ^ ulpExponent r ≠ 0 := by positivity
  have units : r / 2 ^ ulpExponent r = m := (div_eq_iff ulp).mpr multiple
  rw [round_eq_fin] <;> rw [units, roundHalfEven_intCast, ← multiple]
  exact small

/-- There are at most 53 bits above the last place. -/
theorem abs_units_le (q : ℚ) : |q / 2 ^ ulpExponent q| ≤ 2 ^ 53 := by
  have ulp : (0 : ℚ) < 2 ^ ulpExponent q := by positivity
  have below : |q| < ((2 : ℕ) : ℚ) ^ (Int.log 2 |q| + 1) := Int.lt_zpow_succ_log_self one_lt_two _
  have wide : (2 : ℚ) ^ (Int.log 2 |q| + 1) ≤ 2 ^ (53 + ulpExponent q) :=
    zpow_le_zpow_right₀ one_le_two (by rw [ulpExponent]; omega)
  rw [Nat.cast_ofNat] at below
  rw [abs_div, abs_of_pos ulp, div_le_iff₀ ulp]
  calc |q| ≤ 2 ^ (53 + ulpExponent q) := (below.trans_le wide).le
    _ = 2 ^ 53 * 2 ^ ulpExponent q := by rw [zpow_add₀ two_ne_zero]; norm_cast

/-- An integer of up to 53 bits, or their power of two, scaled, is a double. -/
theorem round_of_units {n e : ℤ} (bottom : -1074 ≤ e) (bits : |n| ≤ 2 ^ 53)
    (small : |(n : ℚ) * 2 ^ e| < 2 ^ (1024 : ℤ)) : round (n * 2 ^ e) = fin (n * 2 ^ e) := by
  have ulp : (0 : ℚ) < 2 ^ e := by positivity
  have size : |(n : ℚ) * 2 ^ e| = |n| * 2 ^ e := by rw [abs_mul, abs_of_pos ulp, Int.cast_abs]
  by_cases full : |n| = 2 ^ 53
  · -- the power of two has a place less
    have exponent : ulpExponent (n * 2 ^ e) = e + 1 := by
      have power : |(n : ℚ) * 2 ^ e| = ((2 : ℕ) : ℚ) ^ (53 + e) := by
        rw [size, full, zpow_add₀ (by norm_num)]
        norm_cast
      rw [ulpExponent, power, Int.log_zpow one_lt_two]
      omega
    obtain ⟨m, even⟩ : ∃ m, n = m * 2 := by
      obtain positive | negative := abs_eq (by norm_num : (0 : ℤ) ≤ 2 ^ 53) |>.mp full
      · exact ⟨2 ^ 52, by omega⟩
      · exact ⟨-2 ^ 52, by omega⟩
    refine round_of_multiple (m := m) ?_ small
    rw [exponent, zpow_add_one₀ two_ne_zero, even]
    push_cast
    ring
  · have short : |n| < 2 ^ 53 := lt_of_le_of_ne bits full
    by_cases zero : n = 0
    · rw [zero, Int.cast_zero, zero_mul, round_zero]
    have exponent : ulpExponent (n * 2 ^ e) ≤ e := by
      have nonzero : (0 : ℚ) < |(n : ℚ) * 2 ^ e| := abs_pos.mpr (mul_ne_zero (Int.cast_ne_zero.mpr zero) ulp.ne')
      have below : |(n : ℚ) * 2 ^ e| < ((2 : ℕ) : ℚ) ^ (53 + e) := by
        rw [size, zpow_add₀ (by norm_num)]
        refine mul_lt_mul_of_pos_right ?_ ulp
        exact_mod_cast short
      have := (Int.lt_zpow_iff_log_lt one_lt_two nonzero).mp below
      rw [ulpExponent]
      omega
    refine round_of_multiple (m := n * 2 ^ (e - ulpExponent (n * 2 ^ e)).toNat) ?_ small
    rw [Int.cast_mul, ← zpow_div_ulp exponent, mul_assoc, div_mul_cancel₀ _ (by positivity)]

/-- Rounding does not change what is rounded. -/
theorem isDouble_round (q : ℚ) : (round q).isDouble = true := by
  obtain ⟨lower, upper⟩ := abs_le.mp (abs_units_le q)
  have n_upper : roundHalfEven (q / 2 ^ ulpExponent q) ≤ 2 ^ 53 := roundHalfEven_le (by exact_mod_cast upper)
  have n_lower : -2 ^ 53 ≤ roundHalfEven (q / 2 ^ ulpExponent q) := le_roundHalfEven (by exact_mod_cast lower)
  rw [round]
  split
  · rfl
  · rename_i small
    exact decide_eq_true (round_of_units (le_max_right _ _) (abs_le.mpr ⟨n_lower, n_upper⟩) (not_le.mp small))

theorem add_zero_of_isDouble {d : Number} (double : d.isDouble = true) : d.add (fin 0) = d := by
  cases d with
  | fin q => simpa [add, isDouble] using double
  | nan => rfl
  | inf negative => rfl

theorem isDouble_add (a b : Number) : (a.add b).isDouble = true := by
  cases a <;> cases b <;> simp only [add]
  case fin.fin a b => exact isDouble_round (a + b)
  case inf.inf a b => split <;> rfl
  all_goals rfl

/-- Rounding does not go beyond a power of two above. -/
theorem round_of_nonneg {q : ℚ} {k : ℤ} (nonneg : 0 ≤ q) (below : q ≤ 2 ^ k) (low : -1000 ≤ k) (high : k ≤ 1000) :
    ∃ r, round q = fin r ∧ 0 ≤ r ∧ r ≤ 2 ^ k := by
  rcases nonneg.eq_or_lt with rfl | positive
  · exact ⟨0, round_zero, le_refl 0, by positivity⟩
  set e := ulpExponent q with he
  have ulp : (0 : ℚ) < 2 ^ e := by positivity
  have fits : e ≤ k := by
    have := log_le_of_le positive below
    rw [he, ulpExponent_of_pos positive]
    omega
  have upper : roundHalfEven (q / 2 ^ e) ≤ 2 ^ (k - e).toNat := by
    apply roundHalfEven_le
    rw [← zpow_div_ulp fits]
    exact div_le_div_of_nonneg_right below ulp.le
  have lower : 0 ≤ roundHalfEven (q / 2 ^ e) := le_roundHalfEven (by rw [Int.cast_zero]; positivity)
  have nonneg_r : (0 : ℚ) ≤ roundHalfEven (q / 2 ^ e) * 2 ^ e := mul_nonneg (by exact_mod_cast lower) ulp.le
  have le_r : (roundHalfEven (q / 2 ^ e) : ℚ) * 2 ^ e ≤ 2 ^ k := by
    rw [← le_div_iff₀ ulp, zpow_div_ulp fits]
    exact_mod_cast upper
  refine ⟨_, round_eq_fin ?_, nonneg_r, le_r⟩
  rw [abs_of_nonneg nonneg_r]
  exact le_r.trans_lt (zpow_lt_zpow_right₀ one_lt_two (by omega))

/-- Rounding does not go below a power of two below. -/
theorem le_of_round {q r : ℚ} {k : ℤ} (above : 2 ^ k ≤ q) (low : -1000 ≤ k) (rounded : round q = fin r) :
    2 ^ k ≤ r := by
  have positive : 0 < q := lt_of_lt_of_le (by positivity) above
  -- the power of two next below `q` is a multiple of the last place
  have wider : k ≤ Int.log 2 q := (Int.zpow_le_iff_le_log one_lt_two positive).mp (by exact_mod_cast above)
  have ulp : (0 : ℚ) < 2 ^ ulpExponent q := by positivity
  have fits : ulpExponent q ≤ Int.log 2 q := by
    rw [ulpExponent_of_pos positive]
    omega
  have lower : 2 ^ (Int.log 2 q - ulpExponent q).toNat ≤ roundHalfEven (q / 2 ^ ulpExponent q) := by
    apply le_roundHalfEven
    rw [← zpow_div_ulp fits]
    exact div_le_div_of_nonneg_right (zpow_log_le positive) ulp.le
  have value : r = roundHalfEven (q / 2 ^ ulpExponent q) * 2 ^ ulpExponent q := by
    simp only [round] at rounded
    split at rounded
    · cases rounded
    · exact (Number.fin.inj rounded).symm
  rw [value]
  calc (2 : ℚ) ^ k ≤ 2 ^ Int.log 2 q := zpow_le_zpow_right₀ one_le_two wider
    _ = ((2 ^ (Int.log 2 q - ulpExponent q).toNat : ℤ) : ℚ) * 2 ^ ulpExponent q := by
        rw [← zpow_div_ulp fits, div_mul_cancel₀ _ ulp.ne']
    _ ≤ roundHalfEven (q / 2 ^ ulpExponent q) * 2 ^ ulpExponent q :=
        mul_le_mul_of_nonneg_right (by exact_mod_cast lower) ulp.le

/-! ## Sizes -/

/-- A finite number between zero and `2^k`. -/
def Within (k : ℤ) (x : Number) : Prop := ∃ r, x = fin r ∧ 0 ≤ r ∧ r ≤ 2 ^ k

theorem Within.isFinite {k : ℤ} {x : Number} (within : Within k x) : x.isFinite = true := by
  obtain ⟨r, rfl, -⟩ := within
  rfl

theorem Within.mono {j k : ℤ} {x : Number} (within : Within j x) (le : j ≤ k) : Within k x := by
  obtain ⟨r, rfl, nonneg, below⟩ := within
  exact ⟨r, rfl, nonneg, below.trans (zpow_le_zpow_right₀ one_le_two le)⟩

theorem within_zero (k : ℤ) : Within k (fin 0) := ⟨0, rfl, le_refl 0, by positivity⟩

theorem within_add {k : ℤ} {x y : Number} (hx : Within k x) (hy : Within k y) (low : -1000 ≤ k) (high : k < 1000) :
    Within (k + 1) (x.add y) := by
  obtain ⟨a, rfl, a_nonneg, a_le⟩ := hx
  obtain ⟨b, rfl, b_nonneg, b_le⟩ := hy
  apply round_of_nonneg (add_nonneg a_nonneg b_nonneg) _ (by omega) (by omega)
  rw [zpow_add_one₀ two_ne_zero]
  linarith

theorem within_mul {j k : ℤ} {x y : Number} (hx : Within j x) (hy : Within k y) (low : -1000 ≤ j + k)
    (high : j + k ≤ 1000) : Within (j + k) (x.mul y) := by
  obtain ⟨a, rfl, a_nonneg, a_le⟩ := hx
  obtain ⟨b, rfl, b_nonneg, b_le⟩ := hy
  apply round_of_nonneg (mul_nonneg a_nonneg b_nonneg) _ low high
  rw [zpow_add₀ two_ne_zero]
  exact mul_le_mul a_le b_le b_nonneg (by positivity)

/-- Adding what is below half a last place leaves a bound where it is. -/
theorem within_add_small {k : ℤ} {x y : Number} (hx : Within k x) (hy : Within (k - 54) y) (low : -900 ≤ k)
    (high : k < 1000) : Within k (x.add y) := by
  obtain ⟨a, rfl, a_nonneg, a_le⟩ := hx
  obtain ⟨b, rfl, b_nonneg, b_le⟩ := hy
  by_cases small : a + b ≤ 2 ^ k
  · exact round_of_nonneg (add_nonneg a_nonneg b_nonneg) small (by omega) (by omega)
  have above : (2 : ℚ) ^ k < a + b := not_le.mp small
  have unit : (2 : ℚ) ^ (k - 54) = 2 ^ k / 2 ^ 54 := by rw [zpow_sub₀ two_ne_zero]; norm_cast
  have pos : (0 : ℚ) < 2 ^ k := by positivity
  rw [unit] at b_le
  have close : a + b ≤ 2 ^ k * (1 + 1 / 2 ^ 54) := by linarith
  have positive : 0 < a + b := pos.trans above
  have exponent : ulpExponent (a + b) = k - 52 := by
    have lower : k ≤ Int.log 2 (a + b) :=
      (Int.zpow_le_iff_le_log one_lt_two positive).mp (by exact_mod_cast above.le)
    have upper : a + b < ((2 : ℕ) : ℚ) ^ (k + 1) := by
      rw [Nat.cast_ofNat, zpow_add_one₀ two_ne_zero]
      linarith
    have := (Int.lt_zpow_iff_log_lt one_lt_two positive).mp upper
    rw [ulpExponent_of_pos positive]
    omega
  -- in units of the last place the sum is between 2^52 and 2^52 + 1/4
  have ulp : (2 : ℚ) ^ (k - 52) = 2 ^ k / 2 ^ 52 := by rw [zpow_sub₀ two_ne_zero]; norm_cast
  have scaled : (a + b) / 2 ^ (k - 52) = (a + b) / 2 ^ k * 2 ^ 52 := by
    rw [ulp]
    field_simp
  have rounded : roundHalfEven ((a + b) / 2 ^ (k - 52)) = 2 ^ 52 := by
    have one_le : 1 ≤ (a + b) / 2 ^ k := (one_le_div pos).mpr above.le
    have le_one : (a + b) / 2 ^ k ≤ 1 + 1 / 2 ^ 54 := (div_le_iff₀ pos).mpr (by linarith)
    apply roundHalfEven_of_lt
    · rw [scaled]
      push_cast
      linarith
    · rw [scaled]
      push_cast
      linarith
  have value : (roundHalfEven ((a + b) / 2 ^ ulpExponent (a + b)) : ℚ) * 2 ^ ulpExponent (a + b) = 2 ^ k := by
    rw [exponent, rounded, ulp, Int.cast_pow, Int.cast_ofNat]
    field_simp
  refine ⟨2 ^ k, ?_, pos.le, le_refl _⟩
  rw [add, round_eq_fin] <;> rw [value]
  rw [abs_of_pos pos]
  exact zpow_lt_zpow_right₀ one_lt_two (by omega)

/-- Dividing by a rounded number that is not below `2^m`. -/
theorem within_div {k m : ℤ} {x : Number} {t : ℚ} (hx : Within k x) (ht : 2 ^ m ≤ t) (m_low : -1000 ≤ m)
    (low : -1000 ≤ k - m) (high : k - m ≤ 1000) : Within (k - m) (x.div (round t)) := by
  obtain ⟨a, rfl, a_nonneg, a_le⟩ := hx
  cases rounded : round t with
  | nan =>
    simp only [round] at rounded
    split at rounded <;> cases rounded
  | inf negative => exact within_zero _
  | fin r =>
    have pos : (0 : ℚ) < 2 ^ m := by positivity
    have above := le_of_round ht m_low rounded
    have r_pos : 0 < r := lt_of_lt_of_le pos above
    rw [div, if_neg r_pos.ne']
    apply round_of_nonneg (div_nonneg a_nonneg r_pos.le) _ low high
    rw [zpow_sub₀ two_ne_zero]
    exact div_le_div₀ (by positivity) a_le pos above

end Number

end Js
