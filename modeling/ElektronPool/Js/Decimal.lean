import ElektronPool.Js.Text

/-!
# Decimal amounts as doubles

`Number.prototype.toFixed` and `Math.round`, for amounts that are counted in a decimal unit and
handled as doubles. A rounding moves a number by one part in `2^53` at most
(`round_relative`). Up to about `2^51` units this is too little to tell: the numeral `toFixed` prints
denotes the amount exactly, and scaling a number that was read from such a numeral gives the units back.
-/

namespace Js

/-! ## Printing -/

/-- The digits of `n`, with a point before the last `places` of them. -/
def fixedPoint (places n : ℕ) : List Char :=
  let ds := Nat.toDigits 10 n
  let padded := List.replicate (places + 1 - ds.length) '0' ++ ds
  if places = 0 then ds else padded.take (padded.length - places) ++ '.' :: padded.drop (padded.length - places)

/-- `Number.prototype.toFixed`; `none` where the text is the one `toString` gives, from `10^21` on. -/
def toFixed (places : ℕ) : Number → Option String
  | .nan => some "NaN"
  | .inf negative => some (if negative then "-Infinity" else "Infinity")
  | .fin q =>
    if |q| < 10 ^ 21 then
      some (String.ofList ((if q < 0 then ['-'] else []) ++ fixedPoint places ⌊|q| * 10 ^ places + 1 / 2⌋.toNat))
    else none

/-- `Math.round`: the nearest integer, and the greater one of two. -/
def mathRound : Number → Number
  | .fin q => .fin ⌊q + 1 / 2⌋
  | x => x

theorem digitsValue_zeros (k : ℕ) (cs : List Char) : digitsValue 10 (List.replicate k '0' ++ cs) = digitsValue 10 cs := by
  induction k with
  | zero => rfl
  | succ k ih => exact ih

/-- The numeral: a digit at least, the point, and as many digits as asked for, which together denote `n`. -/
theorem fixedPoint_cases {places : ℕ} (point : places ≠ 0) (n : ℕ) : ∃ whole fraction,
    fixedPoint places n = whole ++ '.' :: fraction ∧ whole ≠ [] ∧ fraction.length = places ∧
      digitsValue 10 (whole ++ fraction) = n ∧ ∀ c ∈ whole ++ fraction, charValue c < 10 := by
  obtain ⟨value, areDigits⟩ := digitsValue_toDigits_of_base (by decide : 1 < 10) (by decide) n
  set ds := Nat.toDigits 10 n with hds
  set padded := List.replicate (places + 1 - ds.length) '0' ++ ds with hpadded
  have long : places < padded.length := by
    rw [hpadded, List.length_append, List.length_replicate]
    omega
  refine ⟨padded.take (padded.length - places), padded.drop (padded.length - places), ?_, ?_, ?_, ?_, ?_⟩
  · rw [fixedPoint, if_neg point]
  · intro empty
    have := congrArg List.length empty
    rw [List.length_take, List.length_nil] at this
    omega
  · rw [List.length_drop]
    omega
  · rw [List.take_append_drop, hpadded, digitsValue_zeros, value]
  · intro c member
    rw [List.take_append_drop, hpadded] at member
    rcases List.mem_append.mp member with zero | digit
    · rw [List.eq_of_mem_replicate zero]
      decide
    · exact areDigits c digit

theorem digits_append {cs rest : List Char} (areDigits : ∀ c ∈ cs, charValue c < 10)
    (stop : ∀ c ∈ rest.head?, ¬ charValue c < 10) : digits 10 (cs ++ rest) = cs := by
  induction cs with
  | nil =>
    cases rest with
    | nil => rfl
    | cons c rest => simp [digits, stop c rfl]
  | cons c cs ih =>
    have tail := ih fun d member => areDigits d (List.mem_cons_of_mem _ member)
    rw [digits] at tail
    rw [digits, List.cons_append, List.takeWhile_cons, if_pos (by simpa using areDigits c List.mem_cons_self), tail]

/-- A digit is no white space, no sign, and not the beginning of a word. -/
theorem plain_of_charValue_lt {c : Char} (digit : charValue c < 10) :
    isWhiteSpace c = false ∧ c ≠ '-' ∧ c ≠ '+' ∧ c ≠ 'I' := by
  have range : '0' ≤ c ∧ c ≤ '9' := by
    unfold charValue at digit
    split_ifs at digit with decimal lower upper
    · exact decimal
    all_goals omega
  have lower : 48 ≤ c.toNat := range.1
  have upper : c.toNat ≤ 57 := range.2
  refine ⟨?_, ?_, ?_, ?_⟩
  · have other : c.toNat ∉ [9, 10, 11, 12, 13, 32, 160, 0x1680, 0x2028, 0x2029, 0x202f, 0x205f, 0x3000, 0xfeff] := by
      simp only [List.mem_cons, List.not_mem_nil, or_false]
      omega
    have low : ¬ 0x2000 ≤ c.toNat := by omega
    simp only [isWhiteSpace, other, decide_false, Bool.false_or, low, Bool.false_and]
  all_goals
    rintro rfl
    revert lower upper
    decide

/-- What `toFixed` prints reads back as the number it prints. -/
theorem parseFloat_fixedPoint {places : ℕ} (point : places ≠ 0) (n : ℕ) :
    parseFloat (String.ofList (fixedPoint places n)) = .fin (n / 10 ^ places) := by
  obtain ⟨whole, fraction, text, nonempty, length, value, areDigits⟩ := fixedPoint_cases point n
  obtain ⟨first, others, rfl⟩ : ∃ first others, whole = first :: others := List.exists_cons_of_ne_nil nonempty
  obtain ⟨noSpace, noMinus, noPlus, noWord⟩ := plain_of_charValue_lt (areDigits first (by simp))
  have trimmed : (fixedPoint places n).dropWhile isWhiteSpace = first :: (others ++ '.' :: fraction) := by
    rw [text, List.cons_append, List.dropWhile_cons_of_neg (by simp [noSpace])]
  have unsigned : readSign (first :: (others ++ '.' :: fraction)) = (false, first :: (others ++ '.' :: fraction)) := by
    unfold readSign
    split
    · rename_i heq
      exact absurd (List.cons.inj heq).1 noMinus
    · rename_i heq
      exact absurd (List.cons.inj heq).1 noPlus
    · rfl
  have noInfinity : "Infinity".toList.isPrefixOf (first :: (others ++ '.' :: fraction)) = false := by
    simp [List.isPrefixOf, Ne.symm noWord]
  have digits_whole : digits 10 (first :: (others ++ '.' :: fraction)) = first :: others := by
    rw [← List.cons_append]
    apply digits_append
    · intro c member
      exact areDigits c (List.mem_append_left _ member)
    · simp [charValue]
  have digits_fraction : digits 10 fraction = fraction := by
    have : digits 10 (fraction ++ []) = fraction := digits_append
      (fun c member => areDigits c (List.mem_append_right _ member)) (by simp)
    rwa [List.append_nil] at this
  have after : (first :: (others ++ '.' :: fraction)).drop (first :: others).length = '.' :: fraction := by
    rw [← List.cons_append, List.drop_left]
  have ends : fraction.drop places = [] := by rw [← length, List.drop_length]
  simp only [parseFloat, String.toList_ofList, trimmed, unsigned, noInfinity, digits_whole, after, digits_fraction,
    length, ends, readExponent, value]
  simp

/-! ## Rounding -/

namespace Number

theorem abs_roundHalfEven_sub_le (q : ℚ) : |(roundHalfEven q : ℚ) - q| ≤ 1 / 2 := by
  have lower := Int.floor_le q
  have upper := Int.lt_floor_add_one q
  rw [abs_le]
  unfold roundHalfEven
  split_ifs <;> push_cast <;> constructor <;> linarith

/-- A number of ordinary size moves by one part in `2^53` at most. -/
theorem round_relative {q : ℚ} (ordinary : q = 0 ∨ (2 : ℚ) ^ (-1000 : ℤ) ≤ q) (small : q ≤ 2 ^ (1000 : ℤ)) :
    ∃ r, round q = fin r ∧ |r - q| ≤ q / 2 ^ 53 := by
  rcases ordinary with rfl | large
  · exact ⟨0, round_zero, by simp⟩
  have positive : 0 < q := lt_of_lt_of_le (by positivity) large
  obtain ⟨r, rounded, -, -⟩ := round_of_nonneg positive.le small (by decide) (by decide)
  refine ⟨r, rounded, ?_⟩
  have ulp : (0 : ℚ) < 2 ^ ulpExponent q := by positivity
  have value : r = roundHalfEven (q / 2 ^ ulpExponent q) * 2 ^ ulpExponent q := by
    simp only [round] at rounded
    split at rounded
    · cases rounded
    · exact (Number.fin.inj rounded).symm
  -- the last place of a number of ordinary size is 52 binary places below its first
  have wide : (-1000 : ℤ) ≤ Int.log 2 q := (Int.zpow_le_iff_le_log one_lt_two positive).mp (by rwa [Nat.cast_ofNat])
  have exponent : ulpExponent q = Int.log 2 q - 52 := by
    rw [ulpExponent_of_pos positive]
    omega
  have place : (2 : ℚ) ^ ulpExponent q * 2 ^ 52 ≤ q := by
    calc (2 : ℚ) ^ ulpExponent q * 2 ^ 52 = 2 ^ Int.log 2 q := by
          rw [exponent, zpow_sub₀ two_ne_zero, ← zpow_natCast (2 : ℚ) 52]
          exact div_mul_cancel₀ _ (by positivity)
      _ ≤ q := zpow_log_le positive
  have units := abs_roundHalfEven_sub_le (q / 2 ^ ulpExponent q)
  calc |r - q| = |(roundHalfEven (q / 2 ^ ulpExponent q) : ℚ) - q / 2 ^ ulpExponent q| * 2 ^ ulpExponent q := by
        rw [value, ← abs_of_pos ulp, ← abs_mul, sub_mul, abs_of_pos ulp, div_mul_cancel₀ _ ulp.ne']
    _ ≤ 1 / 2 * 2 ^ ulpExponent q := mul_le_mul_of_nonneg_right units ulp.le
    _ ≤ q / 2 ^ 53 := by linarith

end Number

/-! ## Amounts of a unit -/

section
open Number
variable {m n unit : ℕ}

/-- A number of units is zero or of ordinary size, whatever the unit. -/
theorem ordinary_ratio (positive : 0 < unit) (fits : unit ≤ 2 ^ 100) :
    (n / unit : ℚ) = 0 ∨ (2 : ℚ) ^ (-1000 : ℤ) ≤ n / unit := by
  rcases Nat.eq_zero_or_pos n with rfl | some
  · exact .inl (by simp)
  · right
    have unit_pos : (0 : ℚ) < unit := by exact_mod_cast positive
    have unit_le : (unit : ℚ) ≤ 2 ^ (100 : ℤ) := by exact_mod_cast fits
    have one_le : (1 : ℚ) ≤ n := by exact_mod_cast some
    rw [le_div_iff₀ unit_pos]
    calc (2 : ℚ) ^ (-1000 : ℤ) * unit ≤ 2 ^ (-1000 : ℤ) * 2 ^ (100 : ℤ) :=
          mul_le_mul_of_nonneg_left unit_le (by positivity)
      _ = 2 ^ (-900 : ℤ) := by rw [← zpow_add₀ two_ne_zero]; rfl
      _ ≤ 2 ^ (0 : ℤ) := zpow_le_zpow_right₀ one_le_two (by decide)
      _ ≤ n := by rwa [zpow_zero]

/-- The roundings of a quotient by the unit, as roundings of the units. -/
theorem abs_mul_unit_le (unit : ℕ) {q r : ℚ} (close : |r - q| ≤ q / 2 ^ 53) :
    |r * unit - q * unit| ≤ q * unit / 2 ^ 53 := by
  have unit_nonneg : (0 : ℚ) ≤ unit := Nat.cast_nonneg unit
  calc |r * unit - q * unit| = |r - q| * unit := by rw [← sub_mul, abs_mul, abs_of_nonneg unit_nonneg]
    _ ≤ q / 2 ^ 53 * unit := mul_le_mul_of_nonneg_right close unit_nonneg
    _ = q * unit / 2 ^ 53 := by ring

/-- Half a unit is of ordinary size. -/
theorem half_ordinary {q : ℚ} (half : 1 / 2 ≤ q) : (2 : ℚ) ^ (-1000 : ℤ) ≤ q := by
  calc (2 : ℚ) ^ (-1000 : ℤ) ≤ 2 ^ (-1 : ℤ) := zpow_le_zpow_right₀ one_le_two (by decide)
    _ = 1 / 2 := by norm_num
    _ ≤ q := half

theorem ratio_le (positive : 0 < unit) (bound : n ≤ 2 ^ 60) : (n / unit : ℚ) ≤ 2 ^ (1000 : ℤ) := by
  have unit_one : (1 : ℚ) ≤ unit := by exact_mod_cast positive
  calc (n / unit : ℚ) ≤ n := div_le_self (Nat.cast_nonneg n) unit_one
    _ ≤ 2 ^ (60 : ℤ) := by exact_mod_cast bound
    _ ≤ 2 ^ (1000 : ℤ) := zpow_le_zpow_right₀ one_le_two (by decide)

/-- The double nearest to an amount, by how far it is from it in units. -/
theorem round_ratio (positive : 0 < unit) (fits : unit ≤ 2 ^ 100) (bound : n ≤ 2 ^ 60) :
    ∃ r, round (n / unit) = fin r ∧ 0 ≤ r ∧ |r * unit - n| ≤ n / 2 ^ 53 := by
  have unit_pos : (0 : ℚ) < unit := by exact_mod_cast positive
  obtain ⟨r, rounded, close⟩ := round_relative (ordinary_ratio (n := n) positive fits) (ratio_le positive bound)
  refine ⟨r, rounded, ?_, ?_⟩
  · have nonneg : (0 : ℚ) ≤ n / unit := by positivity
    have := (abs_le.mp close).1
    linarith
  · have scaled := abs_mul_unit_le unit close
    rwa [div_mul_cancel₀ _ unit_pos.ne'] at scaled

/-- Up to `2^52` units, `toFixed` prints the amount a double was made from. -/
theorem toFixed_round {places : ℕ} (few : places ≤ 30) (bound : n < 2 ^ 52) :
    toFixed places (round (n / 10 ^ places)) = some (String.ofList (fixedPoint places n)) := by
  have positive : 0 < 10 ^ places := by positivity
  have fits : 10 ^ places ≤ 2 ^ 100 := (Nat.pow_le_pow_right (by decide) few).trans (by norm_num)
  obtain ⟨r, rounded, nonneg, close⟩ := round_ratio (n := n) positive fits (by omega)
  push_cast at rounded close
  have n_lt : (n : ℚ) < 2 ^ 52 := by exact_mod_cast bound
  have unit_one : (1 : ℚ) ≤ 10 ^ places := one_le_pow₀ (by norm_num)
  obtain ⟨lower, upper⟩ := abs_le.mp close
  have r_lt : |r| < 10 ^ 21 := by
    rw [abs_of_nonneg nonneg]
    have := le_mul_of_one_le_right nonneg unit_one
    linarith
  have units : ⌊|r| * 10 ^ places + 1 / 2⌋ = (n : ℤ) := by
    rw [abs_of_nonneg nonneg, Int.floor_eq_iff, Int.cast_natCast]
    constructor <;> linarith
  rw [rounded, toFixed, if_pos r_lt, if_neg (not_lt.mpr nonneg), units, List.nil_append, Int.toNat_natCast]

/-- One rounding more, for a product with the unit. -/
theorem mathRound_mul_of_close {r : ℚ} (ordinary : r * unit = 0 ∨ (2 : ℚ) ^ (-1000 : ℤ) ≤ r * unit)
    (close : |r * unit - n| + (r * unit) / 2 ^ 53 < 1 / 2) (bound : n ≤ 2 ^ 60) :
    mathRound ((fin r).mul (fin unit)) = fin n := by
  have n_le : (n : ℚ) ≤ 2 ^ 60 := by exact_mod_cast bound
  have nonneg : 0 ≤ r * unit := by
    rcases ordinary with zero | large
    · exact zero.ge
    · exact (by positivity : (0 : ℚ) ≤ 2 ^ (-1000 : ℤ)).trans large
  obtain ⟨lower, upper⟩ := abs_le.mp (le_refl |r * unit - n|)
  have tiny : 0 ≤ (r * unit) / 2 ^ 53 := by positivity
  have small : r * unit ≤ 2 ^ (1000 : ℤ) := by
    calc r * unit ≤ 2 ^ 61 := by linarith
      _ = 2 ^ (61 : ℤ) := by norm_cast
      _ ≤ 2 ^ (1000 : ℤ) := zpow_le_zpow_right₀ one_le_two (by decide)
  obtain ⟨v, rounded, near⟩ := round_relative ordinary small
  have units : ⌊v + 1 / 2⌋ = (n : ℤ) := by
    obtain ⟨below, above⟩ := abs_le.mp near
    rw [Int.floor_eq_iff, Int.cast_natCast]
    constructor <;> linarith
  rw [mul, rounded, mathRound, units, Int.cast_natCast]

/-- Up to `2^51` units, scaling gives back the amount a double was made from. -/
theorem mathRound_mul_unit (positive : 0 < unit) (fits : unit ≤ 2 ^ 100) (bound : n < 2 ^ 51) :
    mathRound ((round (n / unit)).mul (fin unit)) = fin n := by
  obtain ⟨r, rounded, nonneg, close⟩ := round_ratio (n := n) positive fits (by omega)
  have n_le : (n : ℚ) ≤ 2 ^ 51 - 1 := by
    have : n + 1 ≤ 2 ^ 51 := bound
    exact le_sub_iff_add_le.mpr (by exact_mod_cast this)
  obtain ⟨lower, upper⟩ := abs_le.mp close
  rw [rounded]
  refine mathRound_mul_of_close ?_ ?_ (by omega)
  · rcases Nat.eq_zero_or_pos n with rfl | some
    · left
      rw [Nat.cast_zero] at lower upper
      linarith
    · right
      have one_le : (1 : ℚ) ≤ n := by exact_mod_cast some
      exact half_ordinary (by linarith)
  · linarith

/-- Two amounts that are added as doubles before they are scaled: up to a third of `2^52` units. -/
theorem mathRound_add_mul_unit (positive : 0 < unit) (fits : unit ≤ 2 ^ 100) (bound : 3 * (m + n) < 2 ^ 52) :
    mathRound (((round (m / unit)).add (round (n / unit))).mul (fin unit)) = fin (m + n) := by
  have unit_pos : (0 : ℚ) < unit := by exact_mod_cast positive
  obtain ⟨a, rounded_m, a_nonneg, a_close⟩ := round_ratio (n := m) positive fits (by omega)
  obtain ⟨b, rounded_n, b_nonneg, b_close⟩ := round_ratio (n := n) positive fits (by omega)
  have total_le : 3 * ((m : ℚ) + n) ≤ 2 ^ 52 - 1 := by
    have : 3 * (m + n) + 1 ≤ 2 ^ 52 := bound
    exact le_sub_iff_add_le.mpr (by exact_mod_cast this)
  obtain ⟨a_lower, a_upper⟩ := abs_le.mp a_close
  obtain ⟨b_lower, b_upper⟩ := abs_le.mp b_close
  have sum_cases : a + b = 0 ∨ 3 / 4 ≤ (a + b) * unit := by
    rcases Nat.eq_zero_or_pos (m + n) with zero | some
    · left
      obtain ⟨rfl, rfl⟩ : m = 0 ∧ n = 0 := by omega
      rw [Nat.cast_zero] at a_lower a_upper b_lower b_upper
      have product : (a + b) * unit = 0 := by linarith
      exact (mul_eq_zero.mp product).resolve_right unit_pos.ne'
    · right
      have one_le : (1 : ℚ) ≤ m + n := by exact_mod_cast some
      linarith
  have sum_ordinary : a + b = 0 ∨ (2 : ℚ) ^ (-1000 : ℤ) ≤ a + b := by
    refine sum_cases.imp_right fun large => ?_
    have unit_le : (unit : ℚ) ≤ 2 ^ 100 := by exact_mod_cast fits
    have scaled : (a + b) * unit ≤ (a + b) * 2 ^ 100 := mul_le_mul_of_nonneg_left unit_le (by linarith)
    calc (2 : ℚ) ^ (-1000 : ℤ) ≤ 2 ^ (-101 : ℤ) := zpow_le_zpow_right₀ one_le_two (by decide)
      _ = 1 / 2 / 2 ^ 100 := by norm_num
      _ ≤ a + b := (div_le_iff₀ (by positivity)).mpr (by linarith)
  have sum_small : a + b ≤ 2 ^ (1000 : ℤ) := by
    have unit_one : (1 : ℚ) ≤ unit := by exact_mod_cast positive
    calc a + b ≤ (a + b) * unit := le_mul_of_one_le_right (by linarith) unit_one
      _ ≤ 2 ^ 60 := by linarith
      _ = 2 ^ (60 : ℤ) := by norm_cast
      _ ≤ 2 ^ (1000 : ℤ) := zpow_le_zpow_right₀ one_le_two (by decide)
  obtain ⟨total, rounded, near⟩ := round_relative sum_ordinary sum_small
  obtain ⟨lower, upper⟩ := abs_le.mp (abs_mul_unit_le unit near)
  rw [rounded_m, rounded_n, add, rounded, ← Nat.cast_add]
  refine mathRound_mul_of_close ?_ ?_ (by omega)
  · rcases sum_cases with zero | large
    · left
      rw [zero] at lower upper
      linarith
    · exact .inr (half_ordinary (by linarith))
  · have off : |total * unit - (m + n : ℕ)| ≤ ((m : ℚ) + n) / 2 ^ 53 + (a + b) * unit / 2 ^ 53 := by
      rw [Nat.cast_add, abs_le]
      constructor <;> linarith
    linarith

end

end Js
