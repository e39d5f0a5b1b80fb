import ElektronPool.Stratum.ClientStatistics
import ElektronPool.Stratum.Difficulty
import Mathlib.Logic.Function.Iterate

/-!
# When the difficulty timer gets an answer

`nearestPowerOfTwo` looks at its argument as a signed 32-bit integer and, finding no
positive one, tries again with a hundred times the argument. So it returns exactly for the
arguments that reach a positive 32-bit integer that way (`Suggests`), which a number below
`2^31` does and an infinity never. The argument is a quotient by the time the last shares
span, and the hash rate one by the age of the time slot: neither may be zero.
-/

namespace ElektronPool.Stratum
set_option autoImplicit false
open Js Async

/-! ## The highest power of two -/

section
variable {x : BitVec 32}

theorem msb_smear : (smear x).msb = x.msb := by
  simp [smear, BitVec.msb_or, BitVec.msb_sshiftRight]

/-- Spreading by `n` places fills the top `2n` bits once the top `n` are set. -/
theorem getLsbD_spread {n : ℕ} (top : ∀ i, i < 32 → 32 ≤ i + n → x.getLsbD i = true) (msb : x.msb = true) :
    ∀ i, i < 32 → 32 ≤ i + 2 * n → (x ||| x.sshiftRight n).getLsbD i = true := by
  intro i bound high
  rw [BitVec.getLsbD_or, BitVec.getLsbD_sshiftRight, msb, Bool.or_eq_true]
  right
  by_cases inside : n + i < 32
  · simp [bound, inside, top (n + i) inside (by omega)]
  · simp [bound, inside]

/-- A negative integer is spread to all ones. -/
theorem smear_of_msb (msb : x.msb = true) : smear x = BitVec.allOnes 32 := by
  have step : ∀ (y : BitVec 32) (n : ℕ), y.msb = true → (y ||| y.sshiftRight n).msb = true := by
    intro y n set
    simp [BitVec.msb_or, set]
  have top : ∀ i, i < 32 → 32 ≤ i + 1 → x.getLsbD i = true := by
    intro i bound high
    obtain rfl : i = 31 := by omega
    simpa [BitVec.msb_eq_getLsbD_last] using msb
  have after1 := getLsbD_spread top msb
  have after2 := getLsbD_spread after1 (step _ _ msb)
  have after4 := getLsbD_spread after2 (step _ _ (step _ _ msb))
  have after8 := getLsbD_spread after4 (step _ _ (step _ _ (step _ _ msb)))
  have after16 := getLsbD_spread after8 (step _ _ (step _ _ (step _ _ (step _ _ msb))))
  apply BitVec.eq_of_getLsbD_eq
  intro i bound
  rw [BitVec.getLsbD_allOnes, smear, BitVec.getLsbD_or]
  simp only [after16 i bound (by omega), Bool.true_or, bound, decide_true]

theorem smear_eq_zero (zero : smear x = 0#32) : x = 0#32 := by
  simp only [smear, BitVec.or_eq_zero_iff] at zero
  tauto

theorem toInt_sshiftRight_one (x : BitVec 32) : (x.sshiftRight 1).toInt = x.toInt / 2 := by
  rw [BitVec.toInt_sshiftRight, Int.shiftRight_eq_div_pow]
  rfl

/-- Zero for what is not positive, and a positive power for what is. -/
theorem highestPower_cases : (x.toInt ≤ 0 ∧ highestPower x = 0) ∨
    (0 < x.toInt ∧ 1 ≤ highestPower x ∧ highestPower x < 2 ^ 31) := by
  cases msb : x.msb with
  | true =>
    refine .inl ⟨?_, ?_⟩
    · have := BitVec.toInt_neg_iff.mpr (BitVec.msb_eq_true_iff_two_mul_ge.mp msb)
      omega
    · rw [highestPower, smear_of_msb msb]
      decide
  | false =>
    have nonneg := BitVec.toInt_nonneg_of_msb_false msb
    have smeared := BitVec.toInt_nonneg_of_msb_false (msb_smear.trans msb)
    have below := BitVec.toInt_lt (x := smear x)
    by_cases zero : x = 0#32
    · subst zero
      exact .inl (by decide)
    · have positive : 0 < x.toInt := by
        refine lt_of_le_of_ne nonneg fun eq => zero ?_
        exact BitVec.eq_of_toInt_eq (by simpa using eq.symm)
      have spread : 0 < (smear x).toInt := by
        refine lt_of_le_of_ne smeared fun eq => zero (smear_eq_zero ?_)
        exact BitVec.eq_of_toInt_eq (by simpa using eq.symm)
      refine .inr ⟨positive, ?_⟩
      rw [highestPower, toInt_sshiftRight_one]
      omega

end

/-! ## nearestPowerOfTwo -/

/-- The argument of the `n`-th nested call. -/
def timesHundred (n : ℕ) (val : Number) : Number := (fun v => v.mul (.fin 100))^[n] val

/-- `nearestPowerOfTwo` has an answer for this argument: it is zero or tiny, or soon reads as a
positive signed 32-bit integer. -/
def Suggests (val : Number) : Prop :=
  val = .fin 0 ∨ val.lt minDiff = true ∨ ∃ n < 20, 0 < (timesHundred n val).toInt32.toInt

instance : DecidablePred Suggests := fun _ => inferInstanceAs (Decidable (_ ∨ _ ∨ _))

theorem timesHundred_zero (n : ℕ) : timesHundred n (.fin 0) = .fin 0 := by
  have fixed : Number.mul (.fin 0) (.fin 100) = .fin 0 := by
    rw [Number.mul, zero_mul, Number.round_zero]
  exact Function.iterate_fixed fixed n

theorem timesHundred_succ (n : ℕ) (val : Number) : timesHundred (n + 1) val = timesHundred n (val.mul (.fin 100)) :=
  Function.iterate_succ_apply ..

theorem minDiff_eq : ∃ q, minDiff = .fin q ∧ 2 ^ (-17 : ℤ) ≤ q ∧ q ≤ 2 ^ (0 : ℤ) := by
  obtain ⟨q, rounded, -, below⟩ := Number.round_of_nonneg (q := 1 / 100000) (k := 0) (by norm_num) (by norm_num)
    (by norm_num) (by norm_num)
  exact ⟨q, rounded, Number.le_of_round (by norm_num) (by norm_num) rounded, below⟩

theorem strictEq_zero {val : Number} : val.strictEq (.fin 0) = true ↔ val = .fin 0 := by
  cases val <;> simp [Number.strictEq]

/-- One call with a nonzero argument: the minimum, a power of two, or the next call. -/
theorem nearestPowerOfTwo_succ (frames : ℕ) {val : Number} (nonzero : val ≠ .fin 0) :
    nearestPowerOfTwo (frames + 1) val = some (some minDiff) ∨
    (0 < val.toInt32.toInt ∧ ∃ res : ℤ, 1 ≤ res ∧ res < 2 ^ 31 ∧
      nearestPowerOfTwo (frames + 1) val = some (some (.fin res))) ∨
    (val.toInt32.toInt ≤ 0 ∧ nearestPowerOfTwo (frames + 1) val =
      (nearestPowerOfTwo frames (val.mul (.fin 100))).map fun r => some ((r.getD (.fin 0)).div (.fin 100))) := by
  rw [nearestPowerOfTwo, if_neg (mt strictEq_zero.mp nonzero)]
  by_cases tiny : val.lt minDiff = true
  · rw [if_pos tiny]
    exact .inl rfl
  rw [if_neg tiny]
  rcases highestPower_cases (x := val.toInt32) with ⟨nonpositive, zero⟩ | ⟨positive, low, high⟩
  · simp only [zero, true_and, if_true]
    split
    · exact .inl rfl
    · exact .inr (.inr ⟨nonpositive, rfl⟩)
  · have notZero : highestPower val.toInt32 ≠ 0 := by omega
    refine .inr (.inl ⟨positive, _, low, high, ?_⟩)
    simp only [notZero, false_and, if_false]

/-- Once the `n`-th argument is positive, the calls return, with a positive number. -/
theorem nearestPowerOfTwo_of_positive (n : ℕ) (small : n ≤ 100) :
    ∀ val : Number, 0 < (timesHundred n val).toInt32.toInt → ∃ r, nearestPowerOfTwo (n + 1) val = some (some (.fin r)) ∧
      2 ^ (-17 - 7 * n : ℤ) ≤ r ∧ r ≤ 2 ^ (31 : ℤ) := by
  have least : ∀ n : ℕ, (2 : ℚ) ^ (-17 - 7 * n : ℤ) ≤ 2 ^ (-17 : ℤ) := fun n =>
    zpow_le_zpow_right₀ one_le_two (by omega)
  obtain ⟨q, minimum, q_low, q_high⟩ := minDiff_eq
  induction n with
  | zero =>
    intro val positive
    have nonzero : val ≠ .fin 0 := by
      rintro rfl
      revert positive
      decide
    rcases nearestPowerOfTwo_succ 0 nonzero with tiny | ⟨-, res, low, high, power⟩ | ⟨nonpositive, -⟩
    · exact ⟨q, minimum ▸ tiny, (least 0).trans q_low, q_high.trans (by norm_num)⟩
    · refine ⟨res, power, ?_, ?_⟩
      · calc (2 : ℚ) ^ (-17 - 7 * (0 : ℕ) : ℤ) ≤ 1 := by norm_num
          _ ≤ res := by exact_mod_cast low
      · exact_mod_cast high.le
    · exact absurd positive (not_lt.mpr nonpositive)
  | succ n ih =>
    intro val positive
    have nonzero : val ≠ .fin 0 := by
      rintro rfl
      rw [timesHundred_zero] at positive
      revert positive
      decide
    rcases nearestPowerOfTwo_succ (n + 1) nonzero with tiny | ⟨-, res, low, high, power⟩ | ⟨-, again⟩
    · exact ⟨q, minimum ▸ tiny, (least _).trans q_low, q_high.trans (by norm_num)⟩
    · refine ⟨res, power, ?_, ?_⟩
      · calc (2 : ℚ) ^ (-17 - 7 * (n + 1 : ℕ) : ℤ) ≤ 2 ^ (0 : ℤ) := zpow_le_zpow_right₀ one_le_two (by omega)
          _ ≤ res := by exact_mod_cast low
      · exact_mod_cast high.le
    · rw [timesHundred_succ] at positive
      obtain ⟨r, inner, r_low, r_high⟩ := ih (by omega) _ positive
      have pos : (0 : ℚ) < 2 ^ (-17 - 7 * n : ℤ) := by positivity
      have r_nonneg : 0 ≤ r := pos.le.trans r_low
      obtain ⟨r', rounded, -, r'_high⟩ := Number.round_of_nonneg (q := r / 100) (k := 31) (by positivity)
        ((div_le_self r_nonneg (by norm_num)).trans r_high) (by norm_num) (by norm_num)
      refine ⟨r', ?_, ?_, r'_high⟩
      · rw [again, inner, Option.map_some, Option.getD_some, Number.div, if_neg (by norm_num), rounded]
      · apply Number.le_of_round _ (by push_cast; omega) rounded
        have shift : (2 : ℚ) ^ (-17 - 7 * (n + 1 : ℕ) : ℤ) = 2 ^ (-17 - 7 * n : ℤ) / 2 ^ (7 : ℤ) := by
          rw [← zpow_sub₀ two_ne_zero]
          congr 1
          push_cast
          ring
        rw [shift]
        exact div_le_div₀ r_nonneg r_low (by norm_num) (by norm_num)

/-- Where it suggests something, it returns: null or a positive number. -/
theorem nearestPowerOfTwo_of_suggests {val : Number} (suggests : Suggests val) :
    ∃ frames r, nearestPowerOfTwo frames val = some r ∧ (r = none ∨ ∃ q, 0 < q ∧ r = some (.fin q)) := by
  rcases suggests with rfl | tiny | ⟨n, small, positive⟩
  · exact ⟨1, none, rfl, .inl rfl⟩
  · obtain ⟨q, minimum, low, -⟩ := minDiff_eq
    by_cases zero : val = .fin 0
    · subst zero
      exact ⟨1, none, rfl, .inl rfl⟩
    · refine ⟨1, some minDiff, ?_, .inr ⟨q, lt_of_lt_of_le (by positivity) low, by rw [minimum]⟩⟩
      rw [nearestPowerOfTwo, if_neg (mt strictEq_zero.mp zero), if_pos tiny]
  · obtain ⟨r, returned, low, -⟩ := nearestPowerOfTwo_of_positive n (by omega) val positive
    exact ⟨n + 1, _, returned, .inr ⟨r, lt_of_lt_of_le (by positivity) low, rfl⟩⟩

theorem toInt32_pos {q : ℚ} (low : 1 ≤ q) (high : q < 2 ^ (31 : ℤ)) : 0 < (Number.toInt32 (.fin q)).toInt := by
  have floor_low : 1 ≤ ⌊q⌋ := Int.le_floor.mpr (by exact_mod_cast low)
  have floor_high : ⌊q⌋ < 2 ^ 31 := Int.floor_lt.mpr (by exact_mod_cast high)
  rw [Number.toInt32, Number.trunc_of_nonneg (by linarith), BitVec.toInt_ofInt_eq_self (by decide)] <;> omega

/-- A number that is not tiny reaches a positive 32-bit integer before it exceeds 100. -/
theorem timesHundred_pos (n : ℕ) (small : n ≤ 100) : ∀ q : ℚ, 2 ^ (-6 * n : ℤ) ≤ q → q < 2 ^ (31 : ℤ) →
    ∃ m ≤ n, 0 < (timesHundred m (.fin q)).toInt32.toInt := by
  induction n with
  | zero =>
    intro q low high
    exact ⟨0, le_refl 0, toInt32_pos (by simpa using low) high⟩
  | succ n ih =>
    intro q low high
    by_cases one : 1 ≤ q
    · exact ⟨0, by omega, toInt32_pos one high⟩
    have shift : (2 : ℚ) ^ (-6 * n : ℤ) = 2 ^ (-6 * (n + 1 : ℕ) : ℤ) * 2 ^ (6 : ℤ) := by
      rw [← zpow_add₀ two_ne_zero]
      congr 1
      push_cast
      ring
    have pos : (0 : ℚ) < 2 ^ (-6 * (n + 1 : ℕ) : ℤ) := by positivity
    have six : (2 : ℚ) ^ (6 : ℤ) = 64 := by norm_num
    have seven : (2 : ℚ) ^ (7 : ℤ) = 128 := by norm_num
    have below : q * 100 ≤ 2 ^ (7 : ℤ) := by linarith
    obtain ⟨r, rounded, -, r_high⟩ := Number.round_of_nonneg (k := 7) (by linarith) below (by norm_num) (by norm_num)
    have r_low : 2 ^ (-6 * n : ℤ) ≤ r := by
      apply Number.le_of_round _ (by omega) rounded
      rw [shift, six]
      linarith
    have r_small : r < 2 ^ (31 : ℤ) := r_high.trans_lt (by norm_num)
    obtain ⟨m, le, positive⟩ := ih (by omega) r r_low r_small
    refine ⟨m + 1, by omega, ?_⟩
    rw [timesHundred_succ, Number.mul, rounded]
    exact positive

/-- Every number from the minimum up to `2^31` suggests something. -/
theorem suggests_of_lt {q : ℚ} (low : 2 ^ (-17 : ℤ) ≤ q) (high : q < 2 ^ (31 : ℤ)) : Suggests (.fin q) := by
  have lower : (2 : ℚ) ^ (-6 * (3 : ℕ) : ℤ) ≤ q := le_trans (zpow_le_zpow_right₀ one_le_two (by norm_num)) low
  obtain ⟨m, le, positive⟩ := timesHundred_pos 3 (by norm_num) q lower high
  exact .inr (.inr ⟨m, by omega, positive⟩)

/-- An infinity never does: the calls go on until the stack overflows. -/
theorem nearestPowerOfTwo_inf (frames : ℕ) : nearestPowerOfTwo frames (.inf false) = none := by
  obtain ⟨q, minimum, -⟩ := minDiff_eq
  have notTiny : (Number.inf false).lt minDiff = false := by rw [minimum]; rfl
  have again : Number.mul (.inf false) (.fin 100) = .inf false := by decide
  have zero : highestPower (Number.toInt32 (.inf false)) = 0 := by decide
  induction frames with
  | zero => rfl
  | succ frames ih => simp [nearestPowerOfTwo, notTiny, again, zero, ih, Number.strictEq]

/-! ## The session -/

/-- What happens to a session: its `addShares` calls, the client setting a difficulty
(mining.suggest_difficulty or the password hint), and the difficulty timer, with the stack
frames it has. -/
inductive SessionEvent where
  | share (event : Event AddShares StatisticsAnswer)
  | setDifficulty (difficulty : Number)
  | timer (elapsedMs frames : ℕ)
  deriving DecidableEq

abbrev Sessions := Pool Session AddShares

def AddShares.isEntry : AddShares → Bool
  | .addShares _ => true
  | _ => false

/-- `checkDifficulty`, as far as it sets the session difficulty. -/
def Session.checkDifficulty (s : Session) (elapsedMs frames : ℕ) : Session :=
  let now := s.now + elapsedMs
  match s.statistics.getSuggestedDifficulty frames now s.sessionDifficulty with
  | some (some targetDiff) => ⟨now, s.statistics, targetDiff⟩
  | _ => ⟨now, s.statistics, s.sessionDifficulty⟩

theorem Session.statistics_checkDifficulty (s : Session) (elapsedMs frames : ℕ) :
    (s.checkDifficulty elapsedMs frames).statistics = s.statistics := by
  simp only [checkDifficulty]
  split <;> rfl

def Sessions.step (p : Sessions) : SessionEvent → Option Sessions
  | .share event => Pool.step AddShares.isEntry AddShares.resume p event
  | .setDifficulty difficulty =>
    if difficulty.isFinite then some ⟨{ p.shared with sessionDifficulty := difficulty }, p.calls⟩ else none
  | .timer elapsedMs frames => some ⟨p.shared.checkDifficulty elapsedMs frames, p.calls⟩

def Sessions.initial (now : ℤ) (sessionDifficulty : Number) : Sessions := ⟨⟨now, .new now, sessionDifficulty⟩, []⟩

/-- The difficulty of a share: positive, and at most that of the hash 1. -/
def Accepted : Number → Prop
  | .fin r => 0 < r ∧ r ≤ trueDiffOne
  | _ => False

instance : DecidablePred Accepted
  | .fin r => inferInstanceAs (Decidable (0 < r ∧ r ≤ trueDiffOne))
  | .nan | .inf _ => .isFalse id

/-- The clock has moved on since the time slot began, where the hash rate is computed. -/
def HashRateDefined (s : Session) : StatisticsAnswer → Prop
  | .ran first second _ => s.statistics.branch (s.now + first) = .accumulate →
    ∀ previous ∈ s.statistics.previousTimeSlotTime, previous < s.now + first + second
  | .threw => True

/-- The difficulty a call still has to book is that of an accepted share. -/
def AddShares.IsAccepted : AddShares → Prop
  | .addShares d | .updatePrevious _ d => Accepted d
  | _ => True

/-- A share is booked with the clock as it should be. -/
def ShareRegular (s : Session) (a : StatisticsAnswer) : AddShares → Prop
  | .addShares _ => HashRateDefined s a
  | _ => True

/-- The timer finds a difficulty that suggests something, or none at all. -/
def TimerRegular (s : Session) (elapsedMs : ℕ) : Prop :=
  ∀ val ∈ s.statistics.suggestionArgument (s.now + elapsedMs) s.sessionDifficulty, Suggests val

/-- Every share that comes in was accepted. -/
def AcceptedShares (p : Sessions) : SessionEvent → Prop
  | .share event => Pool.Allowed (fun _ t => t.IsAccepted) (fun _ _ _ _ => True) p event
  | _ => True

/-- The condition on the events of a session. -/
def Regular (p : Sessions) : SessionEvent → Prop
  | .share event => Pool.Allowed (fun _ t => t.IsAccepted) (fun s _ t a => ShareRegular s a t) p event
  | .setDifficulty _ => True
  | .timer elapsedMs _ => TimerRegular p.shared elapsedMs

instance (s : Session) : ∀ a, Decidable (HashRateDefined s a)
  | .ran first second _ => inferInstanceAs (Decidable (s.statistics.branch (s.now + first) = .accumulate →
      ∀ previous ∈ s.statistics.previousTimeSlotTime, previous < s.now + first + second))
  | .threw => .isTrue trivial

instance (s : Session) (a : StatisticsAnswer) : DecidablePred (ShareRegular s a)
  | .addShares _ => inferInstanceAs (Decidable (HashRateDefined s a))
  | .insertFirst | .updatePrevious .. | .insertNext | .updateCurrent | .returned | .rejected => .isTrue trivial

instance : DecidablePred AddShares.IsAccepted
  | .addShares d | .updatePrevious _ d => inferInstanceAs (Decidable (Accepted d))
  | .insertFirst | .insertNext | .updateCurrent | .returned | .rejected => .isTrue trivial

instance (s : Session) (elapsedMs : ℕ) : Decidable (TimerRegular s elapsedMs) :=
  inferInstanceAs (Decidable (∀ val ∈ s.statistics.suggestionArgument (s.now + elapsedMs) s.sessionDifficulty,
    Suggests val))

instance (p : Sessions) : DecidablePred (AcceptedShares p)
  | .share event => inferInstanceAs (Decidable (Pool.Allowed (fun _ t => AddShares.IsAccepted t)
      (fun _ _ _ _ => True) p event))
  | .setDifficulty _ | .timer .. => .isTrue trivial

instance (p : Sessions) : DecidablePred (Regular p)
  | .share event => inferInstanceAs (Decidable (Pool.Allowed (fun _ t => AddShares.IsAccepted t)
      (fun s _ t a => ShareRegular s a t) p event))
  | .setDifficulty _ => .isTrue trivial
  | .timer elapsedMs _ => inferInstanceAs (Decidable (TimerRegular p.shared elapsedMs))

/-! ## The hash rate stays finite -/

/-- The sums stay within bounds: beyond `2^278` a share no longer changes them. -/
structure Bounded (s : ClientStatistics) : Prop where
  shares : Number.Within 278 s.shares
  previousShares : Number.Within 278 s.previousShares
  hashRate : s.hashRate.isFinite = true

theorem Accepted.within {d : Number} (accepted : Accepted d) : Number.Within 224 d := by
  cases d with
  | fin r =>
    refine ⟨r, rfl, accepted.1.le, accepted.2.trans ?_⟩
    rw [trueDiffOne]
    norm_num
  | _ => cases accepted

theorem within_count {s : ClientStatistics} {d : Number} (bounded : Bounded s) (accepted : Accepted d) :
    Number.Within 278 (s.shares.add d) :=
  Number.within_add_small bounded.shares accepted.within (by norm_num) (by norm_num)

/-- A positive time in seconds, as a divisor. -/
theorem seconds_cases {ms : ℤ} (positive : 1 ≤ ms) :
    (∃ negative, (Number.round ms).div (.fin 1000) = .inf negative) ∨
      ∃ t : ℚ, 2 ^ (-10 : ℤ) ≤ t ∧ (Number.round ms).div (.fin 1000) = Number.round t := by
  cases rounded : Number.round ms with
  | nan =>
    simp only [Number.round] at rounded
    split at rounded <;> cases rounded
  | inf negative => exact .inl ⟨_, rfl⟩
  | fin r =>
    have low : (2 : ℚ) ^ (0 : ℤ) ≤ r := by
      apply Number.le_of_round _ (by norm_num) rounded
      rw [zpow_zero]
      exact_mod_cast positive
    refine .inr ⟨r / 1000, ?_, by rw [Number.div, if_neg (by norm_num)]⟩
    rw [zpow_zero] at low
    calc (2 : ℚ) ^ (-10 : ℤ) = 1 / 1024 := by norm_num
      _ ≤ r / 1000 := by linarith

theorem isFinite_hashRateAt {s : ClientStatistics} {now previous : ℤ} (shares : Number.Within 278 s.shares)
    (previousShares : Number.Within 278 s.previousShares) (later : previous < now) :
    (s.hashRateAt now previous).isFinite = true := by
  have sum := Number.within_add previousShares shares (by norm_num) (by norm_num)
  have two_pow : Number.Within 32 (.fin 4294967296) := ⟨_, rfl, by norm_num, by norm_num⟩
  have product := Number.within_mul sum two_pow (by norm_num) (by norm_num)
  have elapsed : (1 : ℤ) ≤ now - previous := by omega
  unfold ClientStatistics.hashRateAt
  rw [← Int.cast_sub]
  rcases seconds_cases elapsed with ⟨negative, infinite⟩ | ⟨t, low, seconds⟩
  · obtain ⟨r, value, -⟩ := product
    rw [value, infinite]
    rfl
  · rw [seconds]
    exact (Number.within_div product low (by norm_num) (by norm_num) (by norm_num)).isFinite

theorem bounded_enter {s : Session} {d : Number} {first second third : ℕ} (bounded : Bounded s.statistics)
    (accepted : Accepted d) (defined : HashRateDefined s (.ran first second third)) :
    Bounded (AddShares.enter s d first second third).1.statistics ∧ (AddShares.enter s d first second third).2.IsAccepted := by
  have counted := within_count bounded accepted
  unfold AddShares.enter
  cases taken : s.statistics.branch (s.now + first) with
  | first =>
    simp only [ClientStatistics.branch_pushSubmission, taken]
    exact ⟨⟨counted, bounded.previousShares, bounded.hashRate⟩, trivial⟩
  | transition =>
    simp only [ClientStatistics.branch_pushSubmission, taken]
    exact ⟨⟨bounded.shares, bounded.previousShares, bounded.hashRate⟩, accepted⟩
  | save =>
    simp only [ClientStatistics.branch_pushSubmission, taken]
    exact ⟨⟨counted, bounded.previousShares, bounded.hashRate⟩, trivial⟩
  | accumulate =>
    simp only [ClientStatistics.branch_pushSubmission, taken]
    split
    · split
      · exact ⟨⟨counted, bounded.previousShares, bounded.hashRate⟩, trivial⟩
      · rename_i previous known
        refine ⟨⟨counted, bounded.previousShares, ?_⟩, trivial⟩
        exact isFinite_hashRateAt counted bounded.previousShares (defined taken previous known)
    · exact ⟨⟨counted, bounded.previousShares, bounded.hashRate⟩, trivial⟩

theorem bounded_resume {s s' : Session} {t t' : AddShares} {a : StatisticsAnswer} (bounded : Bounded s.statistics)
    (booking : t.IsAccepted) (regular : ShareRegular s a t) (resumed : t.resume s a = some (s', t')) :
    Bounded s'.statistics ∧ t'.IsAccepted := by
  unfold AddShares.resume at resumed
  split at resumed
  case h_1 =>
    obtain ⟨rfl, rfl⟩ := Prod.ext_iff.mp (Option.some.inj resumed)
    exact bounded_enter bounded booking regular
  case h_5 =>
    cases resumed
    exact ⟨⟨(Accepted.within booking).mono (by norm_num), bounded.shares, bounded.hashRate⟩, trivial⟩
  all_goals
    cases resumed
  all_goals exact ⟨⟨bounded.shares, bounded.previousShares, bounded.hashRate⟩, trivial⟩

/-- The outline of a session: its calls only share the sums. -/
def accounting : Outline Session AddShares where
  shared s := Bounded s.statistics
  call _ t := t.IsAccepted
  pair _ _ _ := True
  symm _ _ _ _ := trivial

theorem accounting_step {p p' : Sessions} {e : SessionEvent} (holds : accounting.Holds p) (regular : Regular p e)
    (moved : p.step e = some p') : accounting.Holds p' := by
  cases e with
  | share event =>
    refine holds.step ?_ ?_ moved
    · rintro t rfl -
      exact ⟨regular, fun _ _ => trivial⟩
    · rintro before t after a s' t' rfl calls resumed own beside
      have allowed : Pool.Allowed (fun _ t => AddShares.IsAccepted t) (fun s _ t a => ShareRegular s a t) p
        (.resume before.length a) := regular
      have here := allowed.continues calls
      obtain ⟨bounded, booking⟩ := bounded_resume holds.shared own here resumed
      exact ⟨bounded, booking, fun u member => (beside u member).1, fun _ _ => trivial, fun _ _ _ _ _ => trivial⟩
  | setDifficulty d =>
    simp only [Sessions.step] at moved
    split at moved
    · cases moved
      exact ⟨holds.shared, holds.calls, holds.pairs⟩
    · cases moved
  | timer elapsedMs frames =>
    cases moved
    refine ⟨?_, holds.calls, holds.pairs⟩
    show Bounded (p.shared.checkDifficulty elapsedMs frames).statistics
    rw [Session.statistics_checkDifficulty]
    exact holds.shared

/-- **The statistics stay defined**: in every run in which the hash rate is never computed in
the millisecond its time slot began, no share hashes to zero and the timer only meets
arguments that suggest something, the hash rate is finite, and the timer gets null or a
positive number. -/
theorem statistics_defined {now : ℤ} {sessionDifficulty : Number} {p : Sessions}
    (run : Reaches Sessions.step Regular (.initial now sessionDifficulty) p) :
    p.shared.statistics.hashRate.isFinite = true ∧ ∀ elapsedMs, TimerRegular p.shared elapsedMs →
      ∃ frames r, p.shared.statistics.getSuggestedDifficulty frames (p.shared.now + elapsedMs)
          p.shared.sessionDifficulty = some r ∧ (r = none ∨ ∃ q, 0 < q ∧ r = some (.fin q)) := by
  have holds : accounting.Holds p := by
    apply run.invariant
    · refine ⟨⟨Number.within_zero _, Number.within_zero _, rfl⟩, ?_, .nil⟩
      intro t member
      cases member
    · exact fun _ _ _ holds regular moved => accounting_step holds regular moved
  refine ⟨holds.shared.hashRate, fun elapsedMs regular => ?_⟩
  unfold ClientStatistics.getSuggestedDifficulty
  unfold TimerRegular at regular
  split
  · exact ⟨0, none, rfl, .inl rfl⟩
  · rename_i val found
    exact nearestPowerOfTwo_of_suggests (regular val found)

/-- Six shares of difficulty 1 in steps of 300 ms, then the timer. -/
theorem statistics_defined_six_shares : ∃ p : Sessions, p.shared.statistics.submissionCache.length = 6 ∧
    p.shared.statistics.hashRate.isFinite = true ∧
    ∃ frames r, p.shared.statistics.getSuggestedDifficulty frames (p.shared.now + (0 : ℕ)) p.shared.sessionDifficulty =
      some r ∧ (r = none ∨ ∃ q, 0 < q ∧ r = some (.fin q)) := by
  obtain ⟨p, run, length, regular⟩ := exists_reaches Sessions.step Regular (.initial 1700000000000 (.fin 1))
    [.share (.start (.addShares (.fin 1))), .share (.resume 0 (.ran 0 0 0)), .share (.resume 0 (.ran 0 0 0)),
      .share (.start (.addShares (.fin 1))), .share (.resume 1 (.ran 300 0 0)),
      .share (.start (.addShares (.fin 1))), .share (.resume 2 (.ran 300 0 0)),
      .share (.start (.addShares (.fin 1))), .share (.resume 3 (.ran 300 0 0)),
      .share (.start (.addShares (.fin 1))), .share (.resume 4 (.ran 300 0 0)),
      .share (.start (.addShares (.fin 1))), .share (.resume 5 (.ran 300 0 0)), .timer 0 20]
    (fun p => p.shared.statistics.submissionCache.length = 6 ∧ TimerRegular p.shared 0) (by decide +kernel)
  obtain ⟨finite, timer⟩ := statistics_defined run
  exact ⟨p, length, finite, timer 0 regular⟩

/-- Five shares in one millisecond: the cache spans no time, the target is infinite and the
timer's recursion never ends. -/
theorem not_statistics_defined_same_millisecond : ¬ ∀ (now : ℤ) (sessionDifficulty : Number) (p : Sessions),
    Reaches Sessions.step AcceptedShares (.initial now sessionDifficulty) p →
    p.shared.statistics.hashRate.isFinite = true ∧ ∀ elapsedMs : ℕ,
      ∃ frames r, p.shared.statistics.getSuggestedDifficulty frames (p.shared.now + elapsedMs)
        p.shared.sessionDifficulty = some r ∧ (r = none ∨ ∃ q, 0 < q ∧ r = some (.fin q)) := by
  intro claim
  obtain ⟨p, run, infinite⟩ := exists_reaches Sessions.step AcceptedShares (.initial 1700000000000 (.fin 1))
    [.share (.start (.addShares (.fin 1))), .share (.resume 0 (.ran 0 0 0)), .share (.resume 0 (.ran 0 0 0)),
      .share (.start (.addShares (.fin 1))), .share (.resume 1 (.ran 0 0 0)),
      .share (.start (.addShares (.fin 1))), .share (.resume 2 (.ran 0 0 0)),
      .share (.start (.addShares (.fin 1))), .share (.resume 3 (.ran 0 0 0)),
      .share (.start (.addShares (.fin 1))), .share (.resume 4 (.ran 0 0 0))]
    (fun p => p.shared.statistics.suggestionArgument (p.shared.now + (0 : ℕ)) p.shared.sessionDifficulty =
      some (.inf false)) (by decide +kernel)
  obtain ⟨frames, r, returned, -⟩ := (claim _ _ p run).2 0
  rw [ClientStatistics.getSuggestedDifficulty, infinite] at returned
  have overflow : nearestPowerOfTwo frames (.inf false) = some r := returned
  rw [nearestPowerOfTwo_inf] at overflow
  cases overflow

end ElektronPool.Stratum
