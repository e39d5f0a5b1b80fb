import ElektronPool.Async.Pool
import ElektronPool.Pplns.State

/-!
# RewardCalculatorService.processBlockFound

The split of a block reward and the call that writes it, one state of `RewardCall` for
each await. Difficulties and percentages are exact rationals.
-/

namespace ElektronPool.Pplns
set_option autoImplicit false
open Js

/-- How an await ends. The ledger statements either run (`executed`) or fail without effect
(`dbError`); everything else that fails `threw`. -/
inductive Answer where
  | executed
  | dbError
  | threw (message : Option String)
  | miningInfo (blocks : Option ℤ)
  | overrides (rows : OrderedMap String ℤ)
  | balance (sats : ℤ)
  | sent (txid : String) (networkFeeSats : ℤ)
  | lost (txid : String) (networkFeeSats : ℤ) (message : Option String)
  | confirmations (count : ℤ)
  deriving DecidableEq

def totalDifficulty (shares : List PplnsShareEntity) : ℚ := (shares.map (·.difficulty)).sum

/-- The reward less the pool fee, rounded down. -/
def distributableSats (settings : Settings) (blockRewardSats : ℕ) : ℤ :=
  ⌊(blockRewardSats : ℚ) * (1 - settings.feePercent / 100)⌋

/-- What one share earns. Rounding is per share, before the shares of a miner are added up. -/
def shareAmount (distributable : ℤ) (total : ℚ) (share : PplnsShareEntity) : ℤ :=
  ⌊(distributable : ℚ) * (share.difficulty / total)⌋

def perMinerTotals (distributable : ℤ) (total : ℚ) (shares : List PplnsShareEntity) : OrderedMap String ℤ :=
  shares.foldl (fun totals share => OrderedMap.setWith share.minerAddress
    (fun old => old.getD 0 + shareAmount distributable total share) totals) []

/-- Where a `processBlockFound` call stands: the await it is in. A call that threw keeps,
for the record, what it had not written by then. -/
inductive RewardCall where
  | shares (blockHeight : ℤ) (blockRewardSats : ℕ) (windowStart : ℤ)
  | credit (blockHeight : ℤ) (blockRewardSats : ℕ) (feeSats distributable allocatedSats : ℤ)
      (address : String) (amount : ℤ) (rest : OrderedMap String ℤ)
  | insertAccounting (blockRewardSats : ℕ) (feeSats dustSats : ℤ)
  | updateAccounting (blockRewardSats : ℕ) (feeSats dustSats : ℤ)
  | returned (blockRewardSats : ℕ)
  | rejected (blockRewardSats : ℕ) (unwritten : ℤ)
  deriving DecidableEq

namespace RewardCall

/-- The reward the call was made for. -/
def blockRewardSats : RewardCall → ℕ
  | .shares _ reward _ | .credit _ reward _ _ _ _ _ _ | .insertAccounting reward _ _
  | .updateAccounting reward _ _ | .returned reward | .rejected reward _ => reward

/-- The part of the reward the call has not written yet. -/
def unwritten : RewardCall → ℤ
  | .shares _ reward _ => reward
  | .credit _ _ fee distributable allocated _ _ _ => fee + (distributable - allocated)
  | .insertAccounting _ fee dust | .updateAccounting _ fee dust => fee + dust
  | .returned _ => 0
  | .rejected _ unwritten => unwritten

/-- The call itself, up to its first await. -/
def processBlockFound (settings : Settings) (nowMs blockHeight : ℤ) (blockRewardSats : ℕ) : RewardCall :=
  .shares blockHeight blockRewardSats (nowMs - settings.windowMinutes * 60 * 1000)

/-- The credit loop from its next entry on; entries that are not positive are skipped. -/
def nextCredit (blockHeight : ℤ) (blockRewardSats : ℕ) (feeSats distributable allocatedSats : ℤ) :
    OrderedMap String ℤ → RewardCall
  | [] => .insertAccounting blockRewardSats feeSats (distributable - allocatedSats)
  | (address, amount) :: rest =>
    if amount ≤ 0 then nextCredit blockHeight blockRewardSats feeSats distributable allocatedSats rest
    else .credit blockHeight blockRewardSats feeSats distributable allocatedSats address amount rest

/-- What follows the window query. -/
def splitReward (settings : Settings) (shares : List PplnsShareEntity) (blockHeight : ℤ)
    (blockRewardSats : ℕ) : RewardCall :=
  let total := totalDifficulty shares
  if total ≤ 0 then .insertAccounting blockRewardSats 0 blockRewardSats
  else
    let distributable := distributableSats settings blockRewardSats
    nextCredit blockHeight blockRewardSats (blockRewardSats - distributable) distributable 0
      (perMinerTotals distributable total shares)

def resume (settings : Settings) (s : PplnsState) : RewardCall → Answer → Option (PplnsState × RewardCall)
  | .shares blockHeight reward windowStart, .executed =>
    some (s, splitReward settings (getSharesInWindow s.shares windowStart) blockHeight reward)
  | .credit blockHeight reward fee distributable allocated address amount rest, .executed =>
    some ({ s with ledger := s.ledger.credit address amount blockHeight },
      nextCredit blockHeight reward fee distributable (allocated + amount) rest)
  | .insertAccounting reward fee dust, .executed =>
    some ({ s with accounting := some (insertSingleton s.accounting) }, .updateAccounting reward fee dust)
  | .updateAccounting reward fee dust, .executed =>
    some ({ s with accounting := s.accounting.map (addToAccounting fee dust) }, .returned reward)
  | .returned _, _ | .rejected _ _, _ => none
  | call, .dbError => some (s, .rejected call.blockRewardSats call.unwritten)
  | _, _ => none

section
variable {blockHeight fee distributable allocated : ℤ} {reward : ℕ}

@[simp] theorem blockRewardSats_nextCredit (totals : OrderedMap String ℤ) :
    (nextCredit blockHeight reward fee distributable allocated totals).blockRewardSats = reward := by
  induction totals with
  | nil => rfl
  | cons entry rest ih =>
    simp only [nextCredit]
    split
    · exact ih
    · rfl

@[simp] theorem unwritten_nextCredit (totals : OrderedMap String ℤ) :
    (nextCredit blockHeight reward fee distributable allocated totals).unwritten =
      fee + (distributable - allocated) := by
  induction totals with
  | nil => rfl
  | cons entry rest ih =>
    simp only [nextCredit]
    split
    · exact ih
    · rfl

end

@[simp] theorem blockRewardSats_splitReward (settings : Settings) (shares : List PplnsShareEntity) (h : ℤ)
    (reward : ℕ) : (splitReward settings shares h reward).blockRewardSats = reward := by
  simp only [splitReward]
  split
  · rfl
  · exact blockRewardSats_nextCredit _

/-- The split neither loses nor invents a lep, whatever the rounding does. -/
@[simp] theorem unwritten_splitReward (settings : Settings) (shares : List PplnsShareEntity) (h : ℤ)
    (reward : ℕ) : (splitReward settings shares h reward).unwritten = reward := by
  simp only [splitReward]
  split
  · simp [unwritten]
  · rw [unwritten_nextCredit]
    ring

end RewardCall

/-! ## Bounds of the split -/

section Bounds
variable (settings : Settings) (reward : ℕ)

theorem distributableSats_nonneg : 0 ≤ distributableSats settings reward := by
  have fee := settings.fee_lt
  exact Int.floor_nonneg.mpr (mul_nonneg (Nat.cast_nonneg _) (by linarith))

theorem distributableSats_le : distributableSats settings reward ≤ reward := by
  have fee := settings.fee_nonneg
  have bound : (reward : ℚ) * (1 - settings.feePercent / 100) ≤ reward :=
    mul_le_of_le_one_right (Nat.cast_nonneg _) (by linarith)
  exact_mod_cast (Int.floor_le _).trans bound

variable {shares : List PplnsShareEntity} {distributable : ℤ} {total : ℚ}

/-- The entries of some miners add up to what their shares earn. -/
theorem sum_filter_perMinerTotals (keep : String → Bool) :
    (((perMinerTotals distributable total shares).filter fun e => keep e.1).map Prod.snd).sum =
      ((shares.filter fun share => keep share.minerAddress).map (shareAmount distributable total)).sum := by
  have folded : ∀ totals : OrderedMap String ℤ,
      (((shares.foldl (fun totals share => OrderedMap.setWith share.minerAddress
        (fun old => old.getD 0 + shareAmount distributable total share) totals) totals).filter fun e => keep e.1).map
          Prod.snd).sum =
      ((totals.filter fun e => keep e.1).map Prod.snd).sum +
        ((shares.filter fun share => keep share.minerAddress).map (shareAmount distributable total)).sum := by
    induction shares with
    | nil => simp
    | cons share rest ih =>
      intro totals
      rw [List.foldl_cons, ih, OrderedMap.sum_filter_setWith_add, List.filter_cons]
      split
      · rw [List.map_cons, List.sum_cons]
        ring
      · ring
  simpa [perMinerTotals] using folded []

theorem sum_perMinerTotals :
    ((perMinerTotals distributable total shares).map Prod.snd).sum =
      (shares.map (shareAmount distributable total)).sum := by
  have all : (((perMinerTotals distributable total shares).filter fun _ => true).map Prod.snd).sum =
      ((shares.filter fun _ => true).map (shareAmount distributable total)).sum := sum_filter_perMinerTotals fun _ => true
  simpa using all

/-- Rounding down each share never hands out more than there is. -/
theorem sum_shareAmount_le (distributable : ℤ) (positive : 0 < totalDifficulty shares) :
    (shares.map (shareAmount distributable (totalDifficulty shares))).sum ≤ distributable := by
  have each : ∀ (ss : List PplnsShareEntity) (total : ℚ),
      (((ss.map (shareAmount distributable total)).sum : ℤ) : ℚ) ≤ distributable * (totalDifficulty ss / total) := by
    intro ss total
    induction ss with
    | nil => simp [totalDifficulty]
    | cons share rest ih =>
      have head := Int.floor_le ((distributable : ℚ) * (share.difficulty / total))
      simp only [List.map_cons, List.sum_cons, Int.cast_add, totalDifficulty] at ih ⊢
      calc _ ≤ (distributable : ℚ) * (share.difficulty / total) +
            distributable * ((rest.map (·.difficulty)).sum / total) := add_le_add head ih
        _ = _ := by ring
  have whole := each shares (totalDifficulty shares)
  rw [div_self positive.ne', mul_one] at whole
  exact_mod_cast whole

theorem shareAmount_nonneg {share : PplnsShareEntity} (some_left : 0 ≤ distributable) (positive : 0 ≤ total)
    (difficulty : 0 ≤ share.difficulty) : 0 ≤ shareAmount distributable total share :=
  Int.floor_nonneg.mpr (mul_nonneg (by exact_mod_cast some_left) (div_nonneg difficulty positive))

end Bounds

end ElektronPool.Pplns
