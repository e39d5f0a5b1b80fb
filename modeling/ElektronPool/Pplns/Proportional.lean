import ElektronPool.Arithmetic.Rounding
import ElektronPool.Pplns.Conservation

/-!
# How close the split comes to the work

The exact part of a miner with work `w` is `D * w / T`. The split rounds every share down
before it adds up the shares of a miner, so a miner loses the fractional parts of all of its
shares and not of its sum: it is credited its part to within one lep exactly if these add up
to less than one.
-/

namespace ElektronPool.Pplns
set_option autoImplicit false
open Async

def sharesOf (shares : List PplnsShareEntity) (miner : String) : List PplnsShareEntity :=
  shares.filter fun share => share.minerAddress = miner

/-- The distinct miners of a window. -/
def miners (shares : List PplnsShareEntity) : Finset String := (shares.map (·.minerAddress)).toFinset

/-- What the work of some shares earns, not rounded. -/
def exactAmount (distributable : ℤ) (total : ℚ) (shares : List PplnsShareEntity) : ℚ :=
  distributable * totalDifficulty shares / total

/-- What rounding each of the shares takes away. -/
def roundedAway (distributable : ℤ) (total : ℚ) (shares : List PplnsShareEntity) : ℚ :=
  (shares.map fun share => Int.fract ((distributable : ℚ) * (share.difficulty / total))).sum

/-- Every miner of the window is credited its part rounded down, at most one lep short, and less
than one lep for each miner is dust. -/
structure Proportional (distributable : ℤ) (shares : List PplnsShareEntity) (credits : List PayoutLedgerEntity)
    (dust : ℤ) : Prop where
  above : ∀ miner ∈ miners shares,
    exactAmount distributable (totalDifficulty shares) (sharesOf shares miner) - 1 < sumSats (minerGroup credits miner)
  below : ∀ miner ∈ miners shares, (sumSats (minerGroup credits miner) : ℚ) ≤
    exactAmount distributable (totalDifficulty shares) (sharesOf shares miner)
  dust : dust < (miners shares).card

section
variable {settings : Settings} {shares : List PplnsShareEntity} {credits : List PayoutLedgerEntity}
  {distributable fee dust : ℤ} {total : ℚ} {reward : ℕ} {miner : String}

theorem sum_exact (distributable : ℤ) (total : ℚ) (shares : List PplnsShareEntity) :
    (shares.map fun share => (distributable : ℚ) * (share.difficulty / total)).sum = exactAmount distributable total shares := by
  unfold exactAmount totalDifficulty
  induction shares with
  | nil => simp
  | cons share rest ih =>
    rw [List.map_cons, List.sum_cons, ih, List.map_cons, List.sum_cons]
    ring

/-- Entries of nothing add nothing. -/
theorem sum_filter_pos {totals : Js.OrderedMap String ℤ} (nonneg : ∀ e ∈ totals, 0 ≤ e.2) (keep : String → Bool) :
    (((totals.filter fun e => 0 < e.2).filter fun e => keep e.1).map Prod.snd).sum =
      ((totals.filter fun e => keep e.1).map Prod.snd).sum := by
  induction totals with
  | nil => rfl
  | cons entry rest ih =>
    have tail := ih fun e member => nonneg e (List.mem_cons_of_mem _ member)
    have head := nonneg entry List.mem_cons_self
    by_cases positive : 0 < entry.2
    · cases kept : keep entry.1 <;> simp [-List.filter_filter, positive, kept, tail]
    · have zero : entry.2 = 0 := by omega
      cases kept : keep entry.1 <;> simp [-List.filter_filter, zero, kept, tail]

/-- What a miner is credited is what its shares earn, each rounded down. -/
theorem sumSats_minerGroup_credits (difficulties : ∀ share ∈ shares, 0 < share.difficulty)
    (some_left : 0 ≤ distributable) (positive : 0 < total)
    (entries : credits.map (fun r => (r.minerAddress, r.amountSats)) =
      (perMinerTotals distributable total shares).filter fun e => 0 < e.2) :
    sumSats (minerGroup credits miner) = ((sharesOf shares miner).map (shareAmount distributable total)).sum := by
  have nonneg := perMinerTotals_nonneg some_left positive.le fun share member => (difficulties share member).le
  calc sumSats (minerGroup credits miner) =
      (((credits.map fun r => (r.minerAddress, r.amountSats)).filter fun e => e.1 = miner).map Prod.snd).sum := by
        rw [List.filter_map, List.map_map]
        rfl
    _ = (((perMinerTotals distributable total shares).filter fun e => e.1 = miner).map Prod.snd).sum := by
        rw [entries, sum_filter_pos nonneg fun m => m = miner]
    _ = _ := sum_filter_perMinerTotals fun m => m = miner

theorem totalDifficulty_pos (difficulties : ∀ share ∈ shares, 0 < share.difficulty) (some_share : shares ≠ []) :
    0 < totalDifficulty shares :=
  List.sum_pos _ (fun x member => by
    obtain ⟨share, inShares, rfl⟩ := List.mem_map.mp member
    exact difficulties share inShares) (by simpa using some_share)

/-- A miner's credit is within one lep exactly if rounding takes less than one from its shares. -/
theorem within_one_iff (difficulties : ∀ share ∈ shares, 0 < share.difficulty) (some_left : 0 ≤ distributable)
    (positive : 0 < total) (entries : credits.map (fun r => (r.minerAddress, r.amountSats)) =
      (perMinerTotals distributable total shares).filter fun e => 0 < e.2) :
    (exactAmount distributable total (sharesOf shares miner) - 1 < sumSats (minerGroup credits miner) ∧
      (sumSats (minerGroup credits miner) : ℚ) ≤ exactAmount distributable total (sharesOf shares miner)) ↔
      roundedAway distributable total (sharesOf shares miner) < 1 := by
  rw [sumSats_minerGroup_credits difficulties some_left positive entries, ← sum_exact]
  exact Rounding.floors_within_one_iff

/-- The dust of a window whose miners all lose less than one lep. -/
theorem dust_lt_card (difficulties : ∀ share ∈ shares, 0 < share.difficulty) (some_share : shares ≠ [])
    (each : ∀ miner ∈ miners shares, roundedAway distributable (totalDifficulty shares) (sharesOf shares miner) < 1)
    (sum : sumSats credits = (shares.map (shareAmount distributable (totalDifficulty shares))).sum) :
    distributable - sumSats credits < (miners shares).card := by
  have positive := totalDifficulty_pos difficulties some_share
  have nonempty : (miners shares).Nonempty := by
    obtain ⟨share, member⟩ := List.exists_mem_of_ne_nil shares some_share
    exact ⟨share.minerAddress, List.mem_toFinset.mpr (List.mem_map_of_mem member)⟩
  have covers : ∀ share ∈ shares, share.minerAddress ∈ miners shares := fun share member =>
    List.mem_toFinset.mpr (List.mem_map_of_mem member)
  have lost := Rounding.lost_lt_card nonempty covers each
  have whole : exactAmount distributable (totalDifficulty shares) shares = distributable := by
    rw [exactAmount, mul_div_assoc, div_self positive.ne', mul_one]
  rw [sum_exact, whole] at lost
  rw [sum]
  exact_mod_cast lost

theorem proportional_iff (difficulties : ∀ share ∈ shares, 0 < share.difficulty)
    (split : Split settings shares reward credits fee dust) :
    Proportional (distributableSats settings reward) shares credits dust ↔ shares ≠ [] ∧ ∀ miner ∈ miners shares,
      roundedAway (distributableSats settings reward) (totalDifficulty shares) (sharesOf shares miner) < 1 := by
  have some_left := distributableSats_nonneg settings reward
  cases split with
  | unshared zero =>
    have empty : shares = [] := by
      by_contra some_share
      have := totalDifficulty_pos difficulties some_share
      linarith
    subst empty
    constructor
    · intro proportional
      have none := proportional.dust
      simp [miners] at none
      omega
    · exact fun both => absurd rfl both.1
  | shared positive entries sum =>
    constructor
    · intro proportional
      refine ⟨?_, fun miner member => ?_⟩
      · rintro rfl
        simp [totalDifficulty] at positive
      · exact (within_one_iff difficulties some_left positive entries).mp
          ⟨proportional.above miner member, proportional.below miner member⟩
    · rintro ⟨some_share, each⟩
      have within := fun miner member => (within_one_iff difficulties some_left positive entries).mpr (each miner member)
      exact ⟨fun miner member => (within miner member).1, fun miner member => (within miner member).2,
        dust_lt_card difficulties some_share each sum⟩

end

/-- **The split is proportional** exactly if there are shares and rounding takes less than one lep
from the shares of each miner. -/
theorem proportional_iff_roundedAway (settings : Settings) (s : PplnsState) (nowMs height : ℤ) (reward : ℕ)
    (difficulties : ∀ share ∈ getSharesInWindow s.shares (nowMs - settings.windowMinutes * 60 * 1000),
      0 < share.difficulty) :
    ∃ n s', drive (RewardCall.resume settings) s (RewardCall.processBlockFound settings nowMs height reward)
        (List.replicate n .executed) = some (s', .returned reward) ∧
      ∃ credits fee dust, Wrote s s' credits fee dust ∧
        let window := getSharesInWindow s.shares (nowMs - settings.windowMinutes * 60 * 1000)
        (Proportional (distributableSats settings reward) window credits dust ↔ window ≠ [] ∧ ∀ miner ∈ miners window,
          roundedAway (distributableSats settings reward) (totalDifficulty window) (sharesOf window miner) < 1) := by
  obtain ⟨n, s', run, credits, fee, dust, wrote, split⟩ := drive_split settings s nowMs height reward difficulties
  exact ⟨n, s', run, credits, fee, dust, wrote, proportional_iff difficulties split⟩

/-- Two miners with one share each. -/
theorem proportional_iff_roundedAway_two_miners : ∃ n s' credits fee dust,
    drive (RewardCall.resume .defaults) ⟨[⟨"a", 3, 0, 7⟩, ⟨"b", 1, 0, 7⟩], .empty, none, []⟩
      (RewardCall.processBlockFound .defaults 0 7 1001) (List.replicate n .executed) = some (s', .returned 1001) ∧
    Wrote ⟨[⟨"a", 3, 0, 7⟩, ⟨"b", 1, 0, 7⟩], .empty, none, []⟩ s' credits fee dust ∧
    Proportional 1001 [⟨"a", 3, 0, 7⟩, ⟨"b", 1, 0, 7⟩] credits dust := by
  obtain ⟨n, s', run, credits, fee, dust, wrote, holds⟩ := proportional_iff_roundedAway .defaults
    ⟨[⟨"a", 3, 0, 7⟩, ⟨"b", 1, 0, 7⟩], .empty, none, []⟩ 0 7 1001 (by decide +kernel)
  have window : getSharesInWindow [⟨"a", 3, 0, 7⟩, ⟨"b", 1, 0, 7⟩] (0 - Settings.defaults.windowMinutes * 60 * 1000) =
      [⟨"a", 3, 0, 7⟩, ⟨"b", 1, 0, 7⟩] := by decide +kernel
  have distributable : distributableSats .defaults 1001 = 1001 := by decide +kernel
  simp only [window, distributable] at holds
  exact ⟨n, s', credits, fee, dust, run, wrote, holds.mpr (by decide +kernel)⟩

/-- A share log with three equal shares of one miner. -/
def threeShares : PplnsState := ⟨[⟨"a", 1, 0, 7⟩, ⟨"a", 1, 0, 7⟩, ⟨"a", 1, 0, 7⟩], .empty, none, []⟩

/-- Each of the three shares loses two thirds of a lep, and the miner is two leps short of the
whole reward. -/
theorem not_proportional_three_shares : ¬ ∀ (settings : Settings) (s : PplnsState) (nowMs height : ℤ) (reward : ℕ),
    (∀ share ∈ getSharesInWindow s.shares (nowMs - settings.windowMinutes * 60 * 1000), 0 < share.difficulty) →
    ∀ n s' credits fee dust, drive (RewardCall.resume settings) s
        (RewardCall.processBlockFound settings nowMs height reward) (List.replicate n .executed) =
        some (s', .returned reward) → Wrote s s' credits fee dust →
      Proportional (distributableSats settings reward)
        (getSharesInWindow s.shares (nowMs - settings.windowMinutes * 60 * 1000)) credits dust := by
  intro claim
  have window : getSharesInWindow threeShares.shares (0 - Settings.defaults.windowMinutes * 60 * 1000) =
      threeShares.shares := by decide +kernel
  have difficulties : ∀ share ∈ getSharesInWindow threeShares.shares (0 - Settings.defaults.windowMinutes * 60 * 1000),
      0 < share.difficulty := by decide +kernel
  obtain ⟨n, s', run, credits, fee, dust, wrote, split⟩ := drive_split .defaults threeShares 0 7 5000000000 difficulties
  have proportional := claim .defaults threeShares 0 7 5000000000 difficulties n s' credits fee dust run wrote
  have each := ((proportional_iff difficulties split).mp proportional).2
  rw [window] at each
  exact absurd (each "a" (by decide +kernel)) (by decide +kernel)

end ElektronPool.Pplns
