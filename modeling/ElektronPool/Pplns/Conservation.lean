import ElektronPool.Pplns.PayoutScheduler

/-!
# Every lep of a block reward is on the books

One call alone writes the whole reward as credits, fee and dust (`Wrote`). For the calls
of all PPLNS services together, in any order of their awaits, `recorded` grows by exactly
what the reward calls have written: `RewardCall.unwritten` is the part each still owes.
-/

namespace ElektronPool.Pplns
set_option autoImplicit false
open Async

/-! ## One call -/

/-- What a call has written between `s` and `s'`. -/
structure Wrote (s s' : PplnsState) (credits : List PayoutLedgerEntity) (feeSats dustSats : ℤ) : Prop where
  ledger : s'.ledger.rows = s.ledger.rows ++ credits
  positive : ∀ r ∈ credits, 0 < r.amountSats
  fee : s'.totalFeeSats = s.totalFeeSats + feeSats
  dust : s'.totalDustSats = s.totalDustSats + dustSats

/-- `addFeeAndDust`, run to its end. -/
theorem drive_addFeeAndDust (settings : Settings) (s : PplnsState) (reward : ℕ) (fee dust : ℤ) :
    ∃ s', drive (RewardCall.resume settings) s (.insertAccounting reward fee dust) (List.replicate 2 .executed) =
      some (s', .returned reward) ∧ Wrote s s' [] fee dust := by
  refine ⟨_, rfl, ⟨by simp, by simp, ?_, ?_⟩⟩
  · cases h : s.accounting <;> simp [PplnsState.totalFeeSats, h, insertSingleton, addToAccounting]
  · cases h : s.accounting <;> simp [PplnsState.totalDustSats, h, insertSingleton, addToAccounting]

section Loop
variable (settings : Settings) (height fee distributable : ℤ) (reward : ℕ)

/-- The credit loop inserts one row for each positive entry, then leaves the rest to dust. -/
theorem drive_nextCredit (totals : Js.OrderedMap String ℤ) (nonneg : ∀ e ∈ totals, 0 ≤ e.2) :
    ∀ (s : PplnsState) (allocated : ℤ), ∃ n s', drive (RewardCall.resume settings) s
        (RewardCall.nextCredit height reward fee distributable allocated totals) (List.replicate n .executed) =
        some (s', .returned reward) ∧
      ∃ credits, Wrote s s' credits fee (distributable - allocated - (totals.map Prod.snd).sum) ∧
        sumSats credits = (totals.map Prod.snd).sum ∧
        credits.map (fun r => (r.minerAddress, r.amountSats)) = totals.filter fun e => 0 < e.2 := by
  induction totals with
  | nil =>
    intro s allocated
    obtain ⟨s', run, wrote⟩ := drive_addFeeAndDust settings s reward fee (distributable - allocated)
    exact ⟨2, s', run, [], by simpa using wrote, rfl, rfl⟩
  | cons entry rest ih =>
    obtain ⟨address, amount⟩ := entry
    have restNonneg : ∀ e ∈ rest, 0 ≤ e.2 := fun e member => nonneg e (List.mem_cons_of_mem _ member)
    have amountNonneg : 0 ≤ amount := nonneg _ List.mem_cons_self
    intro s allocated
    by_cases zero : amount ≤ 0
    · -- a zero entry is skipped, and adds nothing to the sum either
      obtain rfl : amount = 0 := le_antisymm zero amountNonneg
      obtain ⟨n, s', run, credits, wrote, sum, entries⟩ := ih restNonneg s allocated
      exact ⟨n, s', by simpa [RewardCall.nextCredit] using run, credits, by simpa using wrote, by simpa using sum,
        by simpa using entries⟩
    · have positive : 0 < amount := not_le.mp zero
      obtain ⟨n, s', run, credits, wrote, sum, entries⟩ :=
        ih restNonneg { s with ledger := s.ledger.credit address amount height } (allocated + amount)
      refine ⟨n + 1, s', ?_, ⟨s.ledger.rows.length + 1, address, height, amount, .pending, none⟩ :: credits,
        ⟨?_, ?_, wrote.fee, ?_⟩, ?_, ?_⟩
      · simp only [RewardCall.nextCredit, if_neg zero, List.replicate_succ]
        exact run
      · rw [wrote.ledger, PayoutLedger.rows_credit_of_pos positive, List.append_assoc]
        rfl
      · intro r member
        rcases List.mem_cons.mp member with rfl | later
        · exact positive
        · exact wrote.positive r later
      · rw [wrote.dust, List.map_cons, List.sum_cons]
        simp only [PplnsState.totalDustSats]
        ring
      · simp [sum]
      · simp [entries, positive]

end Loop

theorem perMinerTotals_nonneg {distributable : ℤ} {total : ℚ} {shares : List PplnsShareEntity}
    (some_left : 0 ≤ distributable) (positive : 0 ≤ total) (difficulties : ∀ s ∈ shares, 0 ≤ s.difficulty) :
    ∀ e ∈ perMinerTotals distributable total shares, 0 ≤ e.2 := by
  have folded : ∀ totals : Js.OrderedMap String ℤ, (∀ e ∈ totals, 0 ≤ e.2) →
      ∀ e ∈ shares.foldl (fun totals share => Js.OrderedMap.setWith share.minerAddress
        (fun old => old.getD 0 + shareAmount distributable total share) totals) totals, 0 ≤ e.2 := by
    induction shares with
    | nil => exact fun _ nonneg => nonneg
    | cons share rest ih =>
      intro totals nonneg
      refine ih (fun s member => difficulties s (List.mem_cons_of_mem _ member)) _ fun e member => ?_
      have amount := shareAmount_nonneg some_left positive (difficulties share List.mem_cons_self)
      rcases Js.OrderedMap.mem_setWith member with old | ⟨previous, was, now⟩
      · exact nonneg e old
      · rw [now]
        cases previous with
        | none => simpa using amount
        | some v =>
          have := nonneg _ (was v rfl)
          simpa using add_nonneg this amount
  exact folded [] (by simp)

/-- What a call writes that runs to its end: the reward goes to the books if nobody has a share,
and else to those whose shares earn anything. -/
inductive Split (settings : Settings) (shares : List PplnsShareEntity) (reward : ℕ) :
    List PayoutLedgerEntity → ℤ → ℤ → Prop
  | unshared : totalDifficulty shares ≤ 0 → Split settings shares reward [] 0 reward
  | shared {credits : List PayoutLedgerEntity} : 0 < totalDifficulty shares →
      credits.map (fun r => (r.minerAddress, r.amountSats)) =
        ((perMinerTotals (distributableSats settings reward) (totalDifficulty shares) shares).filter fun e => 0 < e.2) →
      sumSats credits = (shares.map (shareAmount (distributableSats settings reward) (totalDifficulty shares))).sum →
      Split settings shares reward credits (reward - distributableSats settings reward)
        (distributableSats settings reward - sumSats credits)

/-- A call whose statements all run splits the reward over the shares of the window. -/
theorem drive_split (settings : Settings) (s : PplnsState) (nowMs height : ℤ) (reward : ℕ)
    (difficulties : ∀ share ∈ getSharesInWindow s.shares (nowMs - settings.windowMinutes * 60 * 1000),
      0 < share.difficulty) :
    ∃ n s', drive (RewardCall.resume settings) s (RewardCall.processBlockFound settings nowMs height reward)
        (List.replicate n .executed) = some (s', .returned reward) ∧
      ∃ credits fee dust, Wrote s s' credits fee dust ∧
        Split settings (getSharesInWindow s.shares (nowMs - settings.windowMinutes * 60 * 1000)) reward credits fee dust := by
  set window := getSharesInWindow s.shares (nowMs - settings.windowMinutes * 60 * 1000) with hwindow
  by_cases zero : totalDifficulty window ≤ 0
  · obtain ⟨s', run, wrote⟩ := drive_addFeeAndDust settings s reward 0 reward
    refine ⟨3, s', ?_, [], 0, reward, wrote, .unshared zero⟩
    simpa [drive, RewardCall.processBlockFound, RewardCall.resume, RewardCall.splitReward, ← hwindow, zero] using run
  · have positive : 0 < totalDifficulty window := not_le.mp zero
    obtain ⟨n, s', run, credits, wrote, sum, entries⟩ := drive_nextCredit settings height
      (reward - distributableSats settings reward) (distributableSats settings reward) reward
      (perMinerTotals (distributableSats settings reward) (totalDifficulty window) window)
      (perMinerTotals_nonneg (distributableSats_nonneg ..) positive.le fun share member => (difficulties share member).le) s 0
    rw [← sum, sub_zero] at wrote
    rw [sum_perMinerTotals] at sum
    refine ⟨n + 1, s', ?_, credits, _, _, wrote, .shared positive entries sum⟩
    simpa [List.replicate_succ, drive, RewardCall.processBlockFound, RewardCall.resume, RewardCall.splitReward,
      ← hwindow, zero] using run

/-- A call whose statements all run writes the reward in full, whatever the window holds. -/
theorem drive_processBlockFound (settings : Settings) (s : PplnsState) (nowMs height : ℤ) (reward : ℕ)
    (difficulties : ∀ share ∈ getSharesInWindow s.shares (nowMs - settings.windowMinutes * 60 * 1000),
      0 < share.difficulty) :
    ∃ n s', drive (RewardCall.resume settings) s (RewardCall.processBlockFound settings nowMs height reward)
        (List.replicate n .executed) = some (s', .returned reward) ∧
      ∃ credits fee dust, Wrote s s' credits fee dust ∧ 0 ≤ fee ∧ 0 ≤ dust ∧
        sumSats credits + fee + dust = reward := by
  obtain ⟨n, s', run, credits, fee, dust, wrote, split⟩ := drive_split settings s nowMs height reward difficulties
  refine ⟨n, s', run, credits, fee, dust, wrote, ?_⟩
  cases split with
  | unshared => exact ⟨le_refl 0, by positivity, by simp⟩
  | shared positive entries sum =>
    have total := sum_shareAmount_le (distributableSats settings reward) positive
    have distributable := distributableSats_le settings reward
    exact ⟨by omega, by omega, by ring⟩

/-! ## All calls at once -/

/-- What a call relies on where it stands. -/
def RewardCall.Ready (s : PplnsState) : RewardCall → Prop
  | .credit _ _ _ _ _ _ amount _ => 0 < amount
  | .updateAccounting .. => s.accounting.isSome
  | _ => True

theorem RewardCall.ready_nextCredit (s : PplnsState) (height : ℤ) (reward : ℕ) (fee distributable allocated : ℤ)
    (totals : Js.OrderedMap String ℤ) :
    (nextCredit height reward fee distributable allocated totals).Ready s := by
  induction totals with
  | nil => trivial
  | cons entry rest ih =>
    simp only [nextCredit]
    split
    · exact ih
    · exact not_le.mp ‹_›

theorem RewardCall.ready_splitReward (settings : Settings) (s : PplnsState) (shares : List PplnsShareEntity)
    (height : ℤ) (reward : ℕ) : (splitReward settings shares height reward).Ready s := by
  simp only [splitReward]
  split
  · trivial
  · exact ready_nextCredit ..

/-- What one resumption of a reward call does to the books. -/
structure RewardCall.Moves (s s' : PplnsState) (t t' : RewardCall) : Prop where
  recorded : s'.recorded + t'.unwritten = s.recorded + t.unwritten
  reward : t'.blockRewardSats = t.blockRewardSats
  ready : t'.Ready s'
  accounting : s.accounting.isSome → s'.accounting.isSome

theorem RewardCall.moves {settings : Settings} {s s' : PplnsState} {t t' : RewardCall} {a : Answer}
    (ready : t.Ready s) (resumed : t.resume settings s a = some (s', t')) : Moves s s' t t' := by
  unfold RewardCall.resume at resumed
  split at resumed <;> cases resumed
  · refine ⟨?_, blockRewardSats_splitReward .., ready_splitReward .., id⟩
    rw [unwritten_splitReward]
    rfl
  · refine ⟨?_, blockRewardSats_nextCredit .., ready_nextCredit .., id⟩
    rw [unwritten_nextCredit]
    simp only [PplnsState.recorded, PplnsState.totalFeeSats, PplnsState.totalDustSats,
      PayoutLedger.rows_credit_of_pos ready, sumSats_append, sumSats_cons, sumSats_nil, unwritten]
    ring
  · refine ⟨?_, rfl, rfl, fun _ => rfl⟩
    cases h : s.accounting <;>
      simp [PplnsState.recorded, PplnsState.totalFeeSats, PplnsState.totalDustSats, h, insertSingleton, unwritten]
  · obtain ⟨row, present⟩ := Option.isSome_iff_exists.mp ready
    refine ⟨?_, rfl, trivial, fun _ => by simp [present]⟩
    simp only [PplnsState.recorded, PplnsState.totalFeeSats, PplnsState.totalDustSats, present, Option.map_some,
      Option.getD_some, addToAccounting, unwritten]
    ring
  · exact ⟨rfl, rfl, trivial, id⟩

theorem LeavesCredits.recorded {s s' : PplnsState} (leaves : LeavesCredits s s') : s'.recorded = s.recorded := by
  obtain ⟨f, keeps, ledger⟩ := leaves.ledger
  simp only [PplnsState.recorded, PplnsState.totalFeeSats, PplnsState.totalDustSats, leaves.accounting, ledger,
    PayoutLedger.sumSats_update]

namespace Call

def Ready (s : PplnsState) : Call → Prop
  | .reward call => call.Ready s
  | _ => True

/-- The reward a call was made for; no other call brings one. -/
def blockRewardSats : Call → ℕ
  | .reward call => call.blockRewardSats
  | _ => 0

/-- The books less what still has to be written: zero for a call that begins. -/
def owed : Call → ℤ
  | .reward call => call.unwritten - call.blockRewardSats
  | _ => 0

/-- A reward call has returned. -/
def RewardDone : Call → Prop
  | .reward call => call = .returned call.blockRewardSats
  | _ => True

instance : DecidablePred RewardDone
  | .reward call => inferInstanceAs (Decidable (call = .returned call.blockRewardSats))
  | .cycle _ | .reconcile _ | .record _ | .prune _ | .shareLogDone => .isTrue trivial

/-- Every resumption keeps the books balanced against what its call owes. -/
theorem balanced {settings : Settings} {s s' : PplnsState} {t t' : Call} {a : Answer} (ready : t.Ready s)
    (resumed : t.resume settings s a = some (s', t')) :
    s'.recorded + t'.owed = s.recorded + t.owed ∧ t'.Ready s' ∧ (s.accounting.isSome → s'.accounting.isSome) ∧
      t'.blockRewardSats = t.blockRewardSats := by
  cases resumed_of_resume resumed with
  | reward step =>
    have moves := RewardCall.moves ready step
    refine ⟨?_, moves.ready, moves.accounting, moves.reward⟩
    have := moves.recorded
    simp only [owed, moves.reward]
    omega
  | cycle step =>
    have leaves := PayoutCycle.leavesCredits step
    exact ⟨by simp [owed, leaves.recorded], trivial, by simp [leaves.accounting], rfl⟩
  | reconcile step =>
    have leaves := Reconciliation.leavesCredits step
    exact ⟨by simp [owed, leaves.recorded], trivial, by simp [leaves.accounting], rfl⟩
  | record | prune => exact ⟨rfl, trivial, id, rfl⟩

end Call

/-- Every reward call finds what it relies on. -/
def readiness : Outline PplnsState Call where
  shared _ := True
  call s t := t.Ready s
  pair _ _ _ := True
  symm _ _ _ _ := trivial

theorem readiness_other {s s' : PplnsState} (kept : s.accounting.isSome → s'.accounting.isSome) {u : Call}
    (ready : u.Ready s) : u.Ready s' := by
  cases u with
  | reward call =>
    cases call with
    | updateAccounting => exact kept ready
    | _ => exact ready
  | _ => trivial

/-- The books plus what the calls owe make up nothing but rewards, in every state reached. -/
def Balanced (p : Services) : Prop :=
  readiness.Holds p ∧ p.shared.recorded + (p.calls.map Call.owed).sum = 0

theorem balanced_step {settings : Settings} {p p' : Services} {e : ServiceEvent} (balanced : Balanced p)
    (moved : Services.step settings p e = some p') : Balanced p' := by
  obtain ⟨holds, sum⟩ := balanced
  have ready_entry : ∀ t, Call.isEntry t = true → t.Ready p.shared ∧ t.owed = 0 := by
    intro t entry
    unfold Call.isEntry at entry
    split at entry <;> simp_all [Call.Ready, RewardCall.Ready, Call.owed, RewardCall.unwritten, RewardCall.blockRewardSats]
  refine ⟨holds.step (fun t _ entry => ⟨(ready_entry t entry).1, fun _ _ => trivial⟩) ?_ moved, ?_⟩
  · intro before t after a s' t' _ _ resumed own others
    obtain ⟨-, ready, kept, -⟩ := Call.balanced own resumed
    exact ⟨trivial, ready, fun u member => readiness_other kept (others u member).1, fun _ _ => trivial,
      fun _ _ _ _ _ => trivial⟩
  · rw [← sum]
    exact Pool.sum_step (fun t entry => (ready_entry t entry).2)
      (fun t member _ a s' t' _ resumed => (Call.balanced (holds.calls t member) resumed).1) moved

theorem balanced_run {settings : Settings} {p : Services}
    (run : Reaches (Services.step settings) Always ⟨.empty, []⟩ p) : Balanced p :=
  run.invariant ⟨⟨trivial, by simp, .nil⟩, rfl⟩ fun _ _ _ balanced _ moved => balanced_step balanced moved

/-- Once every reward call has returned, nothing is owed. -/
theorem sum_owed {calls : List Call} (done : ∀ t ∈ calls, t.RewardDone) :
    (calls.map Call.owed).sum = -((calls.map Call.blockRewardSats).sum : ℤ) := by
  induction calls with
  | nil => rfl
  | cons t rest ih =>
    have head : t.owed = -(t.blockRewardSats : ℤ) := by
      have returned := done t List.mem_cons_self
      cases t with
      | reward call =>
        simp only [Call.owed, Call.blockRewardSats]
        rw [show call.unwritten = 0 by rw [returned]; rfl]
        ring
      | _ => rfl
    have tail := ih fun u member => done u (List.mem_cons_of_mem _ member)
    simp only [List.map_cons, List.sum_cons, head, tail, Nat.cast_add]
    ring

/-- **Rewards are conserved**: each call puts its whole reward on the books in non-negative
parts, and calls interleaved in any way put the sum of their rewards there. -/
theorem rewards_conserved :
    (∀ (settings : Settings) (s : PplnsState) (nowMs height : ℤ) (reward : ℕ),
      (∀ share ∈ getSharesInWindow s.shares (nowMs - settings.windowMinutes * 60 * 1000), 0 < share.difficulty) →
      ∃ n s', drive (RewardCall.resume settings) s (RewardCall.processBlockFound settings nowMs height reward)
          (List.replicate n .executed) = some (s', .returned reward) ∧
        ∃ credits fee dust, Wrote s s' credits fee dust ∧ 0 ≤ fee ∧ 0 ≤ dust ∧
          sumSats credits + fee + dust = reward) ∧
    ∀ (settings : Settings) (p : Services), Reaches (Services.step settings) Always ⟨.empty, []⟩ p →
      (∀ t ∈ p.calls, t.RewardDone) →
      sumSats p.shared.ledger.rows + p.shared.totalFeeSats + p.shared.totalDustSats =
        (p.calls.map Call.blockRewardSats).sum := by
  refine ⟨drive_processBlockFound, fun settings p run done => ?_⟩
  have sum := (balanced_run run).2
  rw [sum_owed done] at sum
  simp only [PplnsState.recorded] at sum
  omega

/-- Two miners share 1001 lep three to one: 750 and 250 are credited and one lep is dust. -/
theorem rewards_conserved_two_miners :
    (∃ n s', drive (RewardCall.resume .defaults) ⟨[⟨"a", 3, 0, 7⟩, ⟨"b", 1, 0, 7⟩], .empty, none, []⟩
        (RewardCall.processBlockFound .defaults 0 7 1001) (List.replicate n .executed) = some (s', .returned 1001) ∧
      ∃ credits fee dust, Wrote ⟨[⟨"a", 3, 0, 7⟩, ⟨"b", 1, 0, 7⟩], .empty, none, []⟩ s' credits fee dust ∧
        0 ≤ fee ∧ 0 ≤ dust ∧ sumSats credits + fee + dust = (1001 : ℕ)) ∧
    ∃ p, Reaches (Services.step .defaults) Always ⟨.empty, []⟩ p ∧
      sumSats p.shared.ledger.rows + p.shared.totalFeeSats + p.shared.totalDustSats = 1001 := by
  refine ⟨rewards_conserved.1 .defaults _ 0 7 1001 (by decide +kernel), ?_⟩
  obtain ⟨p, run, done, rewards⟩ := exists_reaches (Services.step .defaults) Always ⟨.empty, []⟩
    [.start (.record ⟨"a", 3, 0, 7⟩), .start (.record ⟨"b", 1, 0, 7⟩), .resume 0 .executed, .resume 1 .executed,
      .start (.reward (.processBlockFound .defaults 0 7 1001)), .resume 2 .executed, .resume 2 .executed,
      .resume 2 .executed, .resume 2 .executed, .resume 2 .executed]
    (fun p => (∀ t ∈ p.calls, t.RewardDone) ∧ (p.calls.map Call.blockRewardSats).sum = 1001) (by decide +kernel)
  refine ⟨p, run, (rewards_conserved.2 .defaults p run done).trans ?_⟩
  rw [rewards]
  rfl

end ElektronPool.Pplns
