import ElektronPool.Pplns.Conservation
import ElektronPool.Pplns.LedgerHistory
import ElektronPool.Pplns.Payments

/-!
# What the wallet holds and what the ledger owes

The wallet gains every block reward and loses the amounts and the network fee of every
batch; the ledger gains the credits and loses the amounts only. The difference is what the
pool kept of its rewards (fee, dust, and what a failed call never wrote) less the network
fees, so the wallet covers the PENDING credits as long as the fees are covered by what was
kept (`Covered`, `pending_le_holdings`).
-/

namespace ElektronPool.Pplns
set_option autoImplicit false
open Async Js

/-! ## Holdings -/

/-- What left the wallet with a transaction. -/
def WalletTransaction.spentSats (t : WalletTransaction) : ℤ := (t.amounts.map Prod.snd).sum + t.networkFeeSats

namespace PplnsState

def networkFeeSats (s : PplnsState) : ℤ := (s.transactions.map (·.networkFeeSats)).sum

/-- What the pool itself has kept so far. -/
def keptSats (s : PplnsState) : ℤ := s.totalFeeSats + s.totalDustSats

/-- PENDING rows that a transaction already pays: their UPDATE is still to come. -/
def unmarkedSats (s : PplnsState) : ℤ := sumSats (s.ledger.rows.filter fun r => r.status = .pending ∧ r.id ∈ s.paidIds)

end PplnsState

/-- Spendable and immature coins together: every block reward, less what left the wallet. Each
accepted block is one `processBlockFound` call. -/
def Services.holdings (p : Services) : ℤ :=
  (p.calls.map Call.blockRewardSats).sum - (p.shared.transactions.map WalletTransaction.spentSats).sum

/-- `RECONCILIATION_TOLERANCE_SATS`. -/
def reconciliationToleranceSats : ℤ := 100000

/-- `checkPoolWalletReconciliation`: it reports a mismatch. -/
def reconciliationMismatch (walletBalanceSats totalPendingSats : ℤ) : Prop :=
  walletBalanceSats + reconciliationToleranceSats < totalPendingSats

instance (walletBalanceSats totalPendingSats : ℤ) : Decidable (reconciliationMismatch walletBalanceSats totalPendingSats) :=
  inferInstanceAs (Decidable (_ < _))

/-! ## What a reward call keeps -/

/-- The entries that become credits. -/
def positiveSats (totals : OrderedMap String ℤ) : ℤ := (totals.map fun e => max e.2 0).sum

theorem positiveSats_nonneg (totals : OrderedMap String ℤ) : 0 ≤ positiveSats totals :=
  List.sum_nonneg fun _ member => by
    obtain ⟨e, -, rfl⟩ := List.mem_map.mp member
    exact le_max_right _ _

theorem positiveSats_eq {totals : OrderedMap String ℤ} (nonneg : ∀ e ∈ totals, 0 ≤ e.2) :
    positiveSats totals = (totals.map Prod.snd).sum := by
  rw [positiveSats]
  congr 1
  apply List.map_congr_left
  intro e member
  exact max_eq_left (nonneg e member)

namespace RewardCall

/-- The part of its reward that a call keeps from the miners and has not written yet. -/
def kept : RewardCall → ℤ
  | .shares .. | .returned _ => 0
  | .credit _ _ fee distributable allocated address amount rest =>
    fee + (distributable - allocated - positiveSats ((address, amount) :: rest))
  | .insertAccounting _ fee dust | .updateAccounting _ fee dust => fee + dust
  | .rejected _ unwritten => unwritten

theorem kept_nextCredit (height : ℤ) (reward : ℕ) (fee distributable allocated : ℤ) (totals : OrderedMap String ℤ) :
    (nextCredit height reward fee distributable allocated totals).kept =
      fee + (distributable - allocated - positiveSats totals) := by
  induction totals with
  | nil => simp [nextCredit, kept, positiveSats]
  | cons entry rest ih =>
    simp only [nextCredit]
    split
    · rename_i nonpositive
      rw [ih, positiveSats, positiveSats, List.map_cons, List.sum_cons, max_eq_right nonpositive, zero_add]
    · rfl

/-- The split of a window without negative difficulties never hands out more than the reward. -/
theorem kept_splitReward (settings : Settings) {shares : List PplnsShareEntity} (height : ℤ) (reward : ℕ)
    (nonneg : ∀ share ∈ shares, 0 ≤ share.difficulty) : 0 ≤ (splitReward settings shares height reward).kept := by
  simp only [splitReward]
  split
  · simp [kept]
  · have positive : 0 < totalDifficulty shares := not_le.mp ‹_›
    have handed := sum_shareAmount_le (distributableSats settings reward) positive
    have fee := distributableSats_le settings reward
    rw [kept_nextCredit, positiveSats_eq (perMinerTotals_nonneg (distributableSats_nonneg ..) positive.le nonneg),
      sum_perMinerTotals]
    omega

/-- What is kept is part of what is unwritten. -/
theorem kept_le_unwritten (t : RewardCall) : t.kept ≤ t.unwritten := by
  cases t with
  | shares _ reward _ => exact Int.natCast_nonneg reward
  | credit _ _ fee distributable allocated address amount rest =>
    have := positiveSats_nonneg ((address, amount) :: rest)
    show fee + (distributable - allocated - positiveSats ((address, amount) :: rest)) ≤ fee + (distributable - allocated)
    omega
  | _ => exact le_rfl

end RewardCall

namespace Call

def kept : Call → ℤ
  | .reward call => call.kept
  | _ => 0

theorem kept_entry {t : Call} (entry : t.isEntry = true) : t.kept = 0 := by
  unfold isEntry at entry
  split at entry
  any_goals rfl
  cases entry

theorem kept_le_owed (t : Call) : t.kept ≤ t.owed + t.blockRewardSats := by
  cases t with
  | reward call =>
    have := call.kept_le_unwritten
    simp only [kept, owed, blockRewardSats]
    omega
  | _ => exact le_rfl

end Call

/-- A resumption of a reward call moves what it keeps to the accounting, and may keep more. -/
theorem RewardCall.kept_resume {settings : Settings} {s s' : PplnsState} {t t' : RewardCall} {a : Answer}
    (ready : t.Ready s) (nonneg : a = .executed → ∀ share ∈ (Call.reward t).window s, 0 ≤ share.difficulty)
    (resumed : t.resume settings s a = some (s', t')) :
    s.keptSats + t.kept ≤ s'.keptSats + t'.kept ∧ s'.transactions = s.transactions := by
  unfold RewardCall.resume at resumed
  split at resumed <;> cases resumed
  · rename_i height reward _
    exact ⟨add_le_add_right (kept_splitReward settings height reward (nonneg rfl)) _, rfl⟩
  · refine ⟨?_, rfl⟩
    rename_i address amount rest
    have positive : max amount 0 = amount := max_eq_left (le_of_lt ready)
    rw [kept_nextCredit]
    simp only [PplnsState.keptSats, PplnsState.totalFeeSats, PplnsState.totalDustSats, kept, positiveSats,
      List.map_cons, List.sum_cons, positive]
    omega
  · refine ⟨le_of_eq ?_, rfl⟩
    cases h : s.accounting <;>
      simp [PplnsState.keptSats, PplnsState.totalFeeSats, PplnsState.totalDustSats, h, insertSingleton, kept]
  · obtain ⟨row, present⟩ := Option.isSome_iff_exists.mp ready
    refine ⟨le_of_eq ?_, rfl⟩
    simp only [PplnsState.keptSats, PplnsState.totalFeeSats, PplnsState.totalDustSats, present, Option.map_some,
      Option.getD_some, addToAccounting, kept]
    ring
  · exact ⟨add_le_add_right (kept_le_unwritten _) _, rfl⟩

/-! ## The condition -/

/-- The network fee of a `sendmany` that took effect. -/
def Answer.networkFee : Answer → Option ℤ
  | .sent _ fee => some fee
  | .lost _ fee _ => some fee
  | _ => none

/-- Rows are paid once, no block is split over a negative difficulty, and what the pool has kept
so far covers the network fees, the one of this batch included. -/
def Covered (s : PplnsState) (others : List Call) (t : Call) (a : Answer) : Prop :=
  Apart s others t a ∧ (a = .executed → ∀ share ∈ t.window s, 0 ≤ share.difficulty) ∧
    ∀ fee ∈ a.networkFee, s.networkFeeSats + fee ≤ s.keptSats + (others.map Call.kept).sum

instance (s : PplnsState) (others : List Call) (t : Call) (a : Answer) : Decidable (Covered s others t a) :=
  inferInstanceAs (Decidable (_ ∧ _ ∧ _))

/-- The invariant: what was kept covers the network fees, and a batch names a miner once. -/
structure FeesCovered (p : Services) : Prop where
  fees : p.shared.networkFeeSats ≤ p.shared.keptSats + (p.calls.map Call.kept).sum
  keys : ∀ t ∈ p.shared.transactions, (t.amounts.map Prod.fst).Nodup

theorem nodup_keys_sendManyAmounts (payouts : List PendingPayoutCandidate) :
    ((sendManyAmounts payouts).map Prod.fst).Nodup := by
  have folded : ∀ amounts : OrderedMap String ℤ, (amounts.map Prod.fst).Nodup →
      ((payouts.foldl (fun amounts p => OrderedMap.set amounts p.minerAddress p.totalPendingSats)
        amounts).map Prod.fst).Nodup := by
    induction payouts with
    | nil => exact fun _ nodup => nodup
    | cons p rest ih => exact fun amounts nodup => ih _ (OrderedMap.nodup_keys_setWith nodup)
  exact folded [] .nil

section
variable {settings : Settings} {p p' : Services} {e : ServiceEvent}

/-- What one resumption does to the fees and to what is kept. -/
theorem Call.kept_resume {s s' : PplnsState} {t t' : Call} {a : Answer} (ready : t.Ready s)
    (nonneg : a = .executed → ∀ share ∈ t.window s, 0 ≤ share.difficulty) (faithful : a.faithful = true)
    (resumed : t.resume settings s a = some (s', t')) :
    s.keptSats + t.kept ≤ s'.keptSats + t'.kept ∧
      (s'.transactions = s.transactions ∨
        ∃ cs txid fee, a = .sent txid fee ∧ t.kept = 0 ∧ s' = s.sendMany cs txid fee) := by
  have same_books : s'.accounting = s.accounting → t.kept = 0 → t'.kept = 0 →
      s.keptSats + t.kept ≤ s'.keptSats + t'.kept := by
    intro accounting none none'
    rw [none, none', PplnsState.keptSats, PplnsState.keptSats, PplnsState.totalFeeSats, PplnsState.totalDustSats,
      PplnsState.totalFeeSats, PplnsState.totalDustSats, accounting]
  cases Call.resumed_of_resume resumed with
  | reward step =>
    obtain ⟨kept, transactions⟩ := RewardCall.kept_resume ready nonneg step
    exact ⟨kept, .inl transactions⟩
  | cycle step =>
    refine ⟨same_books (PayoutCycle.leavesCredits step).accounting rfl rfl, ?_⟩
    cases PayoutCycle.paymentStep step with
    | quiet quiet => exact .inl quiet.transactions
    | pay => exact .inr ⟨_, _, _, rfl, rfl, rfl⟩
    | lost unfaithful => exact absurd faithful (by simp [unfaithful])
    | _ => exact .inl rfl
  | reconcile step =>
    exact ⟨same_books (Reconciliation.leavesCredits step).accounting rfl rfl, .inl (Reconciliation.later step).1⟩
  | record | prune => exact ⟨same_books rfl rfl rfl, .inl rfl⟩

/-- One event keeps the fees covered. -/
theorem feesCovered_step (balanced : Balanced p) (covered : FeesCovered p)
    (allowed : Pool.Allowed (fun _ _ => True) Covered p e) (moved : Services.step settings p e = some p') :
    FeesCovered p' := by
  obtain ⟨t, -, entry, rfl⟩ | ⟨before, t, after, a, s', t', rfl, calls, resumed, rfl⟩ := Pool.step_cases moved
  · refine ⟨?_, covered.keys⟩
    rw [List.map_append, List.sum_append, List.map_singleton, List.sum_singleton, Call.kept_entry entry, add_zero]
    exact covered.fees
  · obtain ⟨apart, nonneg, fee⟩ := allowed.continues calls
    have fees := covered.fees
    obtain ⟨kept, transactions | ⟨cs, txid, paid, rfl, nothing, rfl⟩⟩ :=
      Call.kept_resume (balanced.1.calls t (by simp [calls])) nonneg apart.1 resumed
    · refine ⟨?_, by rw [transactions]; exact covered.keys⟩
      rw [calls] at fees
      simp only [PplnsState.networkFeeSats, transactions, List.map_append, List.map_cons, List.sum_append,
        List.sum_cons] at fees ⊢
      omega
    · constructor
      · have enough := fee paid rfl
        simp only [PplnsState.networkFeeSats, PplnsState.sendMany, List.map_append, List.map_cons, List.sum_append,
          List.sum_cons, List.map_nil, List.sum_nil] at enough kept ⊢
        omega
      · intro tx member
        rcases List.mem_append.mp member with old | new
        · exact covered.keys tx old
        · rw [List.mem_singleton.mp new]
          exact nodup_keys_sendManyAmounts cs

/-- The amounts of a transaction are worth the rows it pays. -/
theorem Sound.sum_amounts {s : PplnsState} (sound : Sound s) {tx : WalletTransaction} (member : tx ∈ s.transactions)
    (keys : (tx.amounts.map Prod.fst).Nodup) :
    (tx.amounts.map Prod.snd).sum = sumSats (s.ledger.rows.filter fun r => r.id ∈ tx.rowIds) := by
  have own : ∀ m, sumSats (minerGroup (s.ledger.rows.filter fun r => r.id ∈ tx.rowIds) m) =
      (tx.amounts.get m).getD 0 := by
    intro m
    rw [sound.amounts tx member m, minerGroup, List.filter_filter, PayoutLedger.paidRows]
    simp only [Bool.decide_and]
  have entries : tx.amounts.map Prod.snd = (tx.amounts.map Prod.fst).map fun m => (tx.amounts.get m).getD 0 := by
    rw [List.map_map]
    apply List.map_congr_left
    rintro ⟨m, v⟩ entry
    show v = (tx.amounts.get m).getD 0
    rw [OrderedMap.get_of_mem keys entry, Option.getD_some]
  rw [entries, ← List.sum_toFinset _ keys, ← PayoutLedger.sum_minerGroup]
  · exact Finset.sum_congr rfl fun m _ => (own m).symm
  · -- a row of a miner the batch does not name would be worth nothing
    intro r paid
    obtain ⟨inRows, inIds⟩ := List.mem_filter.mp paid
    by_contra absent
    have nothing := sound.amounts tx member r.minerAddress
    rw [OrderedMap.get_eq_none fun named => absent (List.mem_toFinset.mpr named)] at nothing
    have none := (sumSats_filter_eq_zero s.ledger.positive).mp nothing.symm r inRows
    exact none (decide_eq_true ⟨rfl, of_decide_eq_true inIds⟩)

/-- What left the wallet: the rows that were paid, and the network fees. -/
theorem sum_spentSats {s : PplnsState} (sound : Sound s)
    (keys : ∀ tx ∈ s.transactions, (tx.amounts.map Prod.fst).Nodup) :
    (s.transactions.map WalletTransaction.spentSats).sum =
      sumSats (s.ledger.rows.filter fun r => r.id ∈ s.paidIds) + s.networkFeeSats := by
  have once : (s.transactions.map (·.rowIds)).flatten.Nodup := sound.once
  have amounts : s.transactions.map (fun tx => (tx.amounts.map Prod.snd).sum) =
      (s.transactions.map (·.rowIds)).map fun ids => sumSats (s.ledger.rows.filter fun r => r.id ∈ ids) := by
    rw [List.map_map]
    exact List.map_congr_left fun tx member => sound.sum_amounts member (keys tx member)
  show (s.transactions.map fun tx => (tx.amounts.map Prod.snd).sum + tx.networkFeeSats).sum = _
  rw [List.sum_map_add, amounts, sum_filter_ids _ once]
  rfl

/-- What is PENDING and not paid yet, and what was paid, are both on the ledger. -/
theorem pending_add_paid_le (s : PplnsState) :
    s.ledger.getTotalPendingAcrossAllMiners + sumSats (s.ledger.rows.filter fun r => r.id ∈ s.paidIds) ≤
      sumSats s.ledger.rows + s.unmarkedSats := by
  have unpaid : sumSats (s.ledger.rows.filter fun r => r.status = .pending ∧ r.id ∉ s.paidIds) + s.unmarkedSats =
      s.ledger.getTotalPendingAcrossAllMiners := by
    rw [PplnsState.unmarkedSats, sumSats_filter_add]
    · rw [PayoutLedger.getTotalPendingAcrossAllMiners, PayoutLedger.pendingRows]
      congr 1
      apply List.filter_congr
      intro r _
      by_cases paid : r.id ∈ s.paidIds <;> simp [paid]
    · intro r unpaid paid
      exact (of_decide_eq_true unpaid).2 (of_decide_eq_true paid).2
  have apart : sumSats (s.ledger.rows.filter fun r => r.status = .pending ∧ r.id ∉ s.paidIds) +
      sumSats (s.ledger.rows.filter fun r => r.id ∈ s.paidIds) ≤ sumSats s.ledger.rows := by
    rw [sumSats_filter_add]
    · calc _ ≤ sumSats (s.ledger.rows.filter fun _ => true) := sumSats_filter_le s.ledger.positive fun _ _ => rfl
        _ = sumSats s.ledger.rows := by rw [List.filter_true]
    · intro r unpaid paid
      exact (of_decide_eq_true unpaid).2 (of_decide_eq_true paid)
  omega

/-- The rewards are at least what is on the books and what the calls in progress keep. -/
theorem recorded_add_kept_le (balanced : Balanced p) :
    p.shared.recorded + (p.calls.map Call.kept).sum ≤ (p.calls.map Call.blockRewardSats).sum := by
  have each : (p.calls.map Call.kept).sum ≤ (p.calls.map fun t => t.owed + (t.blockRewardSats : ℤ)).sum :=
    List.sum_le_sum fun t _ => t.kept_le_owed
  have total := balanced.2
  rw [List.sum_map_add] at each
  rw [Nat.cast_list_sum, List.map_map]
  simp only [Function.comp_def]
  omega

/-- Once every payment is marked, no paid row is PENDING. -/
theorem unmarkedSats_eq_zero (settled : Settled p) (marked : ∀ t ∈ p.calls, t.unmarked = []) :
    p.shared.unmarkedSats = 0 := by
  rw [PplnsState.unmarkedSats, sumSats_filter_eq_zero p.shared.ledger.positive]
  intro r inRows selected
  obtain ⟨pending, paid⟩ := of_decide_eq_true selected
  obtain ⟨t, member, held⟩ := settled r.id paid ⟨r, inRows, rfl, pending⟩
  rw [marked t member] at held
  cases held

end

end ElektronPool.Pplns
