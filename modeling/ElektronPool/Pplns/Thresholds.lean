import ElektronPool.Pplns.Batches

/-!
# One miner's threshold and the payouts of the others

A cycle that nothing disturbs, with the answers of the node, the settings table and a wallet
that takes a batch as a whole or not at all (`Surroundings`). `payouts` is what it sends, and
two cycles that differ in the threshold of one miner are compared in `samePayouts_iff`.
-/

namespace ElektronPool.Pplns
set_option autoImplicit false
open Js

/-- `getOverridesByAddress`, where the table has one row, or none, for each address. -/
def getOverridesByAddress (payoutThresholdSatsOverride : String → Option ℤ) (addresses : List String) :
    OrderedMap String ℤ :=
  addresses.filterMap fun address => (payoutThresholdSatsOverride address).map fun threshold => (address, threshold)

theorem get_getOverridesByAddress {table : String → Option ℤ} {addresses : List String} {miner : String}
    (asked : miner ∈ addresses) : (getOverridesByAddress table addresses).get miner = table miner := by
  induction addresses with
  | nil => cases asked
  | cons address rest ih =>
    rw [getOverridesByAddress, List.filterMap_cons]
    cases h : table address with
    | none =>
      rcases List.mem_cons.mp asked with rfl | later
      · rw [h]
        apply OrderedMap.get_eq_none
        intro member
        obtain ⟨⟨m, v⟩, inRows, rfl⟩ := List.mem_map.mp member
        obtain ⟨a, -, row⟩ := List.mem_filterMap.mp inRows
        obtain ⟨t, found, eq⟩ := Option.map_eq_some_iff.mp row
        cases eq
        rw [h] at found
        cases found
      · exact ih later
    | some threshold =>
      show OrderedMap.get ((address, threshold) :: getOverridesByAddress table rest) miner = table miner
      rw [OrderedMap.get_cons]
      split
      · rename_i same
        rw [same, h]
      · rename_i different
        exact ih ((List.mem_cons.mp asked).resolve_left different)

/-- What a cycle finds. The wallet charges a fee for a batch and rejects an output below its dust
limit. -/
structure Surroundings where
  blocks : ℤ
  payoutThresholdSatsOverride : String → Option ℤ
  spendableSats : ℤ
  dustLimitSats : ℤ
  networkFeeSats : OrderedMap String ℤ → ℤ
  txid : String

namespace Surroundings
variable (w : Surroundings)

/-- `sendmany` succeeds. -/
def Accepts (amounts : OrderedMap String ℤ) : Prop :=
  (∀ e ∈ amounts, w.dustLimitSats ≤ e.2) ∧ (amounts.map Prod.snd).sum + w.networkFeeSats amounts ≤ w.spendableSats

instance (amounts : OrderedMap String ℤ) : Decidable (w.Accepts amounts) := inferInstanceAs (Decidable (_ ∧ _))

/-- How the awaits of the cycle end. -/
def answer : PayoutCycle → Option Answer
  | .miningInfo => some (.miningInfo (some w.blocks))
  | .overrides allPending =>
    some (.overrides (getOverridesByAddress w.payoutThresholdSatsOverride (allPending.map (·.minerAddress))))
  | .balance _ => some (.balance w.spendableSats)
  | .send candidates | .sendFallback candidates =>
    let amounts := sendManyAmounts candidates
    some (if w.Accepts amounts then .sent w.txid (w.networkFeeSats amounts)
      else .threw (some "Transaction amount too small"))
  | .totals _ | .unlock _ | .lock .. | .mark .. | .notify _ => some .executed
  | .returned _ | .rejected _ => none

/-- The cycle from a place on, for at most this many awaits. -/
def goOn (settings : Settings) : ℕ → PplnsState → PayoutCycle → PplnsState × PayoutCycle
  | 0, s, t => (s, t)
  | n + 1, s, t =>
    match (w.answer t).bind (t.resume settings s) with
    | none => (s, t)
    | some (s', t') => goOn settings n s' t'

/-- `runPayoutCycle`. It marks at most one candidate for each row of the ledger. -/
def runPayoutCycle (settings : Settings) (s : PplnsState) : PplnsState × PayoutCycle :=
  w.goOn settings (s.ledger.rows.length + 9) s .miningInfo

/-- What the cycle sends, and to whom. -/
def payouts (settings : Settings) (s : PplnsState) : OrderedMap String ℤ :=
  ((w.runPayoutCycle settings s).1.transactions.drop s.transactions.length).flatMap (·.amounts)

/-! ## A run of the cycle -/

section
variable {w} {settings : Settings} {s s' : PplnsState} {t t' : PayoutCycle} {n : ℕ}

theorem goOn_succ {a : Answer} (answered : w.answer t = some a) (resumed : t.resume settings s a = some (s', t')) :
    w.goOn settings (n + 1) s t = w.goOn settings n s' t' := by
  rw [goOn, answered, Option.bind_some, resumed]

theorem goOn_ended (ended : t.ended = true) : w.goOn settings n s t = (s, t) := by
  cases n with
  | zero => rfl
  | succ n =>
    cases t with
    | returned => rfl
    | rejected => rfl
    | _ => cases ended

/-- The cycle gets to its end, and the wallet has sent these transactions since. -/
def Ends (w : Surroundings) (settings : Settings) (n : ℕ) (s : PplnsState) (t : PayoutCycle)
    (sent : List WalletTransaction) : Prop :=
  (w.goOn settings n s t).1.transactions = s.transactions ++ sent ∧ (w.goOn settings n s t).2.ended = true

theorem ends_of_ended (ended : t.ended = true) : Ends w settings n s t [] := by
  rw [Ends, goOn_ended ended]
  exact ⟨(List.append_nil _).symm, ended⟩

theorem Ends.step (a : Answer) (s' : PplnsState) (t' : PayoutCycle) {sent : List WalletTransaction}
    (rest : Ends w settings n s' t' sent)
    (answered : w.answer t = some a) (resumed : t.resume settings s a = some (s', t'))
    (transactions : s'.transactions = s.transactions) : Ends w settings (n + 1) s t sent := by
  rw [Ends, goOn_succ answered resumed, ← transactions]
  exact rest

theorem ends_nextMark (txid : String) (cs : List PendingPayoutCandidate) :
    ∀ (s : PplnsState) (n : ℕ), cs.length + 1 ≤ n → Ends w settings n s (PayoutCycle.nextMark txid cs) [] := by
  induction cs with
  | nil =>
    intro s n enough
    obtain ⟨n, rfl⟩ := Nat.exists_eq_add_of_le' enough
    exact Ends.step .executed s _ (ends_of_ended rfl) rfl rfl rfl
  | cons c rest ih =>
    intro s n enough
    obtain ⟨n, rfl⟩ := Nat.exists_eq_add_of_le' (Nat.one_le_of_lt enough)
    exact Ends.step .executed _ _ (ih _ n (by simpa using enough)) rfl rfl rfl

theorem ends_afterSend (cs : List PendingPayoutCandidate) (result : Option String) (enough : cs.length + 1 ≤ n) :
    Ends w settings n s (PayoutCycle.afterSend cs result) [] := by
  cases result with
  | none => exact ends_of_ended rfl
  | some txid => exact ends_nextMark txid cs s n enough

theorem ends_settle (cs : List PendingPayoutCandidate) (result : Option String) (enough : cs.length + 2 ≤ n) :
    Ends w settings n s (PayoutCycle.settle settings cs result) [] := by
  unfold PayoutCycle.settle
  split
  · obtain ⟨n, rfl⟩ := Nat.exists_eq_add_of_le' (Nat.one_le_of_lt enough)
    exact Ends.step .executed s _ (ends_afterSend cs result (by omega)) rfl rfl rfl
  · exact ends_afterSend cs result (by omega)

/-- The transaction of a batch that is sent. -/
def transaction (w : Surroundings) (cs : List PendingPayoutCandidate) : WalletTransaction :=
  ⟨w.txid, sendManyAmounts cs, w.networkFeeSats (sendManyAmounts cs), cs.flatMap (·.rowIds)⟩

theorem ends_send (cs : List PendingPayoutCandidate) (enough : cs.length + 3 ≤ n) :
    Ends w settings n s (.send cs) (if w.Accepts (sendManyAmounts cs) then [w.transaction cs] else []) := by
  obtain ⟨n, rfl⟩ := Nat.exists_eq_add_of_le' (Nat.one_le_of_lt enough)
  split
  · rename_i accepted
    have answered : w.answer (.send cs) = some (.sent w.txid (w.networkFeeSats (sendManyAmounts cs))) := by
      simp only [answer, if_pos accepted]
    have rest : Ends w settings n (s.sendMany cs w.txid (w.networkFeeSats (sendManyAmounts cs)))
        (PayoutCycle.settle settings cs (some w.txid)) [] := ends_settle cs (some w.txid) (by omega)
    rw [Ends, goOn_succ answered rfl]
    refine ⟨?_, rest.2⟩
    rw [rest.1, List.append_nil]
    rfl
  · rename_i rejected
    have answered : w.answer (.send cs) = some (.threw (some "Transaction amount too small")) := by
      simp only [answer, if_neg rejected]
    have no_retry : PayoutCycle.retry settings cs (some "Transaction amount too small") =
        PayoutCycle.settle settings cs none := by
      rw [PayoutCycle.retry, if_neg]
      decide +kernel
    apply Ends.step _ s (PayoutCycle.settle settings cs none) _ answered (by rw [← no_retry]; rfl) rfl
    exact ends_settle cs none (by omega)

end

/-! ## What the cycle pays -/

variable (settings : Settings) (s : PplnsState)

/-- The height up to which credits are mature. -/
def matureUpTo : ℤ := PayoutCycle.matureUpToHeight settings w.blocks

/-- The overrides the cycle gets for the miners it read. -/
def overrides : OrderedMap String ℤ :=
  getOverridesByAddress w.payoutThresholdSatsOverride
    ((s.ledger.getMaturePendingTotals (w.matureUpTo settings)).map (·.minerAddress))

/-- The batch of the cycle, if it gets that far. -/
def batch : List PendingPayoutCandidate :=
  PayoutCycle.selectCandidates settings (w.overrides settings s)
    (s.ledger.getMaturePendingTotals (w.matureUpTo settings))

/-- A batch passes the balance check, and the wallet takes it. -/
def Payable (amounts : OrderedMap String ℤ) : Prop :=
  (amounts.map Prod.snd).sum ≤ w.spendableSats ∧ w.Accepts amounts

instance (amounts : OrderedMap String ℤ) : Decidable (w.Payable amounts) := inferInstanceAs (Decidable (_ ∧ _))

/-- There is somebody to pay, and the batch is paid. -/
def Pays : Prop :=
  w.batch settings s ≠ [] ∧ settings.dryRun = false ∧ w.Payable (sendManyAmounts (w.batch settings s))

instance : Decidable (w.Pays settings s) := inferInstanceAs (Decidable (_ ∧ _))

variable {w settings s}

theorem totalRequestedSats_batch : PayoutCycle.totalRequestedSats (w.batch settings s) =
    ((sendManyAmounts (w.batch settings s)).map Prod.snd).sum := by
  rw [batch, sendManyAmounts_eq nodup_candidates, List.map_map]
  rfl

/-- The cycle ends, and has sent the batch if it can be paid. -/
theorem ends_runPayoutCycle : Ends w settings (s.ledger.rows.length + 9) s .miningInfo
    (if w.Pays settings s then [w.transaction (w.batch settings s)] else []) := by
  have short : (w.batch settings s).length ≤ s.ledger.rows.length := length_candidates_le
  apply Ends.step (.miningInfo (some w.blocks)) s (.totals (w.matureUpTo settings)) _ rfl rfl rfl
  apply Ends.step .executed s _ _ rfl rfl rfl
  by_cases nobody : s.ledger.getMaturePendingTotals (w.matureUpTo settings) = []
  · have empty : w.batch settings s = [] := by rw [batch, nobody]; rfl
    rw [if_pos nobody, if_neg fun pays => pays.1 empty]
    exact ends_of_ended rfl
  rw [if_neg nobody]
  apply Ends.step (.overrides (w.overrides settings s)) s _ _ rfl rfl rfl
  show Ends w settings _ s (if w.batch settings s = [] ∨ settings.dryRun = true then .returned none
    else .balance (w.batch settings s)) _
  by_cases stops : w.batch settings s = [] ∨ settings.dryRun = true
  · have unpaid : ¬ w.Pays settings s := by
      rintro ⟨some_due, wet, -⟩
      rcases stops with none | dry
      · exact some_due none
      · rw [dry] at wet
        cases wet
    rw [if_pos stops, if_neg unpaid]
    exact ends_of_ended rfl
  rw [if_neg stops]
  apply Ends.step (.balance w.spendableSats) s _ _ rfl rfl rfl
  obtain ⟨some_due, wet⟩ := not_or.mp stops
  by_cases poor : w.spendableSats < PayoutCycle.totalRequestedSats (w.batch settings s)
  · have unpaid : ¬ w.Pays settings s := by
      rintro ⟨-, -, enough, -⟩
      rw [totalRequestedSats_batch] at poor
      omega
    rw [if_pos poor, if_neg unpaid]
    exact ends_of_ended rfl
  have paid : w.Pays settings s ↔ w.Accepts (sendManyAmounts (w.batch settings s)) := by
    rw [totalRequestedSats_batch, not_lt] at poor
    exact ⟨fun pays => pays.2.2.2, fun accepts => ⟨some_due, Bool.eq_false_iff.mpr wet, poor, accepts⟩⟩
  rw [if_neg poor]
  simp only [paid]
  show Ends w settings _ s (if settings.walletPassphrase.isSome then .unlock (w.batch settings s)
    else .send (w.batch settings s)) _
  split
  · apply Ends.step .executed s (.send (w.batch settings s)) _ rfl rfl rfl
    exact ends_send _ (by omega)
  · exact ends_send _ (by omega)

theorem payouts_eq :
    w.payouts settings s = if w.Pays settings s then sendManyAmounts (w.batch settings s) else [] := by
  have ends : (w.runPayoutCycle settings s).1.transactions = s.transactions ++ _ := ends_runPayoutCycle.1
  rw [payouts, ends, List.drop_left]
  split
  · exact List.append_nil _
  · rfl

/-- A miner has mature credits that reach its threshold in the settings table, or the pool's. -/
def ReachesThreshold (w : Surroundings) (settings : Settings) (s : PplnsState) (miner : String) : Prop :=
  miner ∈ (s.ledger.maturePending (w.matureUpTo settings)).map (·.minerAddress) ∧
    (w.payoutThresholdSatsOverride miner).getD settings.minPayoutThresholdSats ≤
      sumSats (minerGroup (s.ledger.maturePending (w.matureUpTo settings)) miner)

instance (miner : String) : Decidable (w.ReachesThreshold settings s miner) := inferInstanceAs (Decidable (_ ∧ _))

variable {miner : String}

theorem due_iff :
    Due settings (w.overrides settings s) s.ledger (w.matureUpTo settings) miner ↔ w.ReachesThreshold settings s miner := by
  apply and_congr_right
  intro member
  have asked : miner ∈ (s.ledger.getMaturePendingTotals (w.matureUpTo settings)).map (·.minerAddress) :=
    List.mem_map.mpr ⟨groupTotals _ miner, mem_groupByMiner.mpr ⟨member, rfl⟩, rfl⟩
  rw [overrides, get_getOverridesByAddress asked]

/-- What a miner gets. -/
theorem get_payouts : (w.payouts settings s).get miner =
    if w.Pays settings s ∧ w.ReachesThreshold settings s miner then
      some (sumSats (minerGroup (s.ledger.maturePending (w.matureUpTo settings)) miner))
    else none := by
  rw [payouts_eq]
  by_cases pays : w.Pays settings s
  · rw [if_pos pays, batch, get_batch]
    simp only [due_iff, pays, true_and]
  · rw [if_neg pays, if_neg fun both => pays both.1]
    rfl

/-- A miner that is due makes the batch one. -/
theorem pays_iff (reaches : w.ReachesThreshold settings s miner) :
    w.Pays settings s ↔ settings.dryRun = false ∧ w.Payable (sendManyAmounts (w.batch settings s)) := by
  apply and_iff_right
  obtain ⟨c, member, -⟩ := List.mem_map.mp (mem_candidates.mpr (due_iff.mpr reaches))
  exact List.ne_nil_of_mem member

end Surroundings

/-- The surroundings with other overrides in the settings table. -/
def Surroundings.withOverrides (w : Surroundings) (table : String → Option ℤ) : Surroundings :=
  { w with payoutThresholdSatsOverride := table }

namespace Surroundings
variable {w : Surroundings} {settings : Settings} {s : PplnsState} {table table' : String → Option ℤ} {miner : String}

/-- Whether a miner is due depends on its own entry. -/
theorem reachesThreshold_congr (agree : table miner = table' miner) :
    (w.withOverrides table).ReachesThreshold settings s miner ↔ (w.withOverrides table').ReachesThreshold settings s miner := by
  have same : (w.withOverrides table).payoutThresholdSatsOverride miner =
      (w.withOverrides table').payoutThresholdSatsOverride miner := agree
  unfold ReachesThreshold
  rw [same]
  rfl

/-- A miner with the same entry in both tables gets the same, unless it is due and one batch can be
paid and the other cannot. -/
theorem get_payouts_congr_iff (agree : table miner = table' miner) :
    ((w.withOverrides table).payouts settings s).get miner = ((w.withOverrides table').payouts settings s).get miner ↔
      ((w.withOverrides table).ReachesThreshold settings s miner → settings.dryRun = false →
        (w.Payable (sendManyAmounts ((w.withOverrides table).batch settings s)) ↔
          w.Payable (sendManyAmounts ((w.withOverrides table').batch settings s)))) := by
  rw [get_payouts, get_payouts]
  by_cases reaches : (w.withOverrides table).ReachesThreshold settings s miner
  · have reaches' := (reachesThreshold_congr agree).mp reaches
    simp only [reaches, reaches', and_true, forall_const]
    rw [← and_congr_right_iff]
    show _ ↔ (settings.dryRun = false ∧ (w.withOverrides table).Payable _ ↔
      settings.dryRun = false ∧ (w.withOverrides table').Payable _)
    rw [← pays_iff reaches, ← pays_iff reaches']
    -- What a miner would get is the same amount in both.
    show (if _ then some (sumSats (minerGroup (s.ledger.maturePending (w.matureUpTo settings)) miner)) else none) =
      (if _ then some (sumSats (minerGroup (s.ledger.maturePending (w.matureUpTo settings)) miner)) else none) ↔ _
    by_cases pays : (w.withOverrides table).Pays settings s <;>
      by_cases pays' : (w.withOverrides table').Pays settings s <;> simp [pays, pays']
  · have reaches' := mt (reachesThreshold_congr agree).mpr reaches
    simp [reaches, reaches']

end Surroundings

namespace Regtest

/-- At height 106, with 300000 lep to spend, a fee of 200 lep and a dust limit of 294 lep. -/
def surroundings : Surroundings where
  blocks := 106
  payoutThresholdSatsOverride _ := none
  spendableSats := 300000
  dustLimitSats := 294
  networkFeeSats _ := 200
  txid := "t"

/-- The settings table when only one miner, named a, has an override. -/
def onlyA (threshold : ℤ) (miner : String) : Option ℤ := if miner = "a" then some threshold else none

/-- 200000 lep for b and this much for a, mature both. -/
def sharedWith (sats : ℤ) : PplnsState :=
  { PplnsState.empty with ledger := (PayoutLedger.empty.credit "a" sats 7).credit "b" 200000 7 }

end Regtest

end ElektronPool.Pplns
