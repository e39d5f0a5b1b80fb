import ElektronPool.Pplns.Thresholds

/-!
# What a payout cycle asks the wallet for

`runPayoutCycle` on its own, from its call on, with any answers that agree with the tip
height, the settings table and the wallet balance. Each `sendmany` it issues is recorded. What
it should ask for is said of the ledger alone, by confirmations (`IsBatch`).
-/

namespace ElektronPool.Pplns
set_option autoImplicit false
open Async Js

/-! ## Who is to be paid -/

/-- The PENDING credits of a miner from blocks that have at least `maturity` confirmations. -/
def confirmedCredits (L : PayoutLedger) (height : ℤ) (maturity : ℕ) (miner : String) : List PayoutLedgerEntity :=
  L.rows.filter fun r => r.minerAddress = miner ∧ r.status = .pending ∧ maturity ≤ height - r.blockHeight + 1

/-- What a cycle meets: the height of the tip, if the node tells it, the overrides in the settings
table, and the balance of the wallet. -/
structure Circumstances where
  height : Option ℤ
  payoutThresholdSatsOverride : String → Option ℤ
  spendableSats : ℤ

/-- The miners whose confirmed credits reach their own threshold, or the pool's, with the totals. -/
structure IsBatch (c : Circumstances) (settings : Settings) (L : PayoutLedger) (height : ℤ)
    (amounts : OrderedMap String ℤ) : Prop where
  nodup : (amounts.map Prod.fst).Nodup
  get : ∀ miner, amounts.get miner =
    if 0 < sumSats (confirmedCredits L height settings.coinbaseMaturity miner) ∧
        (c.payoutThresholdSatsOverride miner).getD settings.minPayoutThresholdSats ≤
          sumSats (confirmedCredits L height settings.coinbaseMaturity miner) then
      some (sumSats (confirmedCredits L height settings.coinbaseMaturity miner))
    else none

section
variable {c : Circumstances} {settings : Settings} {L : PayoutLedger} {height : ℤ}

/-- The maturity bound of the query counts confirmations. -/
theorem minerGroup_maturePending (miner : String) :
    minerGroup (L.maturePending (PayoutCycle.matureUpToHeight settings height)) miner =
      confirmedCredits L height settings.coinbaseMaturity miner := by
  rw [minerGroup, PayoutLedger.maturePending, confirmedCredits, List.filter_filter]
  apply List.filter_congr
  intro r _
  rw [← Bool.decide_and, decide_eq_decide, PayoutCycle.matureUpToHeight]
  constructor
  · rintro ⟨miner, pending, mature⟩
    exact ⟨miner, pending, by omega⟩
  · rintro ⟨miner, pending, confirmed⟩
    exact ⟨miner, pending, by omega⟩

/-- A miner has mature credits when they are worth something. -/
theorem mem_maturePending_iff (miner : String) :
    miner ∈ (L.maturePending (PayoutCycle.matureUpToHeight settings height)).map (·.minerAddress) ↔
      0 < sumSats (confirmedCredits L height settings.coinbaseMaturity miner) := by
  rw [← minerGroup_maturePending, minerGroup]
  have positive : ∀ r ∈ L.maturePending (PayoutCycle.matureUpToHeight settings height), 0 < r.amountSats :=
    fun r member => L.positive r (List.mem_of_mem_filter member)
  have nonneg := sumSats_nonneg fun r member =>
    positive r (List.mem_of_mem_filter (p := fun r : PayoutLedgerEntity => r.minerAddress = miner) member)
  rw [lt_iff_le_and_ne, and_iff_right nonneg, ne_comm, Ne, sumSats_filter_eq_zero positive, List.mem_map]
  push Not
  simp only [decide_eq_true_eq]

/-- The overrides as they are read for some candidates. -/
def Circumstances.Answers (c : Circumstances) : PayoutCycle → Answer → Prop
  | .miningInfo, .miningInfo blocks => blocks = c.height
  | .overrides allPending, .overrides rows =>
    ∀ candidate ∈ allPending, rows.get candidate.minerAddress = c.payoutThresholdSatsOverride candidate.minerAddress
  | .balance _, .balance spendableSats => spendableSats = c.spendableSats
  | _, _ => True

instance (t : PayoutCycle) (a : Answer) : Decidable (c.Answers t a) := by
  unfold Circumstances.Answers
  split <;> infer_instance

/-- The candidates of the cycle. -/
def Circumstances.candidates (c : Circumstances) (settings : Settings) (L : PayoutLedger) (height : ℤ) :
    List PendingPayoutCandidate :=
  (L.getMaturePendingTotals (PayoutCycle.matureUpToHeight settings height)).filter fun candidate =>
    (c.payoutThresholdSatsOverride candidate.minerAddress).getD settings.minPayoutThresholdSats ≤ candidate.totalPendingSats

theorem selectCandidates_eq {rows : OrderedMap String ℤ}
    (read : ∀ candidate ∈ L.getMaturePendingTotals (PayoutCycle.matureUpToHeight settings height),
      rows.get candidate.minerAddress = c.payoutThresholdSatsOverride candidate.minerAddress) :
    PayoutCycle.selectCandidates settings rows
      (L.getMaturePendingTotals (PayoutCycle.matureUpToHeight settings height)) = c.candidates settings L height :=
  List.filter_congr fun candidate member => by rw [read candidate member]

theorem candidates_eq (c : Circumstances) (settings : Settings) (L : PayoutLedger) (height : ℤ) :
    c.candidates settings L height = PayoutCycle.selectCandidates settings
      (getOverridesByAddress c.payoutThresholdSatsOverride
        ((L.getMaturePendingTotals (PayoutCycle.matureUpToHeight settings height)).map (·.minerAddress)))
      (L.getMaturePendingTotals (PayoutCycle.matureUpToHeight settings height)) :=
  (selectCandidates_eq fun _ member => get_getOverridesByAddress (List.mem_map_of_mem member)).symm

/-- **The amounts of the cycle are the ones that should be paid.** -/
theorem isBatch_candidates (c : Circumstances) (settings : Settings) (L : PayoutLedger) (height : ℤ) :
    IsBatch c settings L height (sendManyAmounts (c.candidates settings L height)) := by
  rw [candidates_eq]
  refine ⟨?_, fun miner => ?_⟩
  · rw [sendManyAmounts_eq nodup_candidates, List.map_map]
    exact nodup_candidates
  · rw [get_batch]
    by_cases owed : 0 < sumSats (confirmedCredits L height settings.coinbaseMaturity miner)
    · have asked : miner ∈ (L.getMaturePendingTotals (PayoutCycle.matureUpToHeight settings height)).map
          (·.minerAddress) :=
        List.mem_map.mpr ⟨groupTotals _ miner, mem_groupByMiner.mpr ⟨(mem_maturePending_iff miner).mpr owed, rfl⟩, rfl⟩
      simp only [Due, mem_maturePending_iff, minerGroup_maturePending, get_getOverridesByAddress asked]
    · rw [if_neg fun due => owed ((mem_maturePending_iff miner).mp due.1), if_neg fun due => owed due.1]

theorem totalRequestedSats_candidates : PayoutCycle.totalRequestedSats (c.candidates settings L height) =
    ((sendManyAmounts (c.candidates settings L height)).map Prod.snd).sum := by
  rw [candidates_eq, sendManyAmounts_eq nodup_candidates, List.map_map]
  rfl

/-- What is to be paid is determined up to its order. -/
theorem IsBatch.perm {amounts amounts' : OrderedMap String ℤ} (batch : IsBatch c settings L height amounts)
    (batch' : IsBatch c settings L height amounts') : amounts.Perm amounts' :=
  OrderedMap.perm_of_get_eq batch.nodup batch'.nodup fun miner => by rw [batch.get, batch'.get]

end

/-! ## A cycle and what it asks for -/

/-- The `sendmany` that a cycle waits for. -/
def PayoutCycle.request : PayoutCycle → List (OrderedMap String ℤ)
  | .send candidates | .sendFallback candidates => [sendManyAmounts candidates]
  | _ => []

/-- A database or RPC call that fails. -/
def Answer.fails : Answer → Bool
  | .dbError | .threw _ | .lost .. => true
  | _ => false

/-- What has been asked for, how many calls have returned, and whether any of them failed. -/
structure Asked where
  requests : List (OrderedMap String ℤ)
  answers : ℕ
  failed : Bool

def Asked.none : Asked := ⟨[], 0, false⟩

/-- The cycle goes on. -/
def cycleStep (settings : Settings) (q : PplnsState × PayoutCycle) (a : Answer) : Option (PplnsState × PayoutCycle) :=
  q.2.resume settings q.1 a

def recordRequest (g : Asked) (_ : PplnsState × PayoutCycle) (a : Answer) (q' : PplnsState × PayoutCycle) : Asked :=
  ⟨g.requests ++ q'.2.request, g.answers + 1, g.failed || a.fails⟩

section
variable (c : Circumstances) (settings : Settings) (s₀ : PplnsState)

/-- A batch that the cycle may ask for. -/
def MayAsk (amounts : OrderedMap String ℤ) : Prop :=
  amounts ≠ [] ∧ settings.dryRun = false ∧ (amounts.map Prod.snd).sum ≤ c.spendableSats ∧
    ∃ height, c.height = some height ∧ IsBatch c settings s₀.ledger height amounts

/-- A cycle that has asked, and for nothing else. -/
def HasAsked (g : Asked) : Prop := g.requests ≠ [] ∧ ∀ amounts ∈ g.requests, MayAsk c settings s₀ amounts

/-- The candidates that a cycle goes on with. -/
def Selected (candidates : List PendingPayoutCandidate) : Prop :=
  candidates ≠ [] ∧ settings.dryRun = false ∧
    ∃ height, c.height = some height ∧ candidates = c.candidates settings s₀.ledger height

/-- The state is the first one, or the wallet has sent something since. -/
def SameOrSent (s : PplnsState) : Prop := s = s₀ ∨ s₀.transactions.length < s.transactions.length

/-- What holds of a cycle at each of its places. -/
def Stands (s : PplnsState) (g : Asked) : PayoutCycle → Prop
  | .miningInfo => s = s₀ ∧ g.requests = [] ∧ g.answers = 0
  | .totals matureUpTo => s = s₀ ∧ g.requests = [] ∧ g.answers = 1 ∧
    ∃ height, c.height = some height ∧ matureUpTo = PayoutCycle.matureUpToHeight settings height
  | .overrides allPending => s = s₀ ∧ g.requests = [] ∧ g.answers = 2 ∧ ∃ height, c.height = some height ∧
    allPending = s₀.ledger.getMaturePendingTotals (PayoutCycle.matureUpToHeight settings height)
  | .balance candidates => s = s₀ ∧ g.requests = [] ∧ g.answers = 3 ∧ Selected c settings s₀ candidates
  | .unlock candidates => s = s₀ ∧ g.requests = [] ∧ g.answers = 4 ∧ Selected c settings s₀ candidates ∧
    PayoutCycle.totalRequestedSats candidates ≤ c.spendableSats
  | .send candidates | .sendFallback candidates => SameOrSent s₀ s ∧ HasAsked c settings s₀ g ∧
    MayAsk c settings s₀ (sendManyAmounts candidates)
  | .lock _ result => SameOrSent s₀ s ∧ HasAsked c settings s₀ g ∧
    (result ≠ none → s₀.transactions.length < s.transactions.length)
  | .mark .. | .notify _ => HasAsked c settings s₀ g ∧ s₀.transactions.length < s.transactions.length
  | .returned _ | .rejected _ => SameOrSent s₀ s ∧ (∀ amounts ∈ g.requests, MayAsk c settings s₀ amounts) ∧
    (g.requests = [] → g.failed = false → ∀ amounts, ¬ MayAsk c settings s₀ amounts)

def StandsAt (q : PplnsState × PayoutCycle) (g : Asked) : Prop := Stands c settings s₀ q.1 g q.2

variable {c settings s₀} {s : PplnsState} {g : Asked}

/-- Two batches that may be asked for are the same up to order. -/
theorem MayAsk.selected {amounts : OrderedMap String ℤ} (may : MayAsk c settings s₀ amounts) {height : ℤ}
    (tip : c.height = some height) :
    c.candidates settings s₀.ledger height ≠ [] ∧
      PayoutCycle.totalRequestedSats (c.candidates settings s₀.ledger height) ≤ c.spendableSats := by
  obtain ⟨nonempty, -, covered, height', tip', batch⟩ := may
  cases tip.symm.trans tip'
  have same := batch.perm (isBatch_candidates c settings s₀.ledger height)
  refine ⟨fun empty => nonempty ?_, ?_⟩
  · rw [empty] at same
    exact same.eq_nil
  · rw [totalRequestedSats_candidates, ← (same.map Prod.snd).sum_eq]
    exact covered

theorem Selected.mayAsk {candidates : List PendingPayoutCandidate} (selected : Selected c settings s₀ candidates)
    (covered : PayoutCycle.totalRequestedSats candidates ≤ c.spendableSats) :
    MayAsk c settings s₀ (sendManyAmounts candidates) := by
  obtain ⟨nonempty, wet, height, tip, rfl⟩ := selected
  refine ⟨fun empty => nonempty ?_, wet, by rwa [← totalRequestedSats_candidates], height, tip,
    isBatch_candidates c settings s₀.ledger height⟩
  rw [candidates_eq, sendManyAmounts_eq nodup_candidates, List.map_eq_nil_iff] at empty
  rw [candidates_eq, empty]

theorem SameOrSent.sendMany (same : SameOrSent s₀ s) (candidates : List PendingPayoutCandidate) (txid : String)
    (networkFeeSats : ℤ) : s₀.transactions.length < (s.sendMany candidates txid networkFeeSats).transactions.length := by
  have one : (s.sendMany candidates txid networkFeeSats).transactions.length = s.transactions.length + 1 := by
    rw [PplnsState.sendMany, List.length_append, List.length_singleton]
  rcases same with rfl | sent <;> omega

theorem HasAsked.append_nil (answers : ℕ) (failed : Bool) (asked : HasAsked c settings s₀ g) :
    HasAsked c settings s₀ ⟨g.requests ++ [], answers, failed⟩ := by
  rw [HasAsked, List.append_nil]
  exact asked

theorem stands_ended (failed : Bool) (same : SameOrSent s₀ s) (asked : HasAsked c settings s₀ g) :
    SameOrSent s₀ s ∧ (∀ amounts ∈ g.requests ++ [], MayAsk c settings s₀ amounts) ∧
      (g.requests ++ [] = [] → failed = false → ∀ amounts, ¬ MayAsk c settings s₀ amounts) :=
  ⟨same, (asked.append_nil 0 failed).2, fun nothing => absurd nothing (asked.append_nil 0 failed).1⟩

theorem stands_afterSend (candidates : List PendingPayoutCandidate) {result : Option String} (answers : ℕ) (failed : Bool)
    (same : SameOrSent s₀ s) (asked : HasAsked c settings s₀ g)
    (sent : result ≠ none → s₀.transactions.length < s.transactions.length) :
    Stands c settings s₀ s ⟨g.requests ++ (PayoutCycle.afterSend candidates result).request, answers, failed⟩
      (PayoutCycle.afterSend candidates result) := by
  cases result with
  | none => exact stands_ended failed same asked
  | some txid =>
    have later := sent (Option.some_ne_none txid)
    cases candidates <;> exact ⟨asked.append_nil answers failed, later⟩

theorem stands_settle (candidates : List PendingPayoutCandidate) {result : Option String} (answers : ℕ) (failed : Bool)
    (same : SameOrSent s₀ s) (asked : HasAsked c settings s₀ g)
    (sent : result ≠ none → s₀.transactions.length < s.transactions.length) :
    Stands c settings s₀ s ⟨g.requests ++ (PayoutCycle.settle settings candidates result).request, answers, failed⟩
      (PayoutCycle.settle settings candidates result) := by
  unfold PayoutCycle.settle
  split
  · exact ⟨same, asked.append_nil answers failed, sent⟩
  · exact stands_afterSend candidates answers failed same asked sent

/-- Asking again is asking for the same. -/
theorem stands_retry {candidates : List PendingPayoutCandidate} {message : Option String} (answers : ℕ) (failed : Bool)
    (same : SameOrSent s₀ s) (asked : HasAsked c settings s₀ g)
    (may : MayAsk c settings s₀ (sendManyAmounts candidates)) :
    Stands c settings s₀ s ⟨g.requests ++ (PayoutCycle.retry settings candidates message).request, answers, failed⟩
      (PayoutCycle.retry settings candidates message) := by
  unfold PayoutCycle.retry
  split
  · refine ⟨same, ⟨List.append_ne_nil_of_left_ne_nil asked.1 _, fun amounts member => ?_⟩, may⟩
    rcases List.mem_append.mp member with old | new
    · exact asked.2 amounts old
    · rw [List.mem_singleton.mp new]
      exact may
  · exact stands_settle candidates answers failed same asked (absurd rfl)

/-- A cycle that has asked for nothing and ends. -/
theorem stands_unasked (failed : Bool) (same : s = s₀) (unasked : g.requests = [])
    (excused : failed = true ∨ ∀ amounts, ¬ MayAsk c settings s₀ amounts) :
    SameOrSent s₀ s ∧ (∀ amounts ∈ g.requests ++ [], MayAsk c settings s₀ amounts) ∧
      (g.requests ++ [] = [] → failed = false → ∀ amounts, ¬ MayAsk c settings s₀ amounts) := by
  rw [unasked]
  refine ⟨.inl same, fun _ member => absurd member List.not_mem_nil, fun _ fine => ?_⟩
  rcases excused with failure | none
  · rw [fine] at failure
    cases failure
  · exact none

/-- The first time the cycle asks. -/
theorem stands_send {candidates : List PendingPayoutCandidate} (answers : ℕ) (failed : Bool) (same : s = s₀)
    (unasked : g.requests = []) (may : MayAsk c settings s₀ (sendManyAmounts candidates)) :
    Stands c settings s₀ s ⟨g.requests ++ (PayoutCycle.send candidates).request, answers, failed⟩ (.send candidates) := by
  rw [unasked]
  refine ⟨.inl same, ⟨List.cons_ne_nil _ _, fun amounts member => ?_⟩, may⟩
  rw [List.mem_singleton.mp member]
  exact may

/-- One step of the cycle. -/
theorem stands_step {t t' : PayoutCycle} {a : Answer} {s' : PplnsState} (stands : Stands c settings s₀ s g t)
    (answered : c.Answers t a) (resumed : t.resume settings s a = some (s', t')) :
    Stands c settings s₀ s' (recordRequest g (s, t) a (s', t')) t' := by
  unfold PayoutCycle.resume at resumed
  split at resumed <;> cases resumed
  case h_1 =>
    obtain ⟨same, unasked, -⟩ := stands
    refine stands_unasked _ same unasked (.inr ?_)
    rintro amounts ⟨-, -, -, height, tip, -⟩
    rw [← answered] at tip
    cases tip
  case h_2 blocks =>
    obtain ⟨same, unasked, first⟩ := stands
    exact ⟨same, by rw [recordRequest, unasked]; rfl, congrArg Nat.succ first, blocks, answered.symm, rfl⟩
  case h_3 matureUpTo =>
    obtain ⟨rfl, unasked, before, height, tip, rfl⟩ := stands
    split
    · rename_i nobody
      refine stands_unasked _ rfl unasked (.inr fun amounts may => (may.selected tip).1 ?_)
      rw [Circumstances.candidates, nobody]
      rfl
    · exact ⟨rfl, by rw [recordRequest, unasked]; rfl, congrArg Nat.succ before, height, tip, rfl⟩
  case h_5 allPending rows =>
    obtain ⟨rfl, unasked, before, height, tip, rfl⟩ := stands
    rw [selectCandidates_eq answered]
    split
    · rename_i stops
      refine stands_unasked _ rfl unasked (.inr fun amounts may => ?_)
      rcases stops with nobody | dry
      · exact (may.selected tip).1 nobody
      · exact Bool.false_ne_true (may.2.1.symm.trans dry)
    · rename_i goes
      obtain ⟨somebody, wet⟩ := not_or.mp goes
      exact ⟨rfl, by rw [recordRequest, unasked]; rfl, congrArg Nat.succ before, somebody, Bool.eq_false_iff.mpr wet, height, tip, rfl⟩
  case h_7 candidates spendableSats =>
    obtain ⟨rfl, unasked, before, selected⟩ := stands
    have balance : spendableSats = c.spendableSats := answered
    rw [balance]
    split
    · rename_i poor
      obtain ⟨-, -, height, tip, rfl⟩ := selected
      exact stands_unasked _ rfl unasked (.inr fun amounts may => absurd (may.selected tip).2 (by omega))
    · rename_i covered
      split
      · exact ⟨rfl, by rw [recordRequest, unasked]; rfl, congrArg Nat.succ before, selected, not_lt.mp covered⟩
      · exact stands_send _ _ rfl unasked (selected.mayAsk (not_lt.mp covered))
  case h_9 candidates =>
    obtain ⟨rfl, unasked, -, selected, covered⟩ := stands
    exact stands_send _ _ rfl unasked (selected.mayAsk covered)
  case h_4 | h_6 | h_8 | h_10 =>
    -- what fails before the wallet is asked ends the cycle
    obtain ⟨same, unasked, -⟩ := stands
    exact stands_unasked _ same unasked (.inl (Bool.or_true g.failed))
  case h_11 | h_14 =>
    obtain ⟨same, asked, -⟩ := stands
    have sent := same.sendMany
    exact stands_settle _ _ _ (.inr (sent ..)) asked fun _ => sent ..
  case h_12 =>
    obtain ⟨same, asked, may⟩ := stands
    exact stands_retry _ _ same asked may
  case h_13 =>
    obtain ⟨same, asked, may⟩ := stands
    exact stands_retry _ _ (.inr (same.sendMany ..)) asked may
  case h_15 =>
    obtain ⟨same, asked, -⟩ := stands
    exact stands_settle _ _ _ same asked (absurd rfl)
  case h_16 =>
    obtain ⟨same, asked, -⟩ := stands
    exact stands_settle _ _ _ (.inr (same.sendMany ..)) asked (absurd rfl)
  case h_17 | h_18 =>
    obtain ⟨same, asked, sent⟩ := stands
    exact stands_afterSend _ _ _ same asked sent
  case h_19 txid candidate rest =>
    obtain ⟨asked, sent⟩ := stands
    cases rest <;> exact ⟨asked.append_nil _ _, sent⟩
  case h_20 | h_21 | h_22 =>
    obtain ⟨asked, sent⟩ := stands
    exact stands_ended _ (.inr sent) asked

theorem Stands.sameOrSent {t : PayoutCycle} (stands : Stands c settings s₀ s g t) : SameOrSent s₀ s := by
  cases t with
  | miningInfo | totals | overrides | balance | unlock => exact .inl stands.1
  | send | sendFallback | lock | returned | rejected => exact stands.1
  | mark | notify => exact .inr stands.2

theorem Stands.mayAsk {t : PayoutCycle} (stands : Stands c settings s₀ s g t) {amounts : OrderedMap String ℤ}
    (member : amounts ∈ g.requests) : MayAsk c settings s₀ amounts := by
  cases t with
  | miningInfo | totals | overrides | balance | unlock =>
    rw [stands.2.1] at member
    cases member
  | send | sendFallback | lock => exact stands.2.1.2 amounts member
  | mark | notify => exact stands.1.2 amounts member
  | returned | rejected => exact stands.2.1 amounts member

/-- A cycle that could have asked has done so. -/
theorem Stands.asked {t : PayoutCycle} (stands : Stands c settings s₀ s g t) (late : t.ended = true ∨ 5 ≤ g.answers)
    (fine : g.failed = false) {amounts : OrderedMap String ℤ} (may : MayAsk c settings s₀ amounts) :
    g.requests ≠ [] := by
  cases t with
  | miningInfo | totals | overrides | balance | unlock =>
    obtain ⟨-, -, count⟩ := stands
    rcases late with ended | late
    · cases ended
    · omega
  | send | sendFallback | lock => exact stands.2.1.1
  | mark | notify => exact stands.1.1
  | returned | rejected => exact fun nothing => stands.2.2 nothing fine amounts may

end

/-- **What a payout cycle asks for and what it writes**: each `sendmany` is the batch of the
miners whose confirmed credits reach their threshold, and the balance covers it; the batch is
asked for by the fifth answer unless a call fails; and until the wallet has sent something
nothing is written. -/
theorem requests_of_runPayoutCycle {c : Circumstances} {settings : Settings} {s₀ s : PplnsState} {t : PayoutCycle}
    {g : Asked} (reached : Reaches (recording (cycleStep settings) recordRequest) (fun q a => c.Answers q.1.2 a)
      ((s₀, .miningInfo), .none) ((s, t), g)) :
    (∀ amounts ∈ g.requests, amounts ≠ [] ∧ settings.dryRun = false ∧
      (amounts.map Prod.snd).sum ≤ c.spendableSats ∧
      ∃ height, c.height = some height ∧ IsBatch c settings s₀.ledger height amounts) ∧
    (t.ended = true ∨ 5 ≤ g.answers → g.failed = false → settings.dryRun = false →
      ∀ height amounts, c.height = some height → IsBatch c settings s₀.ledger height amounts → amounts ≠ [] →
        (amounts.map Prod.snd).sum ≤ c.spendableSats → g.requests ≠ []) ∧
    (s.transactions = s₀.transactions → s = s₀) := by
  have holds : StandsAt c settings s₀ (s, t) g := by
    apply reached.invariant_recording
    · exact ⟨rfl, rfl, rfl⟩
    · intro q g a q' stands answered moved
      exact stands_step stands answered moved
  have stands : Stands c settings s₀ s g t := holds
  refine ⟨fun amounts member => stands.mayAsk member, ?_, fun unsent => ?_⟩
  · intro late fine wet height amounts tip batch somebody covered
    exact stands.asked late fine ⟨somebody, wet, covered, height, tip, batch⟩
  · rcases stands.sameOrSent with same | sent
    · exact same
    · rw [unsent] at sent
      omega

/-- Two miners are owed 100000 lep each from a block with 100 confirmations, one of them with a
threshold of its own that it does not reach: the other one is paid. -/
theorem requests_of_runPayoutCycle_one_due :
    let c : Circumstances := ⟨some 106, fun address => if address = "b" then some 150000 else none, 100000⟩
    ∃ s t g, Reaches (recording (cycleStep .defaults) recordRequest) (fun q a => c.Answers q.1.2 a)
        ((Regtest.owed "a" "b", .miningInfo), .none) ((s, t), g) ∧
      (g.requests = [[("a", 100000)]] ∧ s.ledger ≠ (Regtest.owed "a" "b").ledger ∧ t.ended = true) ∧
      IsBatch c .defaults (Regtest.owed "a" "b").ledger 106 [("a", 100000)] := by
  intro c
  obtain ⟨⟨⟨s, t⟩, g⟩, reached, asked, marked, ended⟩ := exists_reaches (recording (cycleStep .defaults) recordRequest)
    (fun q a => c.Answers q.1.2 a) ((Regtest.owed "a" "b", .miningInfo), .none)
    [.miningInfo (some 106), .executed, .overrides [("b", 150000)], .balance 100000, .sent "t1" 200, .executed, .executed]
    (fun q => q.2.requests = [[("a", 100000)]] ∧ q.1.1.ledger.rows ≠ (Regtest.owed "a" "b").ledger.rows ∧
      q.1.2.ended = true) (by decide +kernel)
  obtain ⟨requests, -, -⟩ := requests_of_runPayoutCycle reached
  obtain ⟨-, -, -, height, tip, batch⟩ := requests [("a", 100000)] (by rw [asked]; exact List.mem_singleton_self _)
  cases tip
  exact ⟨s, t, g, reached, ⟨asked, fun same => marked (congrArg _ same), ended⟩, batch⟩

end ElektronPool.Pplns
