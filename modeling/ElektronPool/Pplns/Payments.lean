import ElektronPool.Pplns.PayoutScheduler

/-!
# Which ledger rows a transaction pays

A payout cycle carries rows it has read and not yet paid (`reading`), then rows it has paid
and not yet marked (`unmarked`). A row is paid twice when a cycle reads it although another
cycle carries it or an earlier transaction paid it: the first happens when cycles overlap,
the second when a payment was made and its rows stayed PENDING. Without either, no run
pays a row twice (`paidAtMostOnce_of_apart`), and no miner gets more than its credits
(`totalSent_le_of_apart`).
-/

namespace ElektronPool.Pplns
set_option autoImplicit false
open Async Js

/-! ## What a cycle carries -/

namespace PayoutCycle

/-- The candidates a cycle has read and may still pay. -/
def reading : PayoutCycle → List PendingPayoutCandidate
  | .overrides cs | .balance cs | .unlock cs | .send cs | .sendFallback cs => cs
  | _ => []

/-- The candidates a cycle has paid and still has to mark. -/
def unmarked : PayoutCycle → List PendingPayoutCandidate
  | .lock cs (some _) => cs
  | .mark _ c rest => c :: rest
  | _ => []

@[simp] theorem reading_nextMark (txid : String) (cs : List PendingPayoutCandidate) :
    (nextMark txid cs).reading = [] := by cases cs <;> rfl

@[simp] theorem unmarked_nextMark (txid : String) (cs : List PendingPayoutCandidate) :
    (nextMark txid cs).unmarked = cs := by cases cs <;> rfl

@[simp] theorem unmarked_lock (cs : List PendingPayoutCandidate) (result : Option String) :
    (lock cs result).unmarked = if result.isSome then cs else [] := by cases result <;> rfl

@[simp] theorem reading_afterSend (cs : List PendingPayoutCandidate) (result : Option String) :
    (afterSend cs result).reading = [] := by
  cases result with
  | none => rfl
  | some txid => exact reading_nextMark txid cs

@[simp] theorem unmarked_afterSend (cs : List PendingPayoutCandidate) (result : Option String) :
    (afterSend cs result).unmarked = if result.isSome then cs else [] := by
  cases result with
  | none => rfl
  | some txid => exact unmarked_nextMark txid cs

@[simp] theorem reading_settle (settings : Settings) (cs : List PendingPayoutCandidate) (result : Option String) :
    (settle settings cs result).reading = [] := by
  unfold settle
  split
  · rfl
  · exact reading_afterSend ..

@[simp] theorem unmarked_settle (settings : Settings) (cs : List PendingPayoutCandidate) (result : Option String) :
    (settle settings cs result).unmarked = if result.isSome then cs else [] := by
  unfold settle
  split
  · exact unmarked_lock ..
  · exact unmarked_afterSend ..

end PayoutCycle

namespace Call

def reading : Call → List PendingPayoutCandidate
  | .cycle call => call.reading
  | _ => []

def unmarked : Call → List PendingPayoutCandidate
  | .cycle call => call.unmarked
  | _ => []

@[simp] theorem reading_cycle (call : PayoutCycle) : (cycle call).reading = call.reading := rfl

@[simp] theorem unmarked_cycle (call : PayoutCycle) : (cycle call).unmarked = call.unmarked := rfl

/-- The ledger rows behind what the call carries. -/
def heldIds (t : Call) : List ℕ := (t.reading ++ t.unmarked).flatMap (·.rowIds)

/-- The rows the call reads if it goes on now. -/
def readIds (s : PplnsState) : Call → List ℕ
  | .cycle (.totals matureUpTo) => (s.ledger.getMaturePendingTotals matureUpTo).flatMap (·.rowIds)
  | _ => []

end Call

/-- The wallet did what the answer says. -/
def Answer.faithful : Answer → Bool
  | .lost .. => false
  | _ => true

/-- Every step of a call but the reading, paying and marking ones. -/
structure Quiet (s s' : PplnsState) (t t' : Call) : Prop where
  transactions : s'.transactions = s.transactions
  ledger : s.ledger.Later s'.ledger
  reading : t'.reading.Sublist t.reading
  unmarked : t'.unmarked = t.unmarked

/-- What an answer makes of a call, as far as payments go. -/
inductive PaymentStep (s : PplnsState) : Call → Answer → PplnsState → Call → Prop
  | quiet {t t' : Call} {a : Answer} {s' : PplnsState} (quiet : Quiet s s' t t') : PaymentStep s t a s' t'
  | read {matureUpTo : ℤ} {t' : Call} (reading : t'.reading = s.ledger.getMaturePendingTotals matureUpTo)
      (unmarked : t'.unmarked = []) : PaymentStep s (.cycle (.totals matureUpTo)) .executed s t'
  | pay {t t' : Call} {cs : List PendingPayoutCandidate} {txid : String} {fee : ℤ} (before : t.reading = cs)
      (nothing : t.unmarked = []) (after : t'.reading = []) (unmarked : t'.unmarked = cs) :
      PaymentStep s t (.sent txid fee) (s.sendMany cs txid fee) t'
  | lost {t t' : Call} {a : Answer} {s' : PplnsState} (unfaithful : a.faithful = false) : PaymentStep s t a s' t'
  | mark {txid : String} {c : PendingPayoutCandidate} {rest : List PendingPayoutCandidate} {t' : Call}
      (reading : t'.reading = []) (unmarked : t'.unmarked = rest) :
      PaymentStep s (.cycle (.mark txid c rest)) .executed
        { s with ledger := s.ledger.markSentUpTo c.minerAddress c.maxRowId txid } t'
  | markFailed {txid : String} {c : PendingPayoutCandidate} {rest : List PendingPayoutCandidate} {t' : Call} :
      PaymentStep s (.cycle (.mark txid c rest)) .dbError s t'

theorem PaymentStep.still {s : PplnsState} {t t' : Call} {a : Answer} (reading : t'.reading.Sublist t.reading)
    (unmarked : t'.unmarked = t.unmarked) : PaymentStep s t a s t' :=
  .quiet ⟨rfl, .refl _, reading, unmarked⟩

theorem RewardCall.later {settings : Settings} {s s' : PplnsState} {t t' : RewardCall} {a : Answer}
    (resumed : t.resume settings s a = some (s', t')) :
    s'.transactions = s.transactions ∧ s.ledger.Later s'.ledger := by
  unfold RewardCall.resume at resumed
  split at resumed <;> cases resumed
  case h_2 => exact ⟨rfl, PayoutLedger.later_credit ..⟩
  all_goals exact ⟨rfl, .refl _⟩

theorem Reconciliation.later {settings : Settings} {s s' : PplnsState} {t t' : Reconciliation} {a : Answer}
    (resumed : t.resume settings s a = some (s', t')) :
    s'.transactions = s.transactions ∧ s.ledger.Later s'.ledger := by
  unfold Reconciliation.resume at resumed
  split at resumed <;> cases resumed
  case h_5 => exact ⟨rfl, PayoutLedger.later_update _ (keepsCredit_markConfirmed ..)⟩
  all_goals exact ⟨rfl, .refl _⟩

theorem PayoutCycle.paymentStep {settings : Settings} {s s' : PplnsState} {t t' : PayoutCycle} {a : Answer}
    (resumed : t.resume settings s a = some (s', t')) : PaymentStep s (.cycle t) a s' (.cycle t') := by
  unfold PayoutCycle.resume at resumed
  split at resumed <;> cases resumed
  case h_3 => -- the read
    apply PaymentStep.read
    · rw [Call.reading_cycle]
      split
      · exact Eq.symm ‹_›
      · rfl
    · rw [Call.unmarked_cycle]
      split <;> rfl
  case h_5 => -- candidates below their threshold are dropped
    apply PaymentStep.still
    · rw [Call.reading_cycle]
      split
      · exact List.nil_sublist _
      · exact List.filter_sublist
    · rw [Call.unmarked_cycle]
      split <;> rfl
  case h_7 => -- the balance check
    apply PaymentStep.still
    · rw [Call.reading_cycle]
      split
      · exact List.nil_sublist _
      · split <;> exact List.Sublist.refl _
    · rw [Call.unmarked_cycle]
      split
      · rfl
      · split <;> rfl
  case h_12 => -- sendmany threw: perhaps a second try
    apply PaymentStep.still
    · rw [Call.reading_cycle, retry]
      split
      · exact List.Sublist.refl _
      · rw [reading_settle]
        exact List.nil_sublist _
    · rw [Call.unmarked_cycle, retry]
      split
      · rfl
      · rw [unmarked_settle]
        rfl
  case h_11 | h_14 => exact .pay rfl rfl (reading_settle ..) (unmarked_settle ..)
  case h_13 | h_16 => exact .lost rfl
  case h_15 => exact .still (by simp) (unmarked_settle ..)
  case h_17 | h_18 => exact .still (by simp) (by simp)
  case h_19 => exact .mark (reading_nextMark ..) (unmarked_nextMark ..)
  case h_20 => exact .markFailed
  case h_9 => exact .still (.refl _) rfl
  all_goals exact .still (List.nil_sublist _) rfl

/-- What any call does, as far as payments go. -/
theorem Call.paymentStep {settings : Settings} {s s' : PplnsState} {t t' : Call} {a : Answer}
    (resumed : t.resume settings s a = some (s', t')) : PaymentStep s t a s' t' := by
  cases Call.resumed_of_resume resumed with
  | reward step =>
    have effect := RewardCall.later step
    exact .quiet ⟨effect.1, effect.2, List.nil_sublist _, rfl⟩
  | cycle step => exact PayoutCycle.paymentStep step
  | reconcile step =>
    have effect := Reconciliation.later step
    exact .quiet ⟨effect.1, effect.2, List.nil_sublist _, rfl⟩
  | record | prune => exact .quiet ⟨rfl, .refl _, List.nil_sublist _, rfl⟩

/-! ## What a candidate is worth -/

/-- A candidate as the query made it: rows of one miner up to `maxRowId`, and their sum. -/
structure Backed (L : PayoutLedger) (c : PendingPayoutCandidate) : Prop where
  rows : ∀ i ∈ c.rowIds, ∃ r ∈ L.rows, r.id = i ∧ r.minerAddress = c.minerAddress
  upTo : ∀ i ∈ c.rowIds, i ≤ c.maxRowId
  nodup : c.rowIds.Nodup
  total : c.totalPendingSats = sumSats (L.paidRows c.minerAddress c.rowIds)

theorem Backed.later {L L' : PayoutLedger} {c : PendingPayoutCandidate} (backed : Backed L c)
    (later : L.Later L') : Backed L' c where
  rows i member := by
    obtain ⟨r, inRows, id, miner⟩ := backed.rows i member
    obtain ⟨r', inRows', id', miner', -⟩ := later.row inRows
    exact ⟨r', inRows', id'.trans id, miner'.trans miner⟩
  upTo := backed.upTo
  nodup := backed.nodup
  total := by
    rw [backed.total]
    apply (later.sumSats_paidRows c.minerAddress _).symm
    intro i member
    obtain ⟨r, inRows, rfl, -⟩ := backed.rows i member
    exact PayoutLedger.id_le_length inRows

/-- What a GROUP BY over some of the rows yields. -/
theorem backed_groupTotals (L : PayoutLedger) (p : PayoutLedgerEntity → Bool) (miner : String) :
    Backed L (groupTotals (L.rows.filter p) miner) := by
  have group : ∀ r, r ∈ minerGroup (L.rows.filter p) miner ↔ r ∈ L.rows ∧ p r = true ∧ r.minerAddress = miner := by
    intro r
    simp only [minerGroup, List.mem_filter, decide_eq_true_eq, and_assoc]
  constructor
  · intro i member
    obtain ⟨r, inGroup, rfl⟩ := List.mem_map.mp member
    obtain ⟨inRows, -, same⟩ := (group r).mp inGroup
    exact ⟨r, inRows, rfl, same⟩
  · intro i member
    obtain ⟨r, inGroup, rfl⟩ := List.mem_map.mp member
    exact le_maxId inGroup
  · exact L.nodup_ids.sublist ((List.filter_sublist.trans List.filter_sublist).map _)
  · -- an id belongs to one row only, so selecting by the ids of the group selects the group
    show sumSats (minerGroup (L.rows.filter p) miner) =
      sumSats (L.paidRows miner ((minerGroup (L.rows.filter p) miner).map (·.id)))
    congr 1
    conv_lhs => rw [minerGroup, List.filter_filter]
    apply List.filter_congr
    intro r inRows
    rw [Bool.eq_iff_iff]
    simp only [Bool.and_eq_true, decide_eq_true_eq]
    apply and_congr_right
    intro same
    constructor
    · intro selected
      exact List.mem_map_of_mem ((group r).mpr ⟨inRows, selected, same⟩)
    · intro paid
      obtain ⟨r', inGroup, id⟩ := List.mem_map.mp paid
      obtain ⟨inRows', selected, -⟩ := (group r').mp inGroup
      rwa [← PayoutLedger.row_eq inRows' inRows id]

/-- Candidates that were read together: one for each miner. -/
structure BackedAll (L : PayoutLedger) (cs : List PendingPayoutCandidate) : Prop where
  each : ∀ c ∈ cs, Backed L c
  miners : (cs.map (·.minerAddress)).Nodup

namespace BackedAll
variable {L L' : PayoutLedger} {cs cs' : List PendingPayoutCandidate}

theorem nil : BackedAll L [] := ⟨by simp, by simp⟩

theorem sublist (backed : BackedAll L cs) (sub : cs'.Sublist cs) : BackedAll L cs' :=
  ⟨fun c member => backed.each c (sub.subset member), backed.miners.sublist (sub.map _)⟩

theorem later (backed : BackedAll L cs) (later : L.Later L') : BackedAll L' cs :=
  ⟨fun c member => (backed.each c member).later later, backed.miners⟩

theorem read (L : PayoutLedger) (matureUpTo : ℤ) : BackedAll L (L.getMaturePendingTotals matureUpTo) where
  each c member := by
    rw [(mem_groupByMiner.mp member).2]
    exact backed_groupTotals ..
  miners := groupByMiner_nodup _

/-- A row belongs to one candidate. -/
theorem same_miner (backed : BackedAll L cs) {c : PendingPayoutCandidate} (member : c ∈ cs) {r : PayoutLedgerEntity}
    (inRows : r ∈ L.rows) (paid : r.id ∈ c.rowIds) : r.minerAddress = c.minerAddress := by
  obtain ⟨r', inRows', id, miner⟩ := (backed.each c member).rows _ paid
  rw [PayoutLedger.row_eq inRows inRows' id.symm, miner]

theorem nodup_ids (backed : BackedAll L cs) : (cs.flatMap (·.rowIds)).Nodup := by
  rw [List.nodup_flatMap]
  refine ⟨fun c member => (backed.each c member).nodup, ?_⟩
  have apart : cs.Pairwise fun c c' => c.minerAddress ≠ c'.minerAddress := List.pairwise_map.mp backed.miners
  apply apart.imp_of_mem
  intro c c' member member' different i paid paid'
  obtain ⟨r, inRows, rfl, miner⟩ := (backed.each c member).rows i paid
  exact different (miner.symm.trans (backed.same_miner member' inRows paid'))

/-- What `sendmany` sends a miner for these candidates is what its rows among them are worth. -/
theorem sent (backed : BackedAll L cs) (miner : String) :
    ((sendManyAmounts cs).get miner).getD 0 = sumSats (L.paidRows miner (cs.flatMap (·.rowIds))) := by
  have names : (cs.map fun p => (p.minerAddress, p.totalPendingSats)).map Prod.fst = cs.map (·.minerAddress) := by
    rw [List.map_map]
    rfl
  rw [sendManyAmounts_eq backed.miners]
  by_cases present : miner ∈ cs.map (·.minerAddress)
  · obtain ⟨c, member, rfl⟩ := List.mem_map.mp present
    have entry : (c.minerAddress, c.totalPendingSats) ∈ cs.map fun p => (p.minerAddress, p.totalPendingSats) :=
      List.mem_map.mpr ⟨c, member, rfl⟩
    rw [OrderedMap.get_of_mem (names ▸ backed.miners) entry, Option.getD_some, (backed.each c member).total]
    congr 1
    apply List.filter_congr
    intro r inRows
    rw [decide_eq_decide]
    apply and_congr_right
    intro mine
    constructor
    · exact fun paid => List.mem_flatMap.mpr ⟨c, member, paid⟩
    · intro paid
      obtain ⟨c', member', paid'⟩ := List.mem_flatMap.mp paid
      have same := (backed.same_miner member' inRows paid').symm.trans mine
      rwa [← List.inj_on_of_nodup_map backed.miners member' member same]
  · have none : L.paidRows miner (cs.flatMap (·.rowIds)) = [] := by
      apply List.filter_eq_nil_iff.mpr
      intro r inRows selected
      obtain ⟨mine, paid⟩ := of_decide_eq_true selected
      obtain ⟨c, member, paid⟩ := List.mem_flatMap.mp paid
      exact present (List.mem_map.mpr ⟨c, member, (backed.same_miner member inRows paid).symm.trans mine⟩)
    rw [none, OrderedMap.get_eq_none (names ▸ present)]
    rfl

end BackedAll

/-! ## No row is paid twice -/

/-- The rows behind every transaction, as often as they are paid. -/
def PplnsState.paidIds (s : PplnsState) : List ℕ := s.transactions.flatMap (·.rowIds)

/-- Every ledger row is paid by at most one transaction. -/
def PaidAtMostOnce (s : PplnsState) : Prop := s.paidIds.Nodup

instance : DecidablePred PaidAtMostOnce := fun s => inferInstanceAs (Decidable s.paidIds.Nodup)

/-- The condition: the wallet did what it says, rows that were paid get marked, and no call
reads a row another one carries. -/
def Apart (s : PplnsState) (others : List Call) (t : Call) (a : Answer) : Prop :=
  a.faithful = true ∧ (a = .dbError → t.unmarked = []) ∧
    (a = .executed → ∀ i ∈ t.readIds s, ∀ u ∈ others, i ∉ u.heldIds)

instance (s : PplnsState) (others : List Call) (t : Call) (a : Answer) : Decidable (Apart s others t a) :=
  inferInstanceAs (Decidable (_ ∧ _ ∧ _))

/-- What the tables and the wallet satisfy between two awaits. -/
structure Sound (s : PplnsState) : Prop where
  once : PaidAtMostOnce s
  known : ∀ i ∈ s.paidIds, i ≤ s.ledger.rows.length
  amounts : ∀ t ∈ s.transactions, ∀ m, (t.amounts.get m).getD 0 = sumSats (s.ledger.paidRows m t.rowIds)

/-- What a call satisfies while it waits. -/
structure Carries (s : PplnsState) (t : Call) : Prop where
  reading : BackedAll s.ledger t.reading
  unmarked : BackedAll s.ledger t.unmarked
  fresh : ∀ i ∈ t.reading.flatMap (·.rowIds), i ∉ s.paidIds

/-- The outline of all calls: no two carry the same row. -/
def payments : Outline PplnsState Call where
  shared := Sound
  call := Carries
  pair _ t u := t.heldIds.Disjoint u.heldIds
  symm _ _ _ apart := apart.symm

/-- A paid row that is still PENDING is about to be marked. -/
def Settled (p : Services) : Prop :=
  ∀ i ∈ p.shared.paidIds, p.shared.ledger.Pending i → ∃ t ∈ p.calls, i ∈ t.unmarked.flatMap (·.rowIds)

theorem mem_flatMap_ids {cs : List PendingPayoutCandidate} {L : PayoutLedger} (backed : BackedAll L cs) {i : ℕ}
    (member : i ∈ cs.flatMap (·.rowIds)) : ∃ c ∈ cs, i ∈ c.rowIds ∧ ∃ r ∈ L.rows, r.id = i ∧
      r.minerAddress = c.minerAddress := by
  obtain ⟨c, inCs, paid⟩ := List.mem_flatMap.mp member
  exact ⟨c, inCs, paid, (backed.each c inCs).rows i paid⟩

theorem flatMap_sublist {cs cs' : List PendingPayoutCandidate} (sub : cs'.Sublist cs) {i : ℕ}
    (member : i ∈ cs'.flatMap (·.rowIds)) : i ∈ cs.flatMap (·.rowIds) := by
  obtain ⟨c, inCs, paid⟩ := List.mem_flatMap.mp member
  exact List.mem_flatMap.mpr ⟨c, sub.subset inCs, paid⟩

/-- A resumption that makes no payment, and after which the call carries no more than before. -/
theorem stable_of_sublist {s s' : PplnsState} {t t' : Call} {others : List Call} (sound : Sound s)
    (own : Carries s t) (beside : ∀ u ∈ others, Carries s u ∧ t.heldIds.Disjoint u.heldIds)
    (transactions : s'.transactions = s.transactions) (later : s.ledger.Later s'.ledger)
    (reading : t'.reading.Sublist t.reading) (unmarked : t'.unmarked.Sublist t.unmarked) :
    payments.Stable s s' t t' others := by
  have paid : s'.paidIds = s.paidIds := by rw [PplnsState.paidIds, transactions]; rfl
  have worth : ∀ t ∈ s.transactions, ∀ i ∈ t.rowIds, i ≤ s.ledger.rows.length := fun t member i inIds =>
    sound.known i (List.mem_flatMap.mpr ⟨t, member, inIds⟩)
  constructor
  · refine ⟨by rw [PaidAtMostOnce, paid]; exact sound.once, ?_, ?_⟩
    · rw [paid]
      exact fun i member => (sound.known i member).trans later.length_le
    · rw [transactions]
      intro t member m
      rw [sound.amounts t member m, later.sumSats_paidRows m (worth t member)]
  · refine ⟨(own.reading.sublist reading).later later, (own.unmarked.sublist unmarked).later later, ?_⟩
    rw [paid]
    exact fun i member => own.fresh i (flatMap_sublist reading member)
  · intro u member
    obtain ⟨carries, -⟩ := beside u member
    exact ⟨carries.reading.later later, carries.unmarked.later later, by rw [paid]; exact carries.fresh⟩
  · intro u member i held held'
    exact (beside u member).2 (flatMap_sublist (reading.append unmarked) held) held'
  · exact fun _ _ _ _ apart => apart

/-- A payment: the rows the call carried are paid, and it carries them on to the marking. -/
theorem stable_of_payment {s : PplnsState} {t t' : Call} {others : List Call} {txid : String} {fee : ℤ}
    (sound : Sound s) (own : Carries s t) (beside : ∀ u ∈ others, Carries s u ∧ t.heldIds.Disjoint u.heldIds)
    (after : t'.reading = []) (unmarked : t'.unmarked = t.reading) :
    payments.Stable s (s.sendMany t.reading txid fee) t t' others := by
  have paid : (s.sendMany t.reading txid fee).paidIds = s.paidIds ++ t.reading.flatMap (·.rowIds) := by
    simp [PplnsState.paidIds, PplnsState.sendMany]
  have held : ∀ i ∈ t.reading.flatMap (·.rowIds), i ∈ t.heldIds := fun i member =>
    flatMap_sublist (List.sublist_append_left ..) member
  constructor
  · refine ⟨?_, ?_, ?_⟩
    · rw [PaidAtMostOnce, paid]
      refine List.nodup_append.mpr ⟨sound.once, own.reading.nodup_ids, ?_⟩
      rintro i old _ new rfl
      exact own.fresh i new old
    · rw [paid]
      intro i member
      rcases List.mem_append.mp member with old | new
      · exact sound.known i old
      · obtain ⟨c, -, -, r, inRows, rfl, -⟩ := mem_flatMap_ids own.reading new
        exact PayoutLedger.id_le_length inRows
    · intro tx member m
      rcases List.mem_append.mp member with old | new
      · exact sound.amounts tx old m
      · rw [List.mem_singleton.mp new]
        exact own.reading.sent m
  · refine ⟨after ▸ .nil, unmarked ▸ own.reading, ?_⟩
    rw [after]
    simp
  · intro u member
    obtain ⟨carries, apart⟩ := beside u member
    refine ⟨carries.reading, carries.unmarked, ?_⟩
    rw [paid]
    intro i mine member
    rcases List.mem_append.mp member with old | new
    · exact carries.fresh i mine old
    · exact apart (held i new) (flatMap_sublist (List.sublist_append_left ..) mine)
  · intro u member i mine theirs
    rw [Call.heldIds, after, unmarked, List.nil_append] at mine
    exact (beside u member).2 (held i mine) theirs
  · exact fun _ _ _ _ apart => apart

/-- What is read is PENDING. -/
theorem pending_of_read {L : PayoutLedger} {matureUpTo : ℤ} {i : ℕ}
    (member : i ∈ (L.getMaturePendingTotals matureUpTo).flatMap (·.rowIds)) : L.Pending i := by
  obtain ⟨c, inCs, paid⟩ := List.mem_flatMap.mp member
  rw [(mem_groupByMiner.mp inCs).2] at paid
  obtain ⟨r, inGroup, rfl⟩ := List.mem_map.mp paid
  obtain ⟨inRows, selected⟩ := List.mem_filter.mp (List.mem_of_mem_filter inGroup)
  exact ⟨r, inRows, rfl, (of_decide_eq_true selected).1⟩

/-- The marking UPDATE leaves none of the candidate's rows PENDING. -/
theorem not_pending_markSentUpTo {L : PayoutLedger} {c : PendingPayoutCandidate} {txid : String} (backed : Backed L c)
    {i : ℕ} (paid : i ∈ c.rowIds) : ¬ (L.markSentUpTo c.minerAddress c.maxRowId txid).Pending i := by
  rintro ⟨r', member, id', pending⟩
  obtain ⟨r, inRows, rfl⟩ := List.mem_map.mp member
  have id : r.id = i := ((keepsCredit_markSent ..).id r).symm.trans id'
  obtain ⟨r₀, inRows₀, id₀, miner⟩ := backed.rows i paid
  obtain rfl := PayoutLedger.row_eq inRows inRows₀ (id.trans id₀.symm)
  have upTo : r.id ≤ c.maxRowId := id ▸ backed.upTo i paid
  unfold PayoutLedgerEntity.markSent at pending
  split at pending
  · cases pending
  · rename_i unclaimed
    exact unclaimed ⟨miner, upTo, pending⟩

/-- A call that begins carries nothing. -/
theorem carries_entry (s : PplnsState) {t : Call} (entry : t.isEntry = true) :
    Carries s t ∧ t.heldIds = [] := by
  unfold Call.isEntry at entry
  split at entry
  any_goals exact ⟨⟨.nil, .nil, by simp [Call.reading, PayoutCycle.reading]⟩, rfl⟩
  cases entry

section
variable {settings : Settings} {p p' : Services} {e : ServiceEvent}

theorem payments_step (holds : payments.Holds p) (settled : Settled p)
    (allowed : Pool.Allowed (fun _ _ => True) Apart p e) (moved : Services.step settings p e = some p') :
    payments.Holds p' := by
  refine holds.step ?_ ?_ moved
  · intro t _ entry
    obtain ⟨carries, nothing⟩ := carries_entry p.shared entry
    refine ⟨carries, fun u _ => ?_⟩
    show t.heldIds.Disjoint u.heldIds
    rw [nothing]
    exact List.disjoint_nil_left _
  · rintro before t after a s' t' rfl calls resumed own beside
    obtain ⟨faithful, marks, apart⟩ := allowed.continues calls
    cases Call.paymentStep resumed with
    | quiet quiet =>
      exact stable_of_sublist holds.shared own beside quiet.transactions quiet.ledger quiet.reading
        (quiet.unmarked ▸ .refl _)
    | @read matureUpTo t' reading unmarked =>
      refine ⟨holds.shared, ⟨reading ▸ .read _ _, unmarked ▸ .nil, ?_⟩, fun u member => (beside u member).1, ?_,
        fun _ _ _ _ apart => apart⟩
      · -- a paid row that is PENDING is carried by another call, and such a row is not read
        intro i member paid
        rw [reading] at member
        obtain ⟨u, inCalls, held⟩ := settled i paid (pending_of_read member)
        rw [calls] at inCalls
        have cases : u ∈ before ++ after ∨ u = .cycle (.totals matureUpTo) := by
          simp only [List.mem_append, List.mem_cons] at inCalls ⊢
          tauto
        rcases cases with other | rfl
        · exact apart rfl i member u other (flatMap_sublist (List.sublist_append_right ..) held)
        · cases held
      · intro u member i mine theirs
        rw [Call.heldIds, reading, unmarked, List.append_nil] at mine
        exact apart rfl i mine u member theirs
    | pay before nothing after unmarked =>
      subst before
      exact stable_of_payment holds.shared own beside after unmarked
    | lost unfaithful => exact absurd faithful (by simp [unfaithful])
    | mark reading unmarked =>
      apply stable_of_sublist holds.shared own beside
      · rfl
      · exact PayoutLedger.later_update _ (keepsCredit_markSent ..)
      · exact reading ▸ List.nil_sublist _
      · exact unmarked ▸ List.sublist_cons_self ..
    | markFailed => cases marks rfl

theorem settled_step (holds : payments.Holds p) (settled : Settled p)
    (allowed : Pool.Allowed (fun _ _ => True) Apart p e) (moved : Services.step settings p e = some p') :
    Settled p' := by
  obtain ⟨t, -, -, rfl⟩ | ⟨before, t, after, a, s', t', rfl, calls, resumed, rfl⟩ := Pool.step_cases moved
  · intro i paid pending
    obtain ⟨u, member, held⟩ := settled i paid pending
    exact ⟨u, List.mem_append_left _ member, held⟩
  obtain ⟨faithful, marks, -⟩ := allowed.continues calls
  have own : Carries p.shared t := holds.calls t (by simp [calls])
  -- a row another call still has to mark is no matter; one of this call's rows is looked at below
  have split_calls : ∀ i, i ∈ p.shared.paidIds → p.shared.ledger.Pending i →
      (∃ u ∈ before ++ t' :: after, i ∈ u.unmarked.flatMap (·.rowIds)) ∨ i ∈ t.unmarked.flatMap (·.rowIds) := by
    intro i paid pending
    obtain ⟨u, member, held⟩ := settled i paid pending
    rw [calls] at member
    rcases List.mem_append.mp member with left | right
    · exact .inl ⟨u, List.mem_append_left _ left, held⟩
    · rcases List.mem_cons.mp right with rfl | right
      · exact .inr held
      · exact .inl ⟨u, List.mem_append_right _ (List.mem_cons_of_mem _ right), held⟩
  have mine : t' ∈ before ++ t' :: after := by simp
  intro i paid pending
  cases Call.paymentStep resumed with
  | quiet quiet =>
    have old : i ∈ p.shared.paidIds := by rwa [PplnsState.paidIds, ← quiet.transactions]
    rcases split_calls i old (quiet.ledger.pending (holds.shared.known i old) pending) with found | held
    · exact found
    · exact ⟨t', mine, by rwa [quiet.unmarked]⟩
  | read reading unmarked =>
    rcases split_calls i paid pending with found | held
    · exact found
    · cases held
  | @pay _ _ cs _ _ reading nothing after unmarked =>
    have either : i ∈ p.shared.paidIds ∨ i ∈ cs.flatMap (·.rowIds) := by
      simpa [PplnsState.paidIds, PplnsState.sendMany] using paid
    rcases either with old | new
    · rcases split_calls i old pending with found | held
      · exact found
      · rw [nothing] at held
        cases held
    · exact ⟨t', mine, by rwa [unmarked]⟩
  | lost unfaithful => exact absurd faithful (by simp [unfaithful])
  | @mark txid c rest _ reading unmarked =>
    have later := PayoutLedger.later_update p.shared.ledger (keepsCredit_markSent c.minerAddress c.maxRowId txid)
    rcases split_calls i paid (later.pending (holds.shared.known i paid) pending) with found | held
    · exact found
    · have either : i ∈ c.rowIds ∨ i ∈ rest.flatMap (·.rowIds) := by
        simpa [Call.unmarked, PayoutCycle.unmarked] using held
      rcases either with marked | rest
      · exact absurd pending (not_pending_markSentUpTo (own.unmarked.each c List.mem_cons_self) marked)
      · exact ⟨t', mine, by rwa [unmarked]⟩
  | markFailed => cases marks rfl

/-- Every state reached while wallet and marking work and no call reads a row that another one
carries. -/
theorem payments_run (run : Reaches (Services.step settings) (Pool.Allowed (fun _ _ => True) Apart) ⟨.empty, []⟩ p) :
    payments.Holds p ∧ Settled p := by
  apply run.invariant
  · refine ⟨⟨⟨List.nodup_nil, ?_, ?_⟩, by simp, .nil⟩, ?_⟩
    · simp [PplnsState.paidIds, PplnsState.empty]
    · simp [PplnsState.empty]
    · intro i paid
      cases paid
  · rintro p e p' ⟨holds, settled⟩ allowed moved
    exact ⟨payments_step holds settled allowed moved, settled_step holds settled allowed moved⟩

/-- **No run pays a row twice** in which wallet and marking work and no call reads a row
that another one carries. -/
theorem sound_run (run : Reaches (Services.step settings) (Pool.Allowed (fun _ _ => True) Apart) ⟨.empty, []⟩ p) :
    Sound p.shared :=
  (payments_run run).1.shared

/-- A miner is sent at most what was credited to it. -/
theorem Sound.totalSent_le {s : PplnsState} (sound : Sound s) (m : String) :
    s.totalSent m ≤ s.ledger.totalCredited m := by
  have ids : (s.transactions.map (·.rowIds)).flatten.Nodup := sound.once
  calc s.totalSent m = ((s.transactions.map (·.rowIds)).map fun ids => sumSats (s.ledger.paidRows m ids)).sum := by
        rw [PplnsState.totalSent, List.map_map]
        congr 1
        exact List.map_congr_left fun t member => sound.amounts t member m
    _ ≤ s.ledger.totalCredited m := s.ledger.sum_paidRows_le m ids

end

/-! ## Overlapping cycles -/

/-- **Cycles that do not read each other's rows** never pay a row twice, however they
interleave with each other, with reward credits and with reconciliation. -/
theorem paidAtMostOnce_of_apart {settings : Settings} {p : Services}
    (run : Reaches (Services.step settings) (Pool.Allowed (fun _ _ => True) Apart) ⟨.empty, []⟩ p) :
    PaidAtMostOnce p.shared :=
  (sound_run run).once

/-- A row of 200000 lep is credited, read, paid and marked. -/
theorem paidAtMostOnce_of_apart_payment : ∃ p : Services, p.shared.paidIds = [1] ∧ PaidAtMostOnce p.shared := by
  obtain ⟨p, run, paid⟩ := exists_reaches (Services.step .defaults) (Pool.Allowed (fun _ _ => True) Apart)
    ⟨.empty, []⟩
    [.start (.record ⟨"a", 1, 0, 7⟩), .resume 0 .executed,
      .start (.reward (.processBlockFound .defaults 0 7 200000)), .resume 1 .executed, .resume 1 .executed,
      .start (.cycle .miningInfo), .resume 2 (.miningInfo (some 106)), .resume 2 .executed, .resume 2 (.overrides []),
      .resume 2 (.balance 200000), .resume 2 (.sent "t" 0), .resume 2 .executed, .resume 2 .executed]
    (fun p => p.shared.paidIds = [1]) (by decide +kernel)
  exact ⟨p, paid, paidAtMostOnce_of_apart run⟩

/-- Two timer ticks overlap: both cycles read the row before either has marked it, and both
pay it. -/
theorem not_paidAtMostOnce_overlapping : ¬ ∀ (settings : Settings) (p : Services),
    Reaches (Services.step settings)
      (Pool.Allowed (fun _ _ => True) fun _ _ _ a => a.faithful = true ∧ a ≠ .dbError) ⟨.empty, []⟩ p →
    PaidAtMostOnce p.shared := by
  intro claim
  obtain ⟨p, run, twice⟩ := exists_reaches (Services.step .defaults)
    (Pool.Allowed (fun _ _ => True) fun _ _ _ a => a.faithful = true ∧ a ≠ .dbError) ⟨.empty, []⟩
    [.start (.record ⟨"a", 1, 0, 7⟩), .resume 0 .executed,
      .start (.reward (.processBlockFound .defaults 0 7 200000)), .resume 1 .executed, .resume 1 .executed,
      .start (.cycle .miningInfo), .resume 2 (.miningInfo (some 106)), .resume 2 .executed, .resume 2 (.overrides []),
      .start (.cycle .miningInfo), .resume 3 (.miningInfo (some 106)), .resume 3 .executed, .resume 3 (.overrides []),
      .resume 2 (.balance 400000), .resume 2 (.sent "t" 0), .resume 3 (.balance 200000), .resume 3 (.sent "u" 0)]
    (fun p => ¬ PaidAtMostOnce p.shared) (by decide +kernel)
  exact twice (claim .defaults p run)

/-! ## Cycles one after another -/

def PayoutCycle.ended : PayoutCycle → Bool
  | .returned _ | .rejected _ => true
  | _ => false

/-- A call other than a payout cycle, or a cycle that has ended. -/
def Call.notCycling : Call → Bool
  | .cycle call => call.ended
  | _ => true

/-- A cycle begins when every earlier one has ended. -/
def OneAfterAnother (calls : List Call) (t : Call) : Prop :=
  t = .cycle .miningInfo → ∀ u ∈ calls, u.notCycling = true

instance (calls : List Call) (t : Call) : Decidable (OneAfterAnother calls t) := inferInstanceAs (Decidable (_ → _))

/-- No payment is made behind an exception, and no marking UPDATE fails. -/
def PaymentsAreMarked (t : Call) (a : Answer) : Prop := a.faithful = true ∧ (a = .dbError → t.unmarked = [])

instance (t : Call) (a : Answer) : Decidable (PaymentsAreMarked t a) := inferInstanceAs (Decidable (_ ∧ _))

/-- At most one cycle is under way. -/
def oneCycle : Outline PplnsState Call where
  shared _ := True
  call _ _ := True
  pair _ t u := t.notCycling = true ∨ u.notCycling = true
  symm _ _ _ either := either.symm

theorem PayoutCycle.resume_ended {settings : Settings} {s : PplnsState} {t : PayoutCycle} {a : Answer}
    (ended : t.ended = true) : t.resume settings s a = none := by
  cases t with
  | returned => rfl
  | rejected => rfl
  | _ => cases ended

theorem notCycling_resume {settings : Settings} {s s' : PplnsState} {t t' : Call} {a : Answer}
    (ended : t.notCycling = true) (resumed : t.resume settings s a = some (s', t')) : t'.notCycling = true := by
  cases Call.resumed_of_resume resumed with
  | cycle step =>
    rw [PayoutCycle.resume_ended ended] at step
    cases step
  | _ => rfl

theorem heldIds_of_notCycling {t : Call} (ended : t.notCycling = true) : t.heldIds = [] := by
  cases t with
  | cycle call =>
    cases call with
    | returned => rfl
    | rejected => rfl
    | _ => cases ended
  | _ => rfl

theorem oneCycle_step {settings : Settings} {p p' : Services} {e : ServiceEvent} (holds : oneCycle.Holds p)
    (allowed : Pool.Allowed OneAfterAnother (fun _ _ => PaymentsAreMarked) p e)
    (moved : Services.step settings p e = some p') : oneCycle.Holds p' := by
  refine holds.step ?_ ?_ moved
  · rintro t rfl entry
    refine ⟨trivial, fun u member => ?_⟩
    by_cases cycle : t = .cycle .miningInfo
    · exact .inr (allowed cycle u member)
    · apply Or.inl
      cases t with
      | cycle call =>
        cases call with
        | miningInfo => exact absurd rfl cycle
        | _ => cases entry
      | _ => rfl
  · rintro before t after a s' t' - - resumed - beside
    refine ⟨trivial, trivial, fun _ _ => trivial, fun u member => ?_, fun _ _ _ _ pair => pair⟩
    rcases (beside u member).2 with mine | theirs
    · exact .inl (notCycling_resume mine resumed)
    · exact .inr theirs

/-- Cycles one after another do not read each other's rows. -/
theorem apart_of_oneCycle {p : Services} {e : ServiceEvent} (holds : oneCycle.Holds p)
    (allowed : Pool.Allowed OneAfterAnother (fun _ _ => PaymentsAreMarked) p e) :
    Pool.Allowed (fun _ _ => True) Apart p e := by
  cases e with
  | start t => trivial
  | resume k a =>
    intro t at_k
    obtain ⟨faithful, marks⟩ := allowed t at_k
    refine ⟨faithful, marks, ?_⟩
    rintro rfl i read u member held
    rcases holds.beside at_k u member with mine | theirs
    · cases t with
      | cycle call =>
        cases call with
        | totals => cases mine
        | _ => cases read
      | _ => cases read
    · rw [heldIds_of_notCycling theirs] at held
      cases held

/-- **Cycles one after another** send a miner at most its credits, and pay no row twice, as
long as every payment is heard of and marked. -/
theorem totalSent_le_of_marked {settings : Settings} {p : Services}
    (run : Reaches (Services.step settings) (Pool.Allowed OneAfterAnother fun _ _ => PaymentsAreMarked)
      ⟨.empty, []⟩ p) :
    (∀ m, p.shared.totalSent m ≤ p.shared.ledger.totalCredited m) ∧ PaidAtMostOnce p.shared := by
  have apart := run.weaken oneCycle.Holds ⟨trivial, by simp, .nil⟩
    (fun _ _ _ holds allowed moved => oneCycle_step holds allowed moved)
    (fun _ _ holds allowed => apart_of_oneCycle holds allowed)
  have sound := sound_run apart.1
  exact ⟨sound.totalSent_le, sound.once⟩

/-- Two cycles in a row: the first pays 200000 lep, the second what was credited since. -/
theorem totalSent_le_of_marked_two_cycles : ∃ p : Services, p.shared.totalSent "a" = 500000 ∧
    p.shared.totalSent "a" ≤ p.shared.ledger.totalCredited "a" := by
  obtain ⟨p, run, sent⟩ := exists_reaches (Services.step .defaults)
    (Pool.Allowed OneAfterAnother fun _ _ => PaymentsAreMarked) ⟨.empty, []⟩
    [.start (.record ⟨"a", 1, 0, 7⟩), .resume 0 .executed,
      .start (.reward (.processBlockFound .defaults 0 7 200000)), .resume 1 .executed, .resume 1 .executed,
      .start (.cycle .miningInfo), .resume 2 (.miningInfo (some 106)), .resume 2 .executed, .resume 2 (.overrides []),
      .resume 2 (.balance 200000), .resume 2 (.sent "t" 0), .resume 2 .executed, .resume 2 .executed,
      .start (.reward (.processBlockFound .defaults 0 8 300000)), .resume 3 .executed, .resume 3 .executed,
      .start (.cycle .miningInfo), .resume 4 (.miningInfo (some 107)), .resume 4 .executed, .resume 4 (.overrides []),
      .resume 4 (.balance 300000), .resume 4 (.sent "u" 0), .resume 4 .executed, .resume 4 .executed]
    (fun p => p.shared.totalSent "a" = 500000) (by decide +kernel)
  exact ⟨p, sent, (totalSent_le_of_marked run).1 "a"⟩

/-- A `sendmany` that took effect and then timed out: its rows stay PENDING, and the next
cycle pays them again. -/
theorem not_totalSent_le_lost_answer : ¬ ∀ (settings : Settings) (p : Services),
    Reaches (Services.step settings) (Pool.Allowed OneAfterAnother fun _ _ _ _ => True) ⟨.empty, []⟩ p →
    (∀ m, p.shared.totalSent m ≤ p.shared.ledger.totalCredited m) ∧ PaidAtMostOnce p.shared := by
  intro claim
  obtain ⟨p, run, more⟩ := exists_reaches (Services.step .defaults)
    (Pool.Allowed OneAfterAnother fun _ _ _ _ => True) ⟨.empty, []⟩
    [.start (.record ⟨"a", 1, 0, 7⟩), .resume 0 .executed,
      .start (.reward (.processBlockFound .defaults 0 7 200000)), .resume 1 .executed, .resume 1 .executed,
      .start (.cycle .miningInfo), .resume 2 (.miningInfo (some 106)), .resume 2 .executed, .resume 2 (.overrides []),
      .resume 2 (.balance 400000), .resume 2 (.lost "t" 0 (some "timeout of 10000ms exceeded")),
      .start (.cycle .miningInfo), .resume 3 (.miningInfo (some 106)), .resume 3 .executed, .resume 3 (.overrides []),
      .resume 3 (.balance 200000), .resume 3 (.sent "u" 0)]
    (fun p => p.shared.ledger.totalCredited "a" < p.shared.totalSent "a") (by decide +kernel)
  exact absurd ((claim .defaults p run).1 "a") (not_le.mpr more)

end ElektronPool.Pplns
