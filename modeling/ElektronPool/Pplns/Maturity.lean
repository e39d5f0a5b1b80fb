import ElektronPool.Pplns.PayoutScheduler

/-!
# A payout cycle beside running reward calls

The cycle sums the rows that are PENDING and mature, then marks the rows that are PENDING
and not newer than the newest of those. `After` is the ledger in between: the rows as they
were read, those of the candidates marked so far SENT, and behind them the credits that
came in meanwhile. At the end both selections can be compared row by row
(`paysWhatItMarks_iff`).
-/

namespace ElektronPool.Pplns
set_option autoImplicit false
open Async Js

/-! ## Marking several candidates -/

/-- `markSentUpTo` claims the row for one of these candidates. -/
def Claimed (done : List PendingPayoutCandidate) (r : PayoutLedgerEntity) : Prop :=
  r.status = .pending ∧ ∃ c ∈ done, r.minerAddress = c.minerAddress ∧ r.id ≤ c.maxRowId

instance (done : List PendingPayoutCandidate) : DecidablePred (Claimed done) :=
  fun _ => inferInstanceAs (Decidable (_ ∧ _))

/-- A row once the candidates `done` are marked. -/
def markedBy (txid : String) (done : List PendingPayoutCandidate) (r : PayoutLedgerEntity) : PayoutLedgerEntity :=
  if Claimed done r then { r with status := .sent, txid := some txid } else r

theorem markedBy_nil (txid : String) (r : PayoutLedgerEntity) : markedBy txid [] r = r := by
  simp [markedBy, Claimed]

theorem claimed_append {done : List PendingPayoutCandidate} {c : PendingPayoutCandidate} {r : PayoutLedgerEntity} :
    Claimed (done ++ [c]) r ↔
      Claimed done r ∨ (r.minerAddress = c.minerAddress ∧ r.id ≤ c.maxRowId ∧ r.status = .pending) := by
  constructor
  · rintro ⟨pending, c', member, selected⟩
    rcases List.mem_append.mp member with old | new
    · exact .inl ⟨pending, c', old, selected⟩
    · rw [List.mem_singleton.mp new] at selected
      exact .inr ⟨selected.1, selected.2, pending⟩
  · rintro (⟨pending, c', member, selected⟩ | ⟨miner, upTo, pending⟩)
    · exact ⟨pending, c', List.mem_append_left _ member, selected⟩
    · exact ⟨pending, c, by simp, miner, upTo⟩

theorem markSent_markedBy (txid : String) (done : List PendingPayoutCandidate) (c : PendingPayoutCandidate)
    (r : PayoutLedgerEntity) :
    (markedBy txid done r).markSent c.minerAddress c.maxRowId txid = markedBy txid (done ++ [c]) r := by
  by_cases before : Claimed done r
  · rw [markedBy, if_pos before, markedBy, if_pos (claimed_append.mpr (.inl before))]
    simp [PayoutLedgerEntity.markSent]
  · by_cases now : r.minerAddress = c.minerAddress ∧ r.id ≤ c.maxRowId ∧ r.status = .pending
    · rw [markedBy, if_neg before, markedBy, if_pos (claimed_append.mpr (.inr now)), PayoutLedgerEntity.markSent,
        if_pos now]
    · have unclaimed : ¬ Claimed (done ++ [c]) r := fun claimed =>
        (claimed_append.mp claimed).elim before now
      rw [markedBy, if_neg before, markedBy, if_neg unclaimed, PayoutLedgerEntity.markSent, if_neg now]

/-- The ledger `L'` when the candidates `done` of a cycle that read `L` are marked: the rows
of `L`, and new PENDING ones. -/
def After (L L' : PayoutLedger) (txid : String) (done : List PendingPayoutCandidate) : Prop :=
  ∃ new, L'.rows = L.rows.map (markedBy txid done) ++ new ∧ ∀ r ∈ new, r.status = .pending

namespace After
variable {L L' : PayoutLedger} {txid : String} {done : List PendingPayoutCandidate}

theorem refl (L : PayoutLedger) (txid : String) : After L L txid [] :=
  ⟨[], by simp [funext (markedBy_nil txid)], by simp⟩

theorem rename (after : After L L' txid []) (txid' : String) : After L L' txid' [] := by
  obtain ⟨new, rows, pending⟩ := after
  refine ⟨new, ?_, pending⟩
  rw [rows]
  congr 1
  apply List.map_congr_left
  intro r _
  rw [markedBy_nil, markedBy_nil]

theorem credit (after : After L L' txid done) (m : String) (a h : ℤ) : After L (L'.credit m a h) txid done := by
  obtain ⟨new, rows, pending⟩ := after
  by_cases nonpositive : a ≤ 0
  · rw [PayoutLedger.credit_of_nonpos nonpositive]
    exact ⟨new, rows, pending⟩
  · refine ⟨new ++ [⟨L'.rows.length + 1, m, h, a, .pending, none⟩], ?_, ?_⟩
    · rw [PayoutLedger.rows_credit_of_pos (not_le.mp nonpositive), rows, List.append_assoc]
    · intro r member
      rcases List.mem_append.mp member with old | new
      · exact pending r old
      · rw [List.mem_singleton.mp new]

/-- The next candidate is marked. Credits that came in later have higher ids. -/
theorem mark (after : After L L' txid done) (c : PendingPayoutCandidate) (upTo : c.maxRowId ≤ L.rows.length) :
    After L (L'.markSentUpTo c.minerAddress c.maxRowId txid) txid (done ++ [c]) := by
  obtain ⟨new, rows, pending⟩ := after
  refine ⟨new, ?_, pending⟩
  rw [PayoutLedger.rows_markSentUpTo, rows, List.map_append, List.map_map]
  congr 1
  · apply List.map_congr_left
    intro r _
    exact markSent_markedBy ..
  · have same : ∀ r ∈ new, r.markSent c.minerAddress c.maxRowId txid = r := by
      intro r member
      have later := PayoutLedger.new_id_gt (L := L) rows (by simp) member
      unfold PayoutLedgerEntity.markSent
      rw [if_neg]
      omega
    rw [List.map_congr_left same, List.map_id']

end After

/-! ## One cycle, from its query to the end of its marking -/

/-- The last transaction of the wallet pays these candidates. -/
def PaidLast (s : PplnsState) (txid : String) (cs : List PendingPayoutCandidate) : Prop :=
  ∃ tx, s.transactions.getLast? = some tx ∧ tx.txid = txid ∧ tx.amounts = sendManyAmounts cs

/-- Where the cycle stands, with respect to the ledger `L` it read. -/
def Phase (L : PayoutLedger) (matureUpTo : ℤ) (s : PplnsState) : PayoutCycle → Prop
  | .overrides cs | .balance cs | .unlock cs | .send cs | .sendFallback cs =>
    cs.Sublist (L.getMaturePendingTotals matureUpTo) ∧ After L s.ledger "" []
  | .lock cs (some txid) =>
    cs.Sublist (L.getMaturePendingTotals matureUpTo) ∧ PaidLast s txid cs ∧ After L s.ledger txid []
  | .mark txid c rest => ∃ done, (done ++ c :: rest).Sublist (L.getMaturePendingTotals matureUpTo) ∧
      PaidLast s txid (done ++ c :: rest) ∧ After L s.ledger txid done
  | .notify txid | .returned (some txid) => ∃ done, done.Sublist (L.getMaturePendingTotals matureUpTo) ∧
      PaidLast s txid done ∧ After L s.ledger txid done
  | .lock _ none | .returned none | .rejected _ => True
  | .miningInfo | .totals _ => False

/-- Everything a phase reads of the state but the ledger. -/
theorem Phase.of_after {L : PayoutLedger} {matureUpTo : ℤ} {s s' : PplnsState} {c : PayoutCycle}
    (phase : Phase L matureUpTo s c) (transactions : s'.transactions = s.transactions)
    (after : ∀ txid done, After L s.ledger txid done → After L s'.ledger txid done) : Phase L matureUpTo s' c := by
  have paid : ∀ txid cs, PaidLast s txid cs → PaidLast s' txid cs := by
    rintro txid cs ⟨tx, last, rest⟩
    exact ⟨tx, transactions ▸ last, rest⟩
  unfold Phase at phase ⊢
  split
  · exact ⟨phase.1, after _ _ phase.2⟩
  · exact ⟨phase.1, after _ _ phase.2⟩
  · exact ⟨phase.1, after _ _ phase.2⟩
  · exact ⟨phase.1, after _ _ phase.2⟩
  · exact ⟨phase.1, after _ _ phase.2⟩
  · exact ⟨phase.1, paid _ _ phase.2.1, after _ _ phase.2.2⟩
  · obtain ⟨done, sub, last, ledger⟩ := phase
    exact ⟨done, sub, paid _ _ last, after _ _ ledger⟩
  · obtain ⟨done, sub, last, ledger⟩ := phase
    exact ⟨done, sub, paid _ _ last, after _ _ ledger⟩
  · obtain ⟨done, sub, last, ledger⟩ := phase
    exact ⟨done, sub, paid _ _ last, after _ _ ledger⟩
  · trivial
  · trivial
  · trivial
  · exact phase
  · exact phase

theorem paidLast_sendMany (s : PplnsState) (cs : List PendingPayoutCandidate) (txid : String) (fee : ℤ) :
    PaidLast (s.sendMany cs txid fee) txid cs :=
  ⟨_, List.getLast?_concat, rfl, rfl⟩

section
variable {L : PayoutLedger} {matureUpTo : ℤ} {s : PplnsState} {cs : List PendingPayoutCandidate}

/-- The marking loop from its beginning on. -/
theorem phase_nextMark {txid : String} {done rest : List PendingPayoutCandidate}
    (sub : (done ++ rest).Sublist (L.getMaturePendingTotals matureUpTo)) (paid : PaidLast s txid (done ++ rest))
    (after : After L s.ledger txid done) : Phase L matureUpTo s (PayoutCycle.nextMark txid rest) := by
  cases rest with
  | nil =>
    rw [List.append_nil] at sub paid
    exact ⟨done, sub, paid, after⟩
  | cons c rest => exact ⟨done, sub, paid, after⟩

theorem phase_afterSend (txid : String) (sub : cs.Sublist (L.getMaturePendingTotals matureUpTo))
    (paid : PaidLast s txid cs) (after : After L s.ledger txid []) :
    Phase L matureUpTo s (PayoutCycle.afterSend cs (some txid)) :=
  phase_nextMark (List.nil_append cs ▸ sub) (List.nil_append cs ▸ paid) after

theorem phase_unlocked {result : Option String} (phase : Phase L matureUpTo s (.lock cs result)) :
    Phase L matureUpTo s (PayoutCycle.afterSend cs result) := by
  cases result with
  | none => trivial
  | some txid => exact phase_afterSend txid phase.1 phase.2.1 phase.2.2

theorem phase_settle (settings : Settings) (txid : String) (sub : cs.Sublist (L.getMaturePendingTotals matureUpTo))
    (paid : PaidLast s txid cs) (after : After L s.ledger txid []) :
    Phase L matureUpTo s (PayoutCycle.settle settings cs (some txid)) := by
  unfold PayoutCycle.settle
  split
  · exact ⟨sub, paid, after⟩
  · exact phase_afterSend txid sub paid after

theorem phase_settle_none (settings : Settings) : Phase L matureUpTo s (PayoutCycle.settle settings cs none) := by
  unfold PayoutCycle.settle
  split <;> trivial

theorem phase_retry (settings : Settings) (message : Option String)
    (sub : cs.Sublist (L.getMaturePendingTotals matureUpTo)) (after : After L s.ledger "" []) :
    Phase L matureUpTo s (PayoutCycle.retry settings cs message) := by
  unfold PayoutCycle.retry
  split
  · exact ⟨sub, after⟩
  · exact phase_settle_none settings

end

theorem maxRowId_le {L : PayoutLedger} {matureUpTo : ℤ} {c : PendingPayoutCandidate}
    (member : c ∈ L.getMaturePendingTotals matureUpTo) : c.maxRowId ≤ L.rows.length := by
  rw [(mem_groupByMiner.mp member).2]
  exact PayoutLedger.maxId_le_length fun r inGroup =>
    List.mem_of_mem_filter (List.mem_of_mem_filter inGroup)

/-- One step of the cycle. -/
theorem phase_resume {settings : Settings} {L : PayoutLedger} {matureUpTo : ℤ} {s s' : PplnsState}
    {t t' : PayoutCycle} {a : Answer} (phase : Phase L matureUpTo s t)
    (resumed : t.resume settings s a = some (s', t')) : Phase L matureUpTo s' t' := by
  unfold PayoutCycle.resume at resumed
  split at resumed <;> cases resumed
  case h_1 | h_2 | h_3 | h_4 => cases phase
  case h_5 =>
    split
    · trivial
    · exact ⟨List.filter_sublist.trans phase.1, phase.2⟩
  case h_6 | h_8 | h_10 | h_20 | h_22 => trivial
  case h_7 =>
    split
    · trivial
    · split <;> exact phase
  case h_9 => exact phase
  case h_11 | h_14 => exact phase_settle settings _ phase.1 (paidLast_sendMany ..) (phase.2.rename _)
  case h_12 => exact phase_retry settings _ phase.1 phase.2
  case h_13 => exact phase_retry settings _ phase.1 phase.2
  case h_15 | h_16 => exact phase_settle_none settings
  case h_17 | h_18 => exact phase_unlocked phase
  case h_19 txid c rest =>
    obtain ⟨done, sub, paid, after⟩ := phase
    have upTo : c.maxRowId ≤ L.rows.length := maxRowId_le (sub.subset (by simp))
    have regroup : done ++ c :: rest = done ++ [c] ++ rest := by simp
    exact phase_nextMark (regroup ▸ sub) (regroup ▸ paid) (after.mark c upTo)
  case h_21 => exact phase

def Call.isReward : Call → Bool
  | .reward _ => true
  | _ => false

/-- One cycle, beside reward calls only. -/
def Beside (L : PayoutLedger) (matureUpTo : ℤ) (p : Services) : Prop :=
  ∃ t rewards, p.calls = .cycle t :: rewards ∧ (∀ u ∈ rewards, u.isReward = true) ∧ Phase L matureUpTo p.shared t

/-- Only reward calls are made. -/
abbrev OnlyRewards : Services → ServiceEvent → Prop :=
  Pool.Allowed (fun _ t => t.isReward = true) (fun _ _ _ _ => True)

/-- A reward call adds credits. -/
theorem phase_reward {settings : Settings} {L : PayoutLedger} {matureUpTo : ℤ} {s s' : PplnsState} {c : PayoutCycle}
    {t t' : RewardCall} {a : Answer} (phase : Phase L matureUpTo s c)
    (resumed : t.resume settings s a = some (s', t')) : Phase L matureUpTo s' c := by
  unfold RewardCall.resume at resumed
  split at resumed <;> cases resumed
  case h_2 => exact phase.of_after rfl fun _ _ after => after.credit ..
  all_goals exact phase.of_after rfl fun _ _ after => after

theorem beside_step {settings : Settings} {L : PayoutLedger} {matureUpTo : ℤ} {p p' : Services} {e : ServiceEvent}
    (beside : Beside L matureUpTo p) (allowed : OnlyRewards p e) (moved : Services.step settings p e = some p') :
    Beside L matureUpTo p' := by
  obtain ⟨c, rewards, calls, isReward, phase⟩ := beside
  obtain ⟨t, rfl, -, rfl⟩ | ⟨before, t, after, a, s', t', -, split_at, resumed, rfl⟩ := Pool.step_cases moved
  · refine ⟨c, rewards ++ [t], by simp [calls], fun u member => ?_, phase⟩
    rcases List.mem_append.mp member with old | new
    · exact isReward u old
    · rw [List.mem_singleton.mp new]
      exact allowed
  · rw [calls] at split_at
    cases before with
    | nil =>
      cases split_at
      obtain ⟨r, step, eq⟩ := Option.map_eq_some_iff.mp resumed
      cases eq
      exact ⟨r.2, rewards, rfl, isReward, phase_resume phase step⟩
    | cons first before =>
      obtain ⟨rfl, rfl⟩ := List.cons.inj split_at
      have reward := isReward t (by simp)
      cases t with
      | reward call =>
        obtain ⟨r, step, eq⟩ := Option.map_eq_some_iff.mp resumed
        cases eq
        refine ⟨c, _, rfl, fun u member => ?_, phase_reward phase step⟩
        rcases List.mem_append.mp member with left | right
        · exact isReward u (by simp [left])
        · rcases List.mem_cons.mp right with rfl | right
          · rfl
          · exact isReward u (by simp [right])
      | _ => cases reward

/-! ## What is marked and what was sent -/

/-- The worth of a miner's rows that went from PENDING in `L` to SENT with this txid in `L'`. -/
def movedSats (L L' : PayoutLedger) (txid minerAddress : String) : ℤ :=
  sumSats (L'.rows.filter fun r => r.minerAddress = minerAddress ∧ r.status = .sent ∧ r.txid = some txid ∧
    ∃ r₀ ∈ L.rows, r₀.id = r.id ∧ r₀.status = .pending)

/-- Each paid miner's rows that became SENT are worth what it was sent, and no immature row
changed. -/
structure PaysWhatItMarks (L L' : PayoutLedger) (matureUpTo : ℤ) (txid : String) (amounts : OrderedMap String ℤ) :
    Prop where
  moved : ∀ e ∈ amounts, movedSats L L' txid e.1 = e.2
  immature : ∀ r ∈ L.rows, matureUpTo < r.blockHeight → r ∈ L'.rows
  later : ∀ r ∈ L'.rows, L.rows.length < r.id → r.status = .pending

/-- The paid miners' immature PENDING rows are all newer than their mature ones. -/
def ImmatureRowsAreNewer (L : PayoutLedger) (matureUpTo : ℤ) (amounts : OrderedMap String ℤ) : Prop :=
  ∀ r ∈ L.rows, r.status = .pending → matureUpTo < r.blockHeight → r.minerAddress ∈ amounts.map Prod.fst →
    ∀ r' ∈ L.maturePending matureUpTo, r'.minerAddress = r.minerAddress → r'.id < r.id

instance (L : PayoutLedger) (matureUpTo : ℤ) (amounts : OrderedMap String ℤ) :
    Decidable (ImmatureRowsAreNewer L matureUpTo amounts) :=
  inferInstanceAs (Decidable (∀ r ∈ L.rows, _ → _ → _ → ∀ r' ∈ L.maturePending matureUpTo, _ → _))

section
variable {L L' : PayoutLedger} {matureUpTo : ℤ} {txid : String} {done : List PendingPayoutCandidate}

/-- The moved rows are the claimed ones. -/
theorem movedSats_eq (after : After L L' txid done) (m : String) :
    movedSats L L' txid m = sumSats (L.rows.filter fun r => r.minerAddress = m ∧ Claimed done r) := by
  obtain ⟨new, rows, pending⟩ := after
  have none : new.filter (fun r => r.minerAddress = m ∧ r.status = .sent ∧ r.txid = some txid ∧
      ∃ r₀ ∈ L.rows, r₀.id = r.id ∧ r₀.status = .pending) = [] := by
    apply List.filter_eq_nil_iff.mpr
    intro r member selected
    have sent := (of_decide_eq_true selected).2.1
    rw [pending r member] at sent
    cases sent
  have same_amount : ∀ r, (markedBy txid done r).amountSats = r.amountSats := by
    intro r
    unfold markedBy
    split <;> rfl
  rw [movedSats, rows, List.filter_append, none, List.append_nil, List.filter_map, sumSats, List.map_map]
  have amounts : (fun r : PayoutLedgerEntity => r.amountSats) ∘ markedBy txid done = (·.amountSats) :=
    funext same_amount
  rw [amounts, sumSats]
  congr 2
  apply List.filter_congr
  intro r member
  rw [Function.comp_apply, decide_eq_decide]
  by_cases claimed : Claimed done r
  · rw [markedBy, if_pos claimed]
    constructor
    · rintro ⟨miner, -⟩
      exact ⟨miner, claimed⟩
    · rintro ⟨miner, -⟩
      exact ⟨miner, rfl, rfl, r, member, rfl, claimed.1⟩
  · rw [markedBy, if_neg claimed]
    constructor
    · rintro ⟨-, sent, -, r₀, member₀, id, was⟩
      rw [PayoutLedger.row_eq member₀ member id, sent] at was
      cases was
    · rintro ⟨-, yes⟩
      exact absurd yes claimed

/-- The cutoff of a candidate, in terms of the rows it was read from. -/
theorem le_maxRowId_iff {c : PendingPayoutCandidate} (member : c ∈ L.getMaturePendingTotals matureUpTo) (i : ℕ) :
    i ≤ c.maxRowId ↔ ∃ r' ∈ L.maturePending matureUpTo, r'.minerAddress = c.minerAddress ∧ i ≤ r'.id := by
  have cutoff : c.maxRowId = maxId (minerGroup (L.maturePending matureUpTo) c.minerAddress) :=
    congrArg PendingPayoutCandidate.maxRowId (mem_groupByMiner.mp member).2
  rw [cutoff]
  constructor
  · intro below
    obtain ⟨r', inGroup, top⟩ := maxId_mem (minerGroup_ne_nil member)
    obtain ⟨mature, miner⟩ := List.mem_filter.mp inGroup
    exact ⟨r', mature, by simpa using miner, top ▸ below⟩
  · rintro ⟨r', mature, miner, below⟩
    exact below.trans (le_maxId (List.mem_filter.mpr ⟨mature, by simpa using miner⟩))

/-- Of the rows of a candidate's miner, those claimed are the PENDING ones up to its cutoff. -/
theorem claimed_iff (sub : done.Sublist (L.getMaturePendingTotals matureUpTo)) {c : PendingPayoutCandidate}
    (member : c ∈ done) {r : PayoutLedgerEntity} (miner : r.minerAddress = c.minerAddress) :
    Claimed done r ↔ r.status = .pending ∧ r.id ≤ c.maxRowId := by
  constructor
  · rintro ⟨pending, c', member', miner', upTo⟩
    have distinct : (done.map (·.minerAddress)).Nodup := (groupByMiner_nodup _).sublist (sub.map _)
    obtain rfl := List.inj_on_of_nodup_map distinct member' member (miner'.symm.trans miner)
    exact ⟨pending, upTo⟩
  · rintro ⟨pending, upTo⟩
    exact ⟨pending, c, member, miner, upTo⟩

/-- The marked rows of a candidate are its mature ones, and the immature ones below its cutoff. -/
theorem movedSats_eq_add (after : After L L' txid done) (sub : done.Sublist (L.getMaturePendingTotals matureUpTo))
    {c : PendingPayoutCandidate} (member : c ∈ done) :
    movedSats L L' txid c.minerAddress = c.totalPendingSats +
      sumSats (L.rows.filter fun r => r.minerAddress = c.minerAddress ∧ Claimed done r ∧ matureUpTo < r.blockHeight) := by
  have read := (mem_groupByMiner.mp (sub.subset member)).2
  have total : c.totalPendingSats = sumSats (L.rows.filter fun r => r.minerAddress = c.minerAddress ∧
      Claimed done r ∧ r.blockHeight ≤ matureUpTo) := by
    rw [congrArg PendingPayoutCandidate.totalPendingSats read]
    show sumSats (minerGroup (L.maturePending matureUpTo) c.minerAddress) = _
    rw [minerGroup, PayoutLedger.maturePending, List.filter_filter]
    congr 1
    apply List.filter_congr
    intro r inRows
    rw [Bool.eq_iff_iff]
    simp only [Bool.and_eq_true, decide_eq_true_eq]
    apply and_congr_right
    intro miner
    rw [claimed_iff sub member miner]
    constructor
    · rintro ⟨pending, mature⟩
      have inMature : r ∈ L.maturePending matureUpTo :=
        List.mem_filter.mpr ⟨inRows, decide_eq_true ⟨pending, mature⟩⟩
      exact ⟨⟨pending, (le_maxRowId_iff (sub.subset member) r.id).mpr ⟨r, inMature, miner, le_refl _⟩⟩, mature⟩
    · rintro ⟨⟨pending, -⟩, mature⟩
      exact ⟨pending, mature⟩
  rw [movedSats_eq after, total, sumSats_filter_add]
  · congr 1
    apply List.filter_congr
    intro r _
    rw [← Bool.decide_or, decide_eq_decide, ← and_or_left, ← and_or_left]
    simp [le_or_gt]
  · intro r mature immature
    simp only [decide_eq_true_eq] at mature immature
    omega

/-- The rows of `L` that no candidate claims are in `L'` as they were. -/
theorem mem_of_unclaimed (after : After L L' txid done) {r : PayoutLedgerEntity} (member : r ∈ L.rows)
    (unclaimed : ¬ Claimed done r) : r ∈ L'.rows := by
  obtain ⟨new, rows, -⟩ := after
  rw [rows]
  apply List.mem_append_left
  exact List.mem_map.mpr ⟨r, member, if_neg unclaimed⟩

theorem pending_of_later (after : After L L' txid done) {r : PayoutLedgerEntity} (member : r ∈ L'.rows)
    (later : L.rows.length < r.id) : r.status = .pending := by
  obtain ⟨new, rows, pending⟩ := after
  rw [rows] at member
  rcases List.mem_append.mp member with old | new
  · obtain ⟨r₀, member₀, rfl⟩ := List.mem_map.mp old
    have same : (markedBy txid done r₀).id = r₀.id := by
      unfold markedBy
      split <;> rfl
    have := PayoutLedger.id_le_length member₀
    omega
  · exact pending r new

/-- No immature row is claimed exactly if the immature rows are newer than the mature ones. -/
theorem immatureRowsAreNewer_iff (sub : done.Sublist (L.getMaturePendingTotals matureUpTo)) :
    ImmatureRowsAreNewer L matureUpTo (sendManyAmounts done) ↔
      ∀ r ∈ L.rows, matureUpTo < r.blockHeight → ¬ Claimed done r := by
  have distinct : (done.map (·.minerAddress)).Nodup := (groupByMiner_nodup _).sublist (sub.map _)
  have names : (sendManyAmounts done).map Prod.fst = done.map (·.minerAddress) := by
    rw [sendManyAmounts_eq distinct, List.map_map]
    rfl
  rw [ImmatureRowsAreNewer, names]
  constructor
  · rintro newer r member immature ⟨pending, c, inDone, miner, upTo⟩
    obtain ⟨r', mature, miner', below⟩ := (le_maxRowId_iff (sub.subset inDone) r.id).mp upTo
    have := newer r member pending immature (List.mem_map.mpr ⟨c, inDone, miner.symm⟩) r' mature (miner'.trans miner.symm)
    omega
  · intro unclaimed r member pending immature paid r' mature miner'
    obtain ⟨c, inDone, miner⟩ := List.mem_map.mp paid
    by_contra notNewer
    apply unclaimed r member immature
    refine ⟨pending, c, inDone, miner.symm, ?_⟩
    exact (le_maxRowId_iff (sub.subset inDone) r.id).mpr ⟨r', mature, miner'.trans miner.symm, by omega⟩

/-- What is marked is what was paid exactly if no immature row is claimed. -/
theorem paysWhatItMarks_iff (after : After L L' txid done) (sub : done.Sublist (L.getMaturePendingTotals matureUpTo)) :
    PaysWhatItMarks L L' matureUpTo txid (sendManyAmounts done) ↔
      ImmatureRowsAreNewer L matureUpTo (sendManyAmounts done) := by
  have distinct : (done.map (·.minerAddress)).Nodup := (groupByMiner_nodup _).sublist (sub.map _)
  rw [immatureRowsAreNewer_iff sub, sendManyAmounts_eq distinct]
  have extra : ∀ c ∈ done, movedSats L L' txid c.minerAddress = c.totalPendingSats ↔
      ∀ r ∈ L.rows, ¬ (r.minerAddress = c.minerAddress ∧ Claimed done r ∧ matureUpTo < r.blockHeight) := by
    intro c member
    rw [movedSats_eq_add after sub member]
    have zero := sumSats_filter_eq_zero (p := fun r => decide (r.minerAddress = c.minerAddress ∧ Claimed done r ∧
      matureUpTo < r.blockHeight)) L.positive
    simp only [decide_eq_true_eq] at zero
    rw [← zero]
    omega
  constructor
  · rintro pays r member immature ⟨pending, c, inDone, miner, upTo⟩
    have moved := pays.moved (c.minerAddress, c.totalPendingSats) (List.mem_map.mpr ⟨c, inDone, rfl⟩)
    exact (extra c inDone).mp moved r member ⟨miner, ⟨pending, c, inDone, miner, upTo⟩, immature⟩
  · intro unclaimed
    refine ⟨?_, fun r member immature => mem_of_unclaimed after member (unclaimed r member immature),
      fun r member later => pending_of_later after member later⟩
    intro e member
    obtain ⟨c, inDone, rfl⟩ := List.mem_map.mp member
    exact (extra c inDone).mpr fun r inRows bad => unclaimed r inRows bad.2.2 bad.2.1

end

/-- **When a cycle pays what it marks**: it reads the ledger while reward calls are under way,
credits come in at any time, and its marking loop ends. What it marked is what it sent exactly
if, for each paid miner, no immature PENDING row is older than a mature one. -/
theorem paysWhatItMarks_of_cycle (settings : Settings) (currentHeight : ℤ) (p₁ : Services) {p₂ p₃ : Services}
    {txid : String} {rewards : List Call} {t : PayoutCycle}
    (calls : p₁.calls = .cycle (.totals (PayoutCycle.matureUpToHeight settings currentHeight)) :: rewards)
    (isReward : ∀ u ∈ rewards, u.isReward = true)
    (read : Services.step settings p₁ (.resume 0 .executed) = some p₂)
    (run : Reaches (Services.step settings) OnlyRewards p₂ p₃)
    (here : p₃.calls[0]? = some (.cycle t)) (marked : t = .notify txid ∨ t = .returned (some txid)) :
    ∃ tx, p₃.shared.transactions.getLast? = some tx ∧ tx.txid = txid ∧
      (PaysWhatItMarks p₁.shared.ledger p₃.shared.ledger (PayoutCycle.matureUpToHeight settings currentHeight) txid
          tx.amounts ↔
        ImmatureRowsAreNewer p₁.shared.ledger (PayoutCycle.matureUpToHeight settings currentHeight) tx.amounts) := by
  set matureUpTo := PayoutCycle.matureUpToHeight settings currentHeight
  have start : Beside p₁.shared.ledger matureUpTo p₂ := by
    simp only [Services.step, Pool.step, calls, List.getElem?_cons_zero, Option.bind_some, Call.resume,
      PayoutCycle.resume, Option.map_some, Option.some.injEq, List.set_cons_zero] at read
    subst read
    refine ⟨_, rewards, rfl, isReward, ?_⟩
    show Phase _ _ p₁.shared _
    split
    · trivial
    · exact ⟨.refl _, .refl _ _⟩
  obtain ⟨t', rest, calls', -, phase⟩ := run.invariant start fun _ _ _ beside allowed moved =>
    beside_step beside allowed moved
  rw [calls'] at here
  cases here
  have ended : ∃ done, done.Sublist (p₁.shared.ledger.getMaturePendingTotals matureUpTo) ∧
      PaidLast p₃.shared txid done ∧ After p₁.shared.ledger p₃.shared.ledger txid done := by
    rcases marked with rfl | rfl <;> exact phase
  obtain ⟨done, sub, ⟨tx, last, name, amounts⟩, after⟩ := ended
  refine ⟨tx, last, name, ?_⟩
  rw [amounts]
  exact paysWhatItMarks_iff after sub

/-- The ledger after two credits to miner `a`, for blocks of these heights in this order. -/
def twoCredits (first second : ℤ) : PplnsState :=
  ⟨[], (PayoutLedger.empty.credit "a" 200000 first).credit "a" 300000 second, none, []⟩

/-- Block 100 credited before block 101: the cycle at height 199 pays and marks the first. -/
theorem paysWhatItMarks_of_cycle_in_order : ∃ p₃ : Services,
    PaysWhatItMarks (twoCredits 100 101).ledger p₃.shared.ledger 100 "t" [("a", 200000)] := by
  obtain ⟨p₃, run, here, last, newer⟩ := exists_reaches (Services.step .defaults) OnlyRewards
    ⟨twoCredits 100 101, [.cycle (.overrides [⟨"a", 200000, 1, [1]⟩])]⟩
    [.resume 0 (.overrides []), .resume 0 (.balance 200000), .resume 0 (.sent "t" 0), .resume 0 .executed]
    (fun p => p.calls[0]? = some (.cycle (.notify "t")) ∧
      p.shared.transactions.getLast? = some ⟨"t", [("a", 200000)], 0, [1]⟩ ∧
      ImmatureRowsAreNewer (twoCredits 100 101).ledger 100 [("a", 200000)]) (by decide +kernel)
  obtain ⟨tx, last', -, iff⟩ := paysWhatItMarks_of_cycle .defaults 199
    ⟨twoCredits 100 101, [.cycle (.totals 100)]⟩ rfl (by simp) (by rfl) run here (.inl rfl)
  rw [last] at last'
  cases last'
  exact ⟨p₃, iff.mpr newer⟩

/-- Block 101 credited before block 100: the cycle at height 199 sends 300000 lep and marks
rows worth 500000 SENT, one of them immature. -/
theorem not_paysWhatItMarks_out_of_order : ¬ ∀ (settings : Settings) (currentHeight : ℤ) (txid : String)
    (p₁ p₂ p₃ : Services) (rewards : List Call) (t : PayoutCycle),
    p₁.calls = .cycle (.totals (PayoutCycle.matureUpToHeight settings currentHeight)) :: rewards →
    (∀ u ∈ rewards, u.isReward = true) → Services.step settings p₁ (.resume 0 .executed) = some p₂ →
    Reaches (Services.step settings) OnlyRewards p₂ p₃ → p₃.calls[0]? = some (.cycle t) →
    t = .notify txid ∨ t = .returned (some txid) →
    ∃ tx, p₃.shared.transactions.getLast? = some tx ∧ tx.txid = txid ∧
      PaysWhatItMarks p₁.shared.ledger p₃.shared.ledger (PayoutCycle.matureUpToHeight settings currentHeight) txid
        tx.amounts := by
  intro claim
  obtain ⟨p₃, run, here, last, marked⟩ := exists_reaches (Services.step .defaults) OnlyRewards
    ⟨twoCredits 101 100, [.cycle (.overrides [⟨"a", 300000, 2, [2]⟩])]⟩
    [.resume 0 (.overrides []), .resume 0 (.balance 300000), .resume 0 (.sent "t" 0), .resume 0 .executed]
    (fun p => p.calls[0]? = some (.cycle (.notify "t")) ∧
      p.shared.transactions.getLast? = some ⟨"t", [("a", 300000)], 0, [2]⟩ ∧
      movedSats (twoCredits 101 100).ledger p.shared.ledger "t" "a" = 500000) (by decide +kernel)
  obtain ⟨tx, last', -, pays⟩ := claim .defaults 199 "t" ⟨twoCredits 101 100, [.cycle (.totals 100)]⟩ _ p₃ [] _
    rfl (by simp) rfl run here (.inl rfl)
  rw [last] at last'
  cases last'
  have sent := pays.moved ("a", 300000) (by simp)
  rw [marked] at sent
  cases sent

end ElektronPool.Pplns
