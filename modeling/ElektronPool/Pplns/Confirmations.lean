import ElektronPool.Pplns.LedgerHistory
import ElektronPool.Pplns.PayoutScheduler

/-!
# What `reconcileSentPayouts` confirms

A call lists the txids of the SENT rows, asks the wallet about one after the other and confirms
those with enough confirmations, while payout cycles, rewards and other reconciliations go on. What
each call has listed and left open, and what the wallet has reported, is kept beside the run.
-/

namespace ElektronPool.Pplns
set_option autoImplicit false
open Async

/-! ## What a step does to the rows -/

/-- Every row is still there, further on in its history. -/
def PayoutLedger.GoesOn (L L' : PayoutLedger) : Prop := ∀ r ∈ L.rows, ∃ r' ∈ L'.rows, RowHistory r r'

theorem PayoutLedger.GoesOn.refl (L : PayoutLedger) : L.GoesOn L := fun r member => ⟨r, member, .refl r⟩

theorem PayoutLedger.goesOn_perform (L : PayoutLedger) (c : LedgerCall) : L.GoesOn (L.perform c) :=
  fun _ member => L.rowHistory_perform c member

/-- The txid a cycle is about to mark rows with. -/
def PayoutCycle.sentTxid : PayoutCycle → Option String
  | .lock _ result => result
  | .mark txid .. => some txid
  | _ => none

/-- The txids a reconciliation has still to deal with. -/
def Reconciliation.remaining : Reconciliation → List String
  | .confirmations txid rest | .markConfirmed txid rest => txid :: rest
  | _ => []

/-- The txid it is about to confirm. -/
def Reconciliation.confirming : Reconciliation → Option String
  | .markConfirmed txid _ => some txid
  | _ => none

@[simp] theorem Reconciliation.remaining_confirmations (txid : String) (rest : List String) :
    (confirmations txid rest).remaining = txid :: rest := rfl

@[simp] theorem Reconciliation.remaining_markConfirmed (txid : String) (rest : List String) :
    (markConfirmed txid rest).remaining = txid :: rest := rfl

@[simp] theorem Reconciliation.remaining_returned : returned.remaining = [] := rfl

@[simp] theorem Reconciliation.remaining_next (txids : List String) : (next txids).remaining = txids := by
  cases txids <;> rfl

@[simp] theorem Reconciliation.confirming_next (txids : List String) : (next txids).confirming = none := by
  cases txids <;> rfl

namespace PayoutCycle
variable {settings : Settings} {candidates : List PendingPayoutCandidate} {result : Option String} {txid t : String}

theorem sentTxid_nextMark (sent : (nextMark t candidates).sentTxid = some txid) : t = txid := by
  cases candidates with
  | nil => cases sent
  | cons => exact Option.some.inj sent

theorem sentTxid_afterSend (sent : (afterSend candidates result).sentTxid = some txid) : result = some txid := by
  unfold afterSend at sent
  split at sent
  · exact congrArg some (sentTxid_nextMark sent)
  · cases sent

theorem sentTxid_settle (sent : (settle settings candidates result).sentTxid = some txid) : result = some txid := by
  unfold settle at sent
  split at sent
  · exact sent
  · exact sentTxid_afterSend sent

theorem sentTxid_retry {message : Option String} : (retry settings candidates message).sentTxid = none := by
  rw [Option.eq_none_iff_forall_ne_some]
  intro txid sent
  unfold retry at sent
  split at sent
  · cases sent
  · cases sentTxid_settle sent

/-- What a cycle does with txids: it keeps to the one it has, gets one for a transaction, or marks rows with its own. -/
inductive TxidStep (s : PplnsState) (t t' : PayoutCycle) : PplnsState → Prop
  | keeps (sent : ∀ txid, t'.sentTxid = some txid → t.sentTxid = some txid) : TxidStep s t t' s
  | sends {candidates : List PendingPayoutCandidate} {txid : String} {fee : ℤ}
    (sent : ∀ txid', t'.sentTxid = some txid' → txid = txid') : TxidStep s t t' (s.sendMany candidates txid fee)
  | marks {miner txid : String} {maxRowId : ℕ} (own : t.sentTxid = some txid)
    (sent : ∀ txid', t'.sentTxid = some txid' → txid = txid') :
    TxidStep s t t' { s with ledger := s.ledger.markSentUpTo miner maxRowId txid }

theorem txidStep {s s' : PplnsState} {t t' : PayoutCycle} {a : Answer} (resumed : t.resume settings s a = some (s', t')) :
    TxidStep s t t' s' := by
  unfold resume at resumed
  split at resumed
  all_goals cases resumed
  case h_11 | h_14 => exact .sends fun _ sent => Option.some.inj (sentTxid_settle sent)
  case h_13 => exact .sends fun _ sent => by rw [sentTxid_retry] at sent; cases sent
  case h_16 => exact .sends fun _ sent => by cases sentTxid_settle sent
  case h_12 => exact .keeps fun _ sent => by rw [sentTxid_retry] at sent; cases sent
  case h_15 => exact .keeps fun _ sent => by cases sentTxid_settle sent
  case h_17 | h_18 => exact .keeps fun _ sent => sentTxid_afterSend sent
  case h_19 => exact .marks rfl fun _ sent => sentTxid_nextMark sent
  -- no txid yet, or no longer one
  case h_3 | h_5 =>
    refine .keeps fun _ sent => ?_
    split at sent <;> cases sent
  case h_7 =>
    refine .keeps fun _ sent => ?_
    split at sent
    · cases sent
    · split at sent <;> cases sent
  all_goals exact .keeps fun _ sent => by cases sent

end PayoutCycle

/-! ## Beside the run -/

/-- The rows a call found SENT, and the txids it did not confirm: the wallet threw or reported too few
confirmations, or the UPDATE failed. -/
structure Check where
  listed : List ℕ
  leftOpen : List String
  deriving DecidableEq

/-- The txids reported with enough confirmations, and the checks of the calls. -/
structure Confirmations where
  reported : List String
  checks : ℕ → Check

def Confirmations.none : Confirmations := ⟨[], fun _ => ⟨[], []⟩⟩

namespace Call
variable (settings : Settings)

def reports : Call → Answer → Option String
  | .reconcile (.confirmations txid _), .confirmations count =>
    if settings.confirmationsRequired ≤ count then some txid else none
  | _, _ => none

def leavesOpen : Call → Answer → Option String
  | .reconcile (.confirmations txid _), .confirmations count =>
    if settings.confirmationsRequired ≤ count then none else some txid
  | .reconcile (.confirmations txid _), .threw _ | .reconcile (.markConfirmed txid _), .dbError => some txid
  | _, _ => none

def lists (s : PplnsState) : Call → Answer → Option (List ℕ)
  | .reconcile .txids, .executed => some ((s.ledger.rows.filter fun r => r.status = .sent).map (·.id))
  | _, _ => none

end Call

def recordConfirmations (settings : Settings) (g : Confirmations) (p : Services) (e : ServiceEvent) (_ : Services) :
    Confirmations :=
  match e with
  | .start _ => g
  | .resume k a =>
    match p.calls[k]? with
    | none => g
    | some t =>
      { reported := g.reported ++ (t.reports settings a).toList
        checks := Function.update g.checks k
          { listed := (t.lists p.shared a).getD (g.checks k).listed
            leftOpen := (g.checks k).leftOpen ++ (t.leavesOpen settings a).toList } }

/-! ## The invariant -/

/-- A listed row is confirmed, or its txid has been left open or is still to be dealt with. -/
def Dealt (L : PayoutLedger) (txids : List String) (id : ℕ) : Prop :=
  ∃ r ∈ L.rows, r.id = id ∧ (r.status = .confirmed ∨ r.status = .sent ∧ ∃ txid ∈ txids, r.txid = some txid)

/-- What is known of a call. -/
def Call.Traced (s : PplnsState) (reported : List String) (check : Check) : Call → Prop
  | .cycle t => ∀ txid, t.sentTxid = some txid → txid ∈ s.transactions.map (·.txid)
  | .reconcile t => (∀ txid, t.confirming = some txid → txid ∈ reported) ∧
      ∀ id ∈ check.listed, Dealt s.ledger (check.leftOpen ++ t.remaining) id
  | _ => True

/-- What is known of the rows. -/
structure RowsTraced (s : PplnsState) (reported : List String) : Prop where
  sent : ∀ r ∈ s.ledger.rows, ∀ txid, r.txid = some txid → txid ∈ s.transactions.map (·.txid)
  confirmed : ∀ r ∈ s.ledger.rows, r.status = .confirmed → ∃ txid ∈ reported, r.txid = some txid

structure TracedTxids (p : Services) (g : Confirmations) : Prop where
  rows : RowsTraced p.shared g.reported
  calls : ∀ (k : ℕ) (t : Call), p.calls[k]? = some t → t.Traced p.shared g.reported (g.checks k)
  fresh : ∀ k, p.calls.length ≤ k → g.checks k = ⟨[], []⟩

/-- A row that has left PENDING keeps its txid; once CONFIRMED it stays so. -/
theorem Dealt.mono {L L' : PayoutLedger} {txids : List String} {id : ℕ} (dealt : Dealt L txids id) (goes_on : L.GoesOn L') :
    Dealt L' txids id := by
  obtain ⟨r, member, same, state⟩ := dealt
  obtain ⟨r', member', history⟩ := goes_on r member
  have set : r.txid ≠ none := by
    intro unset
    have pending := (L.txids r member).mp unset
    rcases state with confirmed | ⟨sent, -⟩
    · rw [confirmed] at pending
      cases pending
    · rw [sent] at pending
      cases pending
  refine ⟨r', member', history.id.trans same, ?_⟩
  rcases state with confirmed | ⟨sent, txid, open', named⟩
  · left
    have status := history.status
    rw [confirmed] at status
    cases status.cases_head with
    | inl stays => exact stays.symm
    | inr moves =>
      obtain ⟨_, next, -⟩ := moves
      cases next
  · have status := history.status
    rw [sent] at status
    cases status.cases_head with
    | inl stays => exact .inr ⟨stays.symm, txid, open', (history.txid set).trans named⟩
    | inr moves =>
      obtain ⟨_, next, last⟩ := moves
      cases next
      cases last.cases_head with
      | inl stays => exact .inl stays.symm
      | inr beyond =>
        obtain ⟨_, next, -⟩ := beyond
        cases next

/-! ## One step -/

/-- The state moves on: rows go on, transactions are added, and what is known of the rows stays known. -/
structure MovesOn (s s' : PplnsState) (reported' : List String) : Prop where
  goesOn : s.ledger.GoesOn s'.ledger
  transactions : s.transactions.map (·.txid) ⊆ s'.transactions.map (·.txid)
  rows : RowsTraced s' reported'

section
variable {settings : Settings} {s s' : PplnsState} {reported reported' : List String} {check : Check} {a : Answer}

theorem RowsTraced.mono (rows : RowsTraced s reported) (ledger : s'.ledger = s.ledger)
    (transactions : s.transactions.map (·.txid) ⊆ s'.transactions.map (·.txid)) (more : reported ⊆ reported') :
    MovesOn s s' reported' := by
  refine ⟨?_, transactions, ⟨?_, ?_⟩⟩
  · rw [ledger]
    exact .refl _
  · rw [ledger]
    exact fun r member txid named => transactions (rows.sent r member txid named)
  · rw [ledger]
    intro r member confirmed
    obtain ⟨txid, known, named⟩ := rows.confirmed r member confirmed
    exact ⟨txid, more known, named⟩

theorem RowsTraced.stay (rows : RowsTraced s reported) (more : reported ⊆ reported') : MovesOn s s reported' :=
  rows.mono rfl (List.Subset.refl _) more

/-- A ledger statement, when all it names is known. -/
theorem RowsTraced.perform (rows : RowsTraced s reported) (c : LedgerCall) (more : reported ⊆ reported')
    (sent : ∀ miner maxRowId txid, c = .markSentUpTo miner maxRowId txid → txid ∈ s.transactions.map (·.txid))
    (confirms : ∀ txid, c = .markConfirmed txid → txid ∈ reported) :
    MovesOn s { s with ledger := s.ledger.perform c } reported' := by
  refine ⟨s.ledger.goesOn_perform c, List.Subset.refl _, ⟨?_, ?_⟩⟩
  · intro r' member txid named
    replace member : r' ∈ (s.ledger.perform c).rows := member
    rw [PayoutLedger.rows_perform] at member
    rcases List.mem_append.mp member with old | new
    · obtain ⟨r, member', rfl⟩ := List.mem_map.mp old
      cases c with
      | credit => exact rows.sent r member' txid named
      | markSentUpTo miner maxRowId t =>
        simp only [LedgerCall.rewrite, PayoutLedgerEntity.markSent] at named
        split at named
        · cases named
          exact sent miner maxRowId txid rfl
        · exact rows.sent r member' txid named
      | markConfirmed t =>
        simp only [LedgerCall.rewrite, PayoutLedgerEntity.markConfirmed] at named
        split at named
        · exact rows.sent r member' txid named
        · exact rows.sent r member' txid named
    · cases c with
      | credit =>
        simp only [LedgerCall.inserted] at new
        split at new
        · cases new
        · rw [List.mem_singleton.mp new] at named
          cases named
      | markSentUpTo | markConfirmed => cases new
  · intro r' member confirmed
    replace member : r' ∈ (s.ledger.perform c).rows := member
    rw [PayoutLedger.rows_perform] at member
    have before : ∀ r ∈ s.ledger.rows, r.status = .confirmed → ∃ txid ∈ reported', r.txid = some txid := by
      intro r member' confirmed
      obtain ⟨txid, known, named⟩ := rows.confirmed r member' confirmed
      exact ⟨txid, more known, named⟩
    rcases List.mem_append.mp member with old | new
    · obtain ⟨r, member', rfl⟩ := List.mem_map.mp old
      cases c with
      | credit => exact before r member' confirmed
      | markSentUpTo =>
        simp only [LedgerCall.rewrite, PayoutLedgerEntity.markSent] at confirmed ⊢
        split at confirmed
        · cases confirmed
        · rename_i other
          rw [if_neg other]
          exact before r member' confirmed
      | markConfirmed t =>
        simp only [LedgerCall.rewrite, PayoutLedgerEntity.markConfirmed] at confirmed ⊢
        split at confirmed
        · rename_i here
          rw [if_pos here]
          exact ⟨t, more (confirms t rfl), here.1⟩
        · rename_i other
          rw [if_neg other]
          exact before r member' confirmed
    · cases c with
      | credit =>
        simp only [LedgerCall.inserted] at new
        split at new
        · cases new
        · rw [List.mem_singleton.mp new] at confirmed
          cases confirmed
      | markSentUpTo | markConfirmed => cases new

/-- What is known of a call stays known. -/
theorem Call.Traced.mono {t : Call} (traced : t.Traced s reported check) (moves : MovesOn s s' reported')
    (more : reported ⊆ reported') : t.Traced s' reported' check := by
  cases t with
  | cycle => exact fun txid sent => moves.transactions (traced txid sent)
  | reconcile =>
    exact ⟨fun txid confirming => more (traced.1 txid confirming), fun id listed => (traced.2 id listed).mono moves.goesOn⟩
  | reward | record | prune | shareLogDone => trivial

theorem PayoutCycle.movesOn {t t' : PayoutCycle} (rows : RowsTraced s reported)
    (traced : Call.Traced s reported check (.cycle t)) (resumed : t.resume settings s a = some (s', t')) :
    MovesOn s s' reported ∧ Call.Traced s' reported check (.cycle t') := by
  cases t.txidStep resumed with
  | keeps sent => exact ⟨rows.stay (List.Subset.refl _), fun txid named => traced txid (sent txid named)⟩
  | @sends candidates txid fee sent =>
    have more : s.transactions.map (·.txid) ⊆ (s.sendMany candidates txid fee).transactions.map (·.txid) := by
      simp [PplnsState.sendMany]
    refine ⟨rows.mono rfl more (List.Subset.refl _), fun txid' named => ?_⟩
    rw [← sent txid' named]
    simp [PplnsState.sendMany]
  | @marks miner txid maxRowId own sent =>
    refine ⟨rows.perform (.markSentUpTo miner maxRowId txid) (List.Subset.refl _) ?_ (by simp), fun txid' named => ?_⟩
    · rintro _ _ _ ⟨⟩
      exact traced txid own
    · rw [← sent txid' named]
      exact traced txid own

/-- The rows a call lists are SENT, each with one of the txids it goes through. -/
theorem dealt_of_listed {L : PayoutLedger} {id : ℕ} (listed : id ∈ (L.rows.filter fun r => r.status = .sent).map (·.id)) :
    Dealt L L.getDistinctSentTxids id := by
  obtain ⟨r, selected, rfl⟩ := List.mem_map.mp listed
  obtain ⟨member, sent⟩ := List.mem_filter.mp selected
  have sent : r.status = .sent := of_decide_eq_true sent
  cases named : r.txid with
  | none =>
    have pending := (L.txids r member).mp named
    rw [sent] at pending
    cases pending
  | some txid =>
    refine ⟨r, member, rfl, .inr ⟨sent, txid, ?_, named⟩⟩
    exact List.mem_dedup.mpr (List.mem_filterMap.mpr ⟨r, selected, named⟩)

/-- After the UPDATE for a txid, the rows that had it are confirmed. -/
theorem Dealt.markConfirmed {L : PayoutLedger} {txid : String} {before rest : List String} {id : ℕ}
    (dealt : Dealt L (before ++ txid :: rest) id) : Dealt (L.markConfirmed txid) (before ++ rest) id := by
  obtain ⟨r, member, same, state⟩ := dealt
  refine ⟨r.markConfirmed txid, List.mem_map_of_mem member, ?_, ?_⟩
  · rw [(RowHistory.markConfirmed txid).id]
    exact same
  · unfold PayoutLedgerEntity.markConfirmed
    split
    · exact .inl rfl
    · rename_i other
      rcases state with confirmed | ⟨sent, t, open', named⟩
      · exact .inl confirmed
      · refine .inr ⟨sent, t, ?_, named⟩
        rcases List.mem_append.mp open' with left | right
        · exact List.mem_append_left _ left
        · rcases List.mem_cons.mp right with rfl | later
          · exact absurd ⟨named, sent⟩ other
          · exact List.mem_append_right _ later

theorem Reconciliation.movesOn {t t' : Reconciliation} (rows : RowsTraced s reported)
    (traced : Call.Traced s reported check (.reconcile t)) (resumed : t.resume settings s a = some (s', t')) :
    MovesOn s s' (reported ++ (Call.reports settings (.reconcile t) a).toList) ∧
    Call.Traced s' (reported ++ (Call.reports settings (.reconcile t) a).toList)
      ⟨(Call.lists s (.reconcile t) a).getD check.listed,
        check.leftOpen ++ (Call.leavesOpen settings (.reconcile t) a).toList⟩ (.reconcile t') := by
  have more : reported ⊆ reported ++ (Call.reports settings (.reconcile t) a).toList := List.subset_append_left _ _
  have still := rows.stay more
  obtain ⟨known, dealt⟩ := traced
  unfold Reconciliation.resume at resumed
  split at resumed
  all_goals cases resumed
  case h_1 => -- the list is made
    refine ⟨still, by simp, fun id listed => ?_⟩
    obtain ⟨r, member, same, state⟩ := dealt_of_listed listed
    refine ⟨r, member, same, state.imp_right ?_⟩
    rintro ⟨sent, txid, here, named⟩
    refine ⟨sent, txid, ?_, named⟩
    rw [Reconciliation.remaining_next]
    exact List.mem_append_right _ here
  case h_2 => -- the query failed
    refine ⟨still, by simp [Reconciliation.confirming], fun id listed => ?_⟩
    simpa [Call.leavesOpen, Reconciliation.remaining] using dealt id listed
  case h_3 txid rest count => -- the wallet answered
    refine ⟨still, fun t confirming => ?_, fun id listed => ?_⟩
    · split at confirming
      · rename_i enough
        cases confirming
        simp [Call.reports, enough]
      · rw [Reconciliation.confirming_next] at confirming
        cases confirming
    · have before := dealt id listed
      simp only [Call.leavesOpen]
      split
      · rename_i enough
        simpa [enough] using before
      · simpa using before
  case h_4 => -- the wallet threw
    refine ⟨still, by simp, fun id listed => ?_⟩
    simpa [Call.leavesOpen] using dealt id listed
  case h_5 txid rest => -- the UPDATE has run
    refine ⟨rows.perform (.markConfirmed txid) more (by simp) ?_, by simp, fun id listed => ?_⟩
    · rintro _ ⟨⟩
      exact known txid rfl
    · have after := (dealt id listed).markConfirmed
      simpa [Call.leavesOpen] using after
  case h_6 => -- the UPDATE failed
    refine ⟨still, by simp, fun id listed => ?_⟩
    simpa [Call.leavesOpen] using dealt id listed

theorem Call.movesOn {t t' : Call} (rows : RowsTraced s reported) (traced : t.Traced s reported check)
    (resumed : t.resume settings s a = some (s', t')) :
    MovesOn s s' (reported ++ (t.reports settings a).toList) ∧
    t'.Traced s' (reported ++ (t.reports settings a).toList)
      ⟨(t.lists s a).getD check.listed, check.leftOpen ++ (t.leavesOpen settings a).toList⟩ := by
  have unreported : reported ++ (none : Option String).toList = reported := List.append_nil _
  cases resumed_of_resume resumed with
  | reward step =>
    have ledger : s'.transactions = s.transactions ∧ (s'.ledger = s.ledger ∨ ∃ miner amount height,
        s' = { s with ledger := s.ledger.perform (.credit miner amount height) }) := by
      unfold RewardCall.resume at step
      split at step
      all_goals cases step
      case h_2 => exact ⟨rfl, .inr ⟨_, _, _, rfl⟩⟩
      all_goals exact ⟨rfl, .inl rfl⟩
    refine ⟨?_, trivial⟩
    rcases ledger with ⟨transactions, same | ⟨miner, amount, height, rfl⟩⟩
    · exact rows.mono same (by rw [transactions]; exact List.Subset.refl _) (List.subset_append_left _ _)
    · exact rows.perform _ (List.subset_append_left _ _) (by simp) (by simp)
  | cycle step =>
    obtain ⟨moves, traced'⟩ := PayoutCycle.movesOn rows traced step
    have nothing : ∀ t a, Call.reports settings (.cycle t) a = none := fun _ _ => rfl
    rw [nothing, unreported]
    exact ⟨moves, traced'⟩
  | reconcile step => exact Reconciliation.movesOn rows traced step
  | record | prune => exact ⟨rows.mono rfl (List.Subset.refl _) (List.subset_append_left _ _), trivial⟩

theorem Call.traced_entry {t : Call} (entry : t.isEntry = true) : t.Traced s reported ⟨[], []⟩ := by
  unfold Call.isEntry at entry
  split at entry
  · trivial
  · exact fun txid sent => by cases sent
  · exact ⟨fun _ confirming => (by cases confirming), fun _ listed => (by cases listed)⟩
  · trivial
  · trivial
  · cases entry

theorem TracedTxids.step {p p' : Services} {g : Confirmations} {e : ServiceEvent} (traced : TracedTxids p g)
    (moved : Services.step settings p e = some p') : TracedTxids p' (recordConfirmations settings g p e p') := by
  cases e with
  | start t =>
    obtain ⟨entry, rfl⟩ := Pool.start_cases moved
    refine ⟨traced.rows, fun k u found => ?_, fun k beyond => ?_⟩
    · rcases getElem?_concat_some found with old | ⟨rfl, rfl⟩
      · exact traced.calls k u old
      · simp only [recordConfirmations, traced.fresh p.calls.length le_rfl]
        exact Call.traced_entry entry
    · rw [List.length_append, List.length_singleton] at beyond
      exact traced.fresh k (by omega)
  | resume k a =>
    obtain ⟨t, s', t', at_k, resumed, rfl⟩ := Pool.resume_cases moved
    have bound : k < p.calls.length := (List.getElem?_eq_some_iff.mp at_k).1
    obtain ⟨moves, own⟩ := Call.movesOn traced.rows (traced.calls k t at_k) resumed
    simp only [recordConfirmations, at_k]
    refine ⟨moves.rows, fun i u found => ?_, fun i beyond => ?_⟩
    · rcases getElem?_set_some found with ⟨rfl, rfl⟩ | ⟨other, old⟩
      · simpa only [Function.update_self] using own
      · have kept := (traced.calls i u old).mono moves (List.subset_append_left _ (t.reports settings a).toList)
        simpa only [Function.update_of_ne (Ne.symm other)] using kept
    · rw [List.length_set] at beyond
      have other : i ≠ k := by omega
      simpa only [Function.update_of_ne other] using traced.fresh i beyond

end

/-- **What is confirmed has been paid and confirmed by the wallet, and one failed check holds up no other.** In every
interleaving of rewards, payout cycles and reconciliations: a row that is SENT or CONFIRMED has the txid of a transaction of
the wallet; a CONFIRMED row has one the wallet has reported with enough confirmations; and a reconciliation that has returned
has confirmed every row it found SENT, but for those with a txid that it could not confirm itself. -/
theorem confirmations_of_run {settings : Settings} {ok : Services × Confirmations → ServiceEvent → Prop} {p : Services}
    {g : Confirmations} (run : Reaches (recording (Services.step settings) (recordConfirmations settings)) ok
      (⟨.empty, []⟩, .none) (p, g)) :
    (∀ r ∈ p.shared.ledger.rows, r.status ≠ .pending → ∃ tx ∈ p.shared.transactions, r.txid = some tx.txid) ∧
    (∀ r ∈ p.shared.ledger.rows, r.status = .confirmed → ∃ txid ∈ g.reported, r.txid = some txid) ∧
    ∀ k, p.calls[k]? = some (.reconcile .returned) → ∀ id ∈ (g.checks k).listed, ∃ r ∈ p.shared.ledger.rows,
      r.id = id ∧ (r.status = .confirmed ∨ ∃ txid ∈ (g.checks k).leftOpen, r.txid = some txid) := by
  have traced : TracedTxids p g := by
    apply run.invariant_recording
    · exact ⟨⟨by simp [PplnsState.empty, PayoutLedger.empty], by simp [PplnsState.empty, PayoutLedger.empty]⟩, by simp,
        fun _ _ => rfl⟩
    · intro p g e p' traced _ moved
      exact traced.step moved
  refine ⟨fun r member settled => ?_, traced.rows.confirmed, fun k returned id listed => ?_⟩
  · cases named : r.txid with
    | none => exact absurd ((p.shared.ledger.txids r member).mp named) settled
    | some txid =>
      obtain ⟨tx, here, same⟩ := List.mem_map.mp (traced.rows.sent r member txid named)
      exact ⟨tx, here, congrArg some same.symm⟩
  · obtain ⟨r, member, same, state⟩ := (traced.calls k _ returned).2 id listed
    refine ⟨r, member, same, state.imp_right ?_⟩
    rintro ⟨-, txid, here, named⟩
    refine ⟨txid, ?_, named⟩
    rwa [Reconciliation.remaining_returned, List.append_nil] at here

/-- Two batches are out; the wallet throws on the first, and the second is confirmed all the same. -/
theorem confirmations_of_run_one_throws : ∃ (p : Services) (g : Confirmations),
    (p.shared.ledger.rows.map (fun r => (r.status, r.txid)) = [(.sent, some "t"), (.confirmed, some "u")] ∧
      p.calls[5]? = some (.reconcile .returned) ∧ g.checks 5 = ⟨[1, 2], ["t"]⟩) ∧
    ∀ id ∈ [1, 2], ∃ r ∈ p.shared.ledger.rows, r.id = id ∧ (r.status = .confirmed ∨ ∃ txid ∈ ["t"], r.txid = some txid) := by
  obtain ⟨⟨p, g⟩, run, done⟩ := exists_reaches (recording (Services.step .defaults) (recordConfirmations .defaults)) Always
    (⟨.empty, []⟩, .none)
    [.start (.record ⟨"a", 1, 0, 7⟩), .resume 0 .executed,
      .start (.reward (.processBlockFound .defaults 0 7 200000)), .resume 1 .executed, .resume 1 .executed,
      .start (.cycle .miningInfo), .resume 2 (.miningInfo (some 106)), .resume 2 .executed, .resume 2 (.overrides []),
      .resume 2 (.balance 200000), .resume 2 (.sent "t" 0), .resume 2 .executed, .resume 2 .executed,
      .start (.reward (.processBlockFound .defaults 0 8 300000)), .resume 3 .executed, .resume 3 .executed,
      .start (.cycle .miningInfo), .resume 4 (.miningInfo (some 107)), .resume 4 .executed, .resume 4 (.overrides []),
      .resume 4 (.balance 300000), .resume 4 (.sent "u" 0), .resume 4 .executed, .resume 4 .executed,
      .start (.reconcile .txids), .resume 5 .executed, .resume 5 (.threw none), .resume 5 (.confirmations 6), .resume 5 .executed]
    (fun q => q.1.shared.ledger.rows.map (fun r => (r.status, r.txid)) = [(.sent, some "t"), (.confirmed, some "u")] ∧
      q.1.calls[5]? = some (.reconcile .returned) ∧ q.2.checks 5 = ⟨[1, 2], ["t"]⟩) (by decide +kernel)
  refine ⟨p, g, done, ?_⟩
  obtain ⟨-, returned, check⟩ := done
  have dealt := (confirmations_of_run run).2.2 5 returned
  rwa [check] at dealt

end ElektronPool.Pplns
