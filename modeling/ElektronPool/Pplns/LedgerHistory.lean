import ElektronPool.Arithmetic.Rounding
import ElektronPool.Pplns.PayoutLedger
import Mathlib.Algebra.BigOperators.Finprod

/-!
# The payout ledger over any sequence of calls

`credit`, `markSentUpTo` and `markConfirmed` in any order and with any arguments. Each of
them rewrites the rows there are and inserts at most one (`rows_perform`), so a row has one
history (`RowHistory`) and the totals the queries sum agree with each other
(`BooksAgree`) and with what was credited.
-/

namespace ElektronPool.Pplns
set_option autoImplicit false

/-- PENDING to SENT to CONFIRMED. -/
inductive PayoutStatus.Next : PayoutStatus → PayoutStatus → Prop
  | sent : Next .pending .sent
  | confirmed : Next .sent .confirmed

/-- A row, and the same row later on. -/
structure RowHistory (r r' : PayoutLedgerEntity) : Prop where
  id : r'.id = r.id
  minerAddress : r'.minerAddress = r.minerAddress
  blockHeight : r'.blockHeight = r.blockHeight
  amountSats : r'.amountSats = r.amountSats
  status : Relation.ReflTransGen PayoutStatus.Next r.status r'.status
  txid : r.txid ≠ none → r'.txid = r.txid

namespace RowHistory
variable {r r' r'' : PayoutLedgerEntity}

theorem refl (r : PayoutLedgerEntity) : RowHistory r r := ⟨rfl, rfl, rfl, rfl, .refl, fun _ => rfl⟩

theorem trans (first : RowHistory r r') (second : RowHistory r' r'') : RowHistory r r'' where
  id := second.id.trans first.id
  minerAddress := second.minerAddress.trans first.minerAddress
  blockHeight := second.blockHeight.trans first.blockHeight
  amountSats := second.amountSats.trans first.amountSats
  status := first.status.trans second.status
  txid set := by
    have kept := first.txid set
    rw [second.txid (by rwa [kept]), kept]

theorem markSent (minerAddress : String) (maxRowId : ℕ) (txid : String) (unset : r.txid = none ↔ r.status = .pending) :
    RowHistory r (r.markSent minerAddress maxRowId txid) := by
  unfold PayoutLedgerEntity.markSent
  split
  · rename_i selected
    have pending : r.status = .pending := selected.2.2
    refine ⟨rfl, rfl, rfl, rfl, ?_, fun set => absurd (unset.mpr pending) set⟩
    rw [pending]
    exact .single .sent
  · exact refl r

theorem markConfirmed (txid : String) : RowHistory r (r.markConfirmed txid) := by
  unfold PayoutLedgerEntity.markConfirmed
  split
  · rename_i selected
    refine ⟨rfl, rfl, rfl, rfl, ?_, fun _ => rfl⟩
    rw [selected.2]
    exact .single .confirmed
  · exact refl r

end RowHistory

/-- A call of one of the methods that write the ledger. -/
inductive LedgerCall where
  | credit (minerAddress : String) (amountSats blockHeight : ℤ)
  | markSentUpTo (minerAddress : String) (maxRowId : ℕ) (txid : String)
  | markConfirmed (txid : String)
  deriving DecidableEq

namespace LedgerCall

/-- What it makes of a row that is already there. -/
def rewrite : LedgerCall → PayoutLedgerEntity → PayoutLedgerEntity
  | .credit .. => id
  | .markSentUpTo minerAddress maxRowId txid => .markSent minerAddress maxRowId txid
  | .markConfirmed txid => .markConfirmed txid

/-- The row it inserts behind `n` others. -/
def inserted (n : ℕ) : LedgerCall → List PayoutLedgerEntity
  | .credit minerAddress amountSats blockHeight =>
    if amountSats ≤ 0 then [] else [⟨n + 1, minerAddress, blockHeight, amountSats, .pending, none⟩]
  | _ => []

/-- The positive amount it credits to a miner. -/
def creditedTo (miner : String) : LedgerCall → ℤ
  | .credit minerAddress amountSats _ => if minerAddress = miner ∧ 0 < amountSats then amountSats else 0
  | _ => 0

theorem rowHistory (c : LedgerCall) {r : PayoutLedgerEntity} (unset : r.txid = none ↔ r.status = .pending) :
    RowHistory r (c.rewrite r) := by
  cases c with
  | credit => exact .refl r
  | markSentUpTo minerAddress maxRowId txid => exact .markSent minerAddress maxRowId txid unset
  | markConfirmed txid => exact .markConfirmed txid

end LedgerCall

namespace PayoutLedger

def perform (L : PayoutLedger) : LedgerCall → PayoutLedger
  | .credit minerAddress amountSats blockHeight => L.credit minerAddress amountSats blockHeight
  | .markSentUpTo minerAddress maxRowId txid => L.markSentUpTo minerAddress maxRowId txid
  | .markConfirmed txid => L.markConfirmed txid

/-- The ledger after some calls, from the empty one. -/
def after (calls : List LedgerCall) : PayoutLedger := calls.foldl perform empty

theorem after_concat (calls : List LedgerCall) (c : LedgerCall) : after (calls ++ [c]) = (after calls).perform c := by
  rw [after, List.foldl_concat, ← after]

theorem rows_perform (L : PayoutLedger) (c : LedgerCall) :
    (L.perform c).rows = L.rows.map c.rewrite ++ c.inserted L.rows.length := by
  cases c with
  | credit minerAddress amountSats blockHeight =>
    simp only [perform, LedgerCall.rewrite, LedgerCall.inserted, List.map_id]
    split
    · rw [credit_of_nonpos ‹_›, List.append_nil]
    · rw [rows_credit_of_pos (not_le.mp ‹_›)]
  | markSentUpTo => simp only [perform, rows_markSentUpTo, LedgerCall.rewrite, LedgerCall.inserted, List.append_nil]
  | markConfirmed => simp only [perform, rows_markConfirmed, LedgerCall.rewrite, LedgerCall.inserted, List.append_nil]

/-- One call: every row goes on. -/
theorem rowHistory_perform (L : PayoutLedger) (c : LedgerCall) {r : PayoutLedgerEntity} (member : r ∈ L.rows) :
    ∃ r' ∈ (L.perform c).rows, RowHistory r r' := by
  refine ⟨c.rewrite r, ?_, c.rowHistory (L.txids r member)⟩
  rw [rows_perform]
  exact List.mem_append_left _ (List.mem_map_of_mem member)

/-- Any number of calls: every row goes on. -/
theorem rowHistory_after (before : List LedgerCall) {r : PayoutLedgerEntity} (member : r ∈ (after before).rows)
    (calls : List LedgerCall) : ∃ r' ∈ (after (before ++ calls)).rows, RowHistory r r' := by
  induction calls using List.reverseRecOn with
  | nil => exact ⟨r, by rwa [List.append_nil], .refl r⟩
  | append_singleton calls c ih =>
    obtain ⟨r', member', history⟩ := ih
    obtain ⟨r'', member'', next⟩ := rowHistory_perform _ c member'
    refine ⟨r'', ?_, history.trans next⟩
    rwa [← List.append_assoc, after_concat]

/-! ## What is credited -/

theorem totalCredited_perform (L : PayoutLedger) (c : LedgerCall) (miner : String) :
    (L.perform c).totalCredited miner = L.totalCredited miner + c.creditedTo miner := by
  have old : sumSats ((L.rows.map c.rewrite).filter fun r => r.minerAddress = miner) = L.totalCredited miner := by
    have kept : ∀ r ∈ L.rows, RowHistory r (c.rewrite r) := fun r member => c.rowHistory (L.txids r member)
    simp only [totalCredited, sumSats]
    generalize L.rows = rows at kept
    induction rows with
    | nil => rfl
    | cons r rows ih =>
      have head := kept r List.mem_cons_self
      have tail := ih fun r member => kept r (List.mem_cons_of_mem _ member)
      simp only [List.map_cons, List.filter_cons, head.minerAddress]
      split
      · simp only [List.map_cons, List.sum_cons, head.amountSats, tail]
      · exact tail
  have new : sumSats ((c.inserted L.rows.length).filter fun r => r.minerAddress = miner) = c.creditedTo miner := by
    cases c with
    | credit minerAddress amountSats blockHeight =>
      simp only [LedgerCall.inserted, LedgerCall.creditedTo]
      by_cases positive : 0 < amountSats <;> by_cases same : minerAddress = miner <;>
        simp [positive, not_le.mpr, not_lt.mp, same]
    | _ => rfl
  rw [totalCredited, rows_perform, List.filter_append, sumSats_append, old, new]

theorem totalCredited_after (calls : List LedgerCall) (miner : String) :
    (after calls).totalCredited miner = (calls.map (LedgerCall.creditedTo miner)).sum := by
  induction calls using List.reverseRecOn with
  | nil => rfl
  | append_singleton calls c ih =>
    rw [after_concat, totalCredited_perform, ih, List.map_append, List.sum_append, List.map_singleton,
      List.sum_singleton]

/-- What was credited to a miner is PENDING or paid. -/
theorem pending_add_paid (L : PayoutLedger) (miner : String) :
    L.getPendingTotal miner + L.getTotalPaid miner = L.totalCredited miner := by
  rw [getPendingTotal, getTotalPaid, totalCredited, sumSats_filter_add]
  · congr 1
    apply List.filter_congr
    intro r _
    cases r.status <;> simp
  · intro r pending paid
    simp only [decide_eq_true_eq] at pending paid
    rw [pending.2] at paid
    simp at paid

/-! ## Sums over the miners -/

/-- The groups of the miners add up to the whole. -/
theorem sum_minerGroup {rows : List PayoutLedgerEntity} {miners : Finset String}
    (covers : ∀ r ∈ rows, r.minerAddress ∈ miners) :
    ∑ miner ∈ miners, sumSats (minerGroup rows miner) = sumSats rows :=
  Rounding.sum_groups PayoutLedgerEntity.minerAddress PayoutLedgerEntity.amountSats covers

theorem getPendingTotal_eq (L : PayoutLedger) (miner : String) :
    L.getPendingTotal miner = sumSats (minerGroup L.pendingRows miner) := by
  rw [getPendingTotal, minerGroup, pendingRows, List.filter_filter]
  simp only [Bool.decide_and]

/-- The pool's total is the sum over all miners. -/
theorem finsum_getPendingTotal (L : PayoutLedger) :
    ∑ᶠ miner, L.getPendingTotal miner = L.getTotalPendingAcrossAllMiners := by
  have outside : Function.support L.getPendingTotal ⊆ (L.pendingRows.map (·.minerAddress)).toFinset := by
    intro miner owed
    by_contra absent
    apply owed
    rw [getPendingTotal_eq, minerGroup, List.filter_eq_nil_iff.mpr, sumSats_nil]
    intro r member same
    apply absent
    rw [← of_decide_eq_true same]
    exact List.mem_toFinset.mpr (List.mem_map_of_mem member)
  rw [finsum_eq_sum_of_support_subset _ outside]
  simp only [getPendingTotal_eq]
  apply sum_minerGroup
  intro r member
  exact List.mem_toFinset.mpr (List.mem_map_of_mem member)

/-- The groups of the query add up to the pool's total. -/
theorem sum_getAllPendingTotals (L : PayoutLedger) :
    (L.getAllPendingTotals.map (·.totalPendingSats)).sum = L.getTotalPendingAcrossAllMiners := by
  have sums : L.getAllPendingTotals.map (·.totalPendingSats) =
      (L.pendingRows.map (·.minerAddress)).dedup.map fun miner => sumSats (minerGroup L.pendingRows miner) := by
    rw [getAllPendingTotals, groupByMiner, List.map_map]
    rfl
  rw [sums, ← List.sum_toFinset _ (List.nodup_dedup _)]
  apply sum_minerGroup
  intro r member
  exact List.mem_toFinset.mpr (List.mem_dedup.mpr (List.mem_map_of_mem member))

/-! ## All of it -/

/-- The totals of a ledger agree with the calls that were made and with each other. -/
structure BooksAgree (L : PayoutLedger) (calls : List LedgerCall) : Prop where
  credited : ∀ miner, L.getPendingTotal miner + L.getTotalPaid miner = (calls.map (LedgerCall.creditedTo miner)).sum
  overMiners : L.getTotalPendingAcrossAllMiners = ∑ᶠ miner, L.getPendingTotal miner
  overGroups : L.getTotalPendingAcrossAllMiners = (L.getAllPendingTotals.map (·.totalPendingSats)).sum

/-- **The ledger keeps its history**: whatever calls are made, a row stays the credit it was, moves
on only from PENDING to SENT to CONFIRMED, has a txid exactly from SENT on and always the same one,
and all totals agree. -/
theorem ledger_history (before calls : List LedgerCall) :
    (∀ r ∈ (after before).rows, ∃ r' ∈ (after (before ++ calls)).rows, RowHistory r r' ∧
      ∀ r'' ∈ (after (before ++ calls)).rows, r''.id = r.id → r'' = r') ∧
    (∀ r ∈ (after before).rows, (r.txid = none ↔ r.status = .pending)) ∧ (after before).BooksAgree before := by
  refine ⟨?_, (after before).txids, ?_, ?_, ?_⟩
  · intro r member
    obtain ⟨r', member', history⟩ := rowHistory_after before member calls
    refine ⟨r', member', history, fun r'' member'' same => ?_⟩
    exact row_eq member'' member' (same.trans history.id.symm)
  · intro miner
    rw [pending_add_paid, totalCredited_after]
  · exact (finsum_getPendingTotal _).symm
  · exact (sum_getAllPendingTotals _).symm

end PayoutLedger

end ElektronPool.Pplns
