import ElektronPool.Pplns.Payments

/-!
# Payouts and reorganisations

A ledger row knows the height of its block and not the block: a cycle asks for every PENDING row
up to the height that the tip makes mature, whichever block the active chain has there.
`ChainWorld` puts the active chain of the node beside the services, and `Origins` records which
pool block each row is a credit of. As long as no reorganisation buries another block at the
height of one with unpaid credits, whatever is requested is confirmed (`matured_of_undisturbed`).
-/

namespace ElektronPool.Pplns
set_option autoImplicit false
open Js Async

/-! ## The services and the chain -/

/-- `chain[h]` is the active block at height `h`, from the genesis block to the tip. -/
structure ChainWorld (B : Type) where
  services : Services
  chain : List B

inductive ChainEvent (B : Type) where
  | service (e : ServiceEvent)
  /-- `processBlockFound` is called for a block of the pool. -/
  | found (block : B) (height : ℕ) (nowMs : ℤ) (blockRewardSats : ℕ)
  /-- The node switches to this active chain. -/
  | activate (chain : List B)

/-- `getmininginfo` answers with the height of the tip, and rewards are for blocks found. -/
def ServiceEvent.fitsChain {B : Type} (chain : List B) : ServiceEvent → Bool
  | .start (.reward _) => false
  | .resume _ (.miningInfo (some blocks)) => blocks + 1 = chain.length
  | _ => true

def ChainWorld.step {B : Type} (settings : Settings) (w : ChainWorld B) : ChainEvent B → Option (ChainWorld B)
  | .service e =>
    if ServiceEvent.fitsChain w.chain e then
      (Services.step settings w.services e).map fun p => { w with services := p }
    else none
  | .found _ height nowMs reward =>
    (Services.step settings w.services (.start (.reward (.processBlockFound settings nowMs height reward)))).map
      fun p => { w with services := p }
  | .activate chain => some { w with chain := chain }

/-! ## What becomes of the credits of a block -/

namespace Call

/-- The height of the block whose credits the call still has to write. -/
def crediting : Call → Option ℤ
  | .reward (.shares height _ _) | .reward (.credit height _ _ _ _ _ _ _) => some height
  | _ => none

/-- The height up to which the call reads rows when it goes on. -/
def readsUpTo : Call → Option ℤ
  | .cycle (.totals matureUpToHeight) => some matureUpToHeight
  | _ => none

/-- The rows behind the candidates that the call has read and may still ask for. -/
def carriedIds (t : Call) : List ℕ := t.reading.flatMap (·.rowIds)

/-- The candidates of a `sendmany` that has just been called. -/
def requested : Call → Option (List PendingPayoutCandidate)
  | .cycle (.send candidates) | .cycle (.sendFallback candidates) => some candidates
  | _ => none

theorem reading_of_requested {t : Call} {cs : List PendingPayoutCandidate} (requested : t.requested = some cs) :
    t.reading = cs := by
  unfold Call.requested at requested
  split at requested <;> cases requested <;> rfl

end Call

/-- A `sendmany` as it was called: its candidates, and the ledger, the blocks of its rows and the
chain of that time. -/
structure WalletRequest (B : Type) where
  payouts : List PendingPayoutCandidate
  ledger : PayoutLedger
  rows : List (ℕ × B)
  chain : List B

/-- The blocks, each with its height, that reward calls were made for (by the index of the call) and
that ledger rows are credits of (in the order of the rows), and what was requested so far. -/
structure Origins (B : Type) where
  found : ℕ → Option (ℕ × B)
  rows : List (ℕ × B)
  requests : List (WalletRequest B)

namespace Origins
variable {B : Type}

def empty : Origins B := ⟨fun _ => none, [], []⟩

/-- The block of the row with this id. -/
def block (g : Origins B) (id : ℕ) : Option (ℕ × B) := g.rows[id - 1]?

/-- The rows once a call may have inserted one. -/
def rowsAfter (g : Origins B) (k : ℕ) (ledger ledger' : PayoutLedger) : List (ℕ × B) :=
  if ledger.rows.length < ledger'.rows.length then g.rows ++ (g.found k).toList else g.rows

/-- The record behind an event. -/
def next (g : Origins B) (w : ChainWorld B) (e : ChainEvent B) (w' : ChainWorld B) : Origins B :=
  match e with
  | .service (.resume k _) =>
    let rows := g.rowsAfter k w.services.shared.ledger w'.services.shared.ledger
    { g with
      rows := rows
      requests := g.requests ++ ((w'.services.calls[k]?.bind Call.requested).map fun payouts =>
        ⟨payouts, w'.services.shared.ledger, rows, w'.chain⟩).toList }
  | .found block height _ _ => { g with found := Function.update g.found w.services.calls.length (some (height, block)) }
  | _ => g

/-- The blocks whose credits a call still has to write, or asks the wallet for. -/
def held (g : Origins B) (k : ℕ) (t : Call) : List (ℕ × B) :=
  (t.crediting.bind fun _ => g.found k).toList ++ t.carriedIds.filterMap g.block

/-- The pool blocks with credits that are not paid. -/
def unpaid (g : Origins B) (p : Services) : List (ℕ × B) :=
  (p.shared.ledger.pendingRows.map (·.id)).filterMap g.block ++ p.calls.zipIdx.flatMap fun x => g.held x.2 x.1

theorem mem_unpaid {g : Origins B} {p : Services} {x : ℕ × B} : x ∈ g.unpaid p ↔
    (∃ i, p.shared.ledger.Pending i ∧ g.block i = some x) ∨ ∃ k t, p.calls[k]? = some t ∧ x ∈ g.held k t := by
  simp only [unpaid, List.mem_append, List.mem_filterMap, List.mem_map, List.mem_flatMap, PayoutLedger.pendingRows,
    List.mem_filter, decide_eq_true_eq, List.mem_zipIdx_iff_getElem?, Prod.exists, PayoutLedger.Pending]
  constructor
  · rintro (⟨_, ⟨r, ⟨member, pending⟩, rfl⟩, block⟩ | ⟨t, k, at_k, held⟩)
    · exact .inl ⟨r.id, ⟨r, member, rfl, pending⟩, block⟩
    · exact .inr ⟨k, t, at_k, held⟩
  · rintro (⟨_, ⟨r, member, rfl, pending⟩, block⟩ | ⟨k, t, at_k, held⟩)
    · exact .inl ⟨r.id, ⟨r, ⟨member, pending⟩, rfl⟩, block⟩
    · exact .inr ⟨t, k, at_k, held⟩

theorem mem_held {g : Origins B} {k : ℕ} {t : Call} {x : ℕ × B} : x ∈ g.held k t ↔
    (t.crediting.isSome ∧ g.found k = some x) ∨ ∃ i ∈ t.carriedIds, g.block i = some x := by
  unfold held
  cases t.crediting <;> simp

end Origins

/-! ## Requests for confirmed blocks -/

/-- The block is on the chain, with this many confirmations at least. -/
def Confirmed {B : Type} (confirmations : ℕ) (chain : List B) (x : ℕ × B) : Prop :=
  chain[x.1]? = some x.2 ∧ confirmations ≤ chain.length - x.1

/-- Every lep requested is one of a credit whose block is confirmed. -/
def WalletRequest.Matured {B : Type} (maturity : ℕ) (q : WalletRequest B) : Prop :=
  ∀ c ∈ q.payouts, Backed q.ledger c ∧ ∀ i ∈ c.rowIds, ∃ x, q.rows[i - 1]? = some x ∧ Confirmed maturity q.chain x

section
variable {B : Type}

/-- Where the chain counts the height of a block as mature, it has the block there. -/
def Keeps (maturity : ℕ) (chain : List B) (x : ℕ × B) : Prop :=
  x.1 + maturity ≤ chain.length → chain[x.1]? = some x.2

instance [DecidableEq B] (maturity : ℕ) (chain : List B) : DecidablePred (Keeps maturity chain) :=
  fun _ => inferInstanceAs (Decidable (_ → _))

/-- The chain is as long as the call takes it to be: what it reads and carries is mature by height. -/
def LongEnough (maturity : ℕ) (g : Origins B) (chain : List B) (t : Call) : Prop :=
  (∀ upTo ∈ t.readsUpTo, upTo + maturity ≤ chain.length) ∧
    ∀ i ∈ t.carriedIds, ∀ x ∈ g.block i, x.1 + maturity ≤ chain.length

instance (maturity : ℕ) (g : Origins B) (chain : List B) : DecidablePred (LongEnough maturity g chain) :=
  fun _ => inferInstanceAs (Decidable (_ ∧ _))

/-- No block takes the place of a pool block with unpaid credits and is mature there, and the tip
never falls behind what a cycle in progress goes by. -/
def Undisturbed (maturity : ℕ) (q : ChainWorld B × Origins B) : ChainEvent B → Prop
  | .service _ => True
  | .found block height _ _ => Keeps maturity q.1.chain (height, block)
  | .activate chain => (∀ x ∈ q.2.unpaid q.1.services, Keeps maturity chain x) ∧
      ∀ t ∈ q.1.services.calls, LongEnough maturity q.2 chain t

instance [DecidableEq B] (maturity : ℕ) : ∀ (q : ChainWorld B × Origins B) (e : ChainEvent B),
    Decidable (Undisturbed maturity q e)
  | _, .service _ => inferInstanceAs (Decidable True)
  | q, .found block height _ _ => inferInstanceAs (Decidable (Keeps maturity q.1.chain (height, block)))
  | q, .activate chain => inferInstanceAs (Decidable ((∀ x ∈ q.2.unpaid q.1.services, Keeps maturity chain x) ∧ _))

end

/-! ## What one resumption does -/

/-- An answer inserts no row, or one for the block whose credits the call writes. -/
inductive LedgerStep (L L' : PayoutLedger) (t : Call) : Prop
  | update {f : PayoutLedgerEntity → PayoutLedgerEntity} (keeps : KeepsCredit f) (ledger : L' = L.update f keeps)
  | credit {r : PayoutLedgerEntity} (crediting : t.crediting = some r.blockHeight) (id : r.id = L.rows.length + 1)
      (rows : L'.rows = L.rows ++ [r])

theorem LedgerStep.later {L L' : PayoutLedger} {t : Call} (step : LedgerStep L L' t) : L.Later L' := by
  cases step with
  | update keeps ledger => exact ledger ▸ PayoutLedger.later_update L keeps
  | @credit r _ _ rows => exact ⟨_, [r], keepsCredit_id, by rw [rows, List.map_id']⟩

namespace Call
variable {settings : Settings} {s s' : PplnsState} {t t' : Call} {a : Answer}

theorem ledgerStep_of_leavesCredits (leaves : LeavesCredits s s') : LedgerStep s.ledger s'.ledger t := by
  obtain ⟨f, keeps, ledger⟩ := leaves.ledger
  exact .update keeps ledger

theorem ledgerStep_credit {address : String} {amount h : ℤ} (crediting : t.crediting = some h) (L : PayoutLedger) :
    LedgerStep L (L.credit address amount h) t := by
  by_cases positive : 0 < amount
  · exact .credit crediting rfl (PayoutLedger.rows_credit_of_pos positive)
  · apply LedgerStep.update keepsCredit_id
    rw [PayoutLedger.credit_of_nonpos (not_lt.mp positive), PayoutLedger.update_id]

theorem ledgerStep (resumed : t.resume settings s a = some (s', t')) : LedgerStep s.ledger s'.ledger t := by
  cases resumed_of_resume resumed with
  | reward step =>
    unfold RewardCall.resume at step
    split at step <;> cases step
    case h_2 => exact ledgerStep_credit rfl _
    all_goals exact .update keepsCredit_id (by simp)
  | cycle step => exact ledgerStep_of_leavesCredits (PayoutCycle.leavesCredits step)
  | reconcile step => exact ledgerStep_of_leavesCredits (Reconciliation.leavesCredits step)
  | record | prune => exact .update keepsCredit_id (by simp)

theorem crediting_nextCredit {height fee distributable allocated h : ℤ} {reward : ℕ} {totals : OrderedMap String ℤ}
    (crediting : (Call.reward (.nextCredit height reward fee distributable allocated totals)).crediting = some h) :
    height = h := by
  induction totals with
  | nil => cases crediting
  | cons entry rest ih =>
    rw [RewardCall.nextCredit] at crediting
    split at crediting
    · exact ih crediting
    · exact Option.some.inj crediting

/-- A reward call stays with its block. -/
theorem crediting_resume {h : ℤ} (resumed : t.resume settings s a = some (s', t')) (crediting : t'.crediting = some h) :
    t.crediting = some h := by
  cases resumed_of_resume resumed with
  | reward step =>
    unfold RewardCall.resume at step
    split at step <;> cases step
    case h_1 =>
      simp only [RewardCall.splitReward] at crediting
      split at crediting
      · cases crediting
      · exact congrArg some (crediting_nextCredit crediting)
    case h_2 => exact congrArg some (crediting_nextCredit crediting)
    all_goals cases crediting
  | _ => cases crediting

theorem reading_retry (settings : Settings) (cs : List PendingPayoutCandidate) (message : Option String) :
    (PayoutCycle.retry settings cs message).reading.Sublist cs := by
  unfold PayoutCycle.retry
  split
  · exact .refl _
  · rw [PayoutCycle.reading_settle]
    exact List.nil_sublist _

/-- A cycle carries what it carried before, or what it has just read. -/
theorem reading_cycle_resume {t t' : PayoutCycle} (resumed : t.resume settings s a = some (s', t')) :
    t'.reading.Sublist t.reading ∨
      ∃ upTo, t = .totals upTo ∧ t'.reading.Sublist (s.ledger.getMaturePendingTotals upTo) := by
  unfold PayoutCycle.resume at resumed
  split at resumed <;> cases resumed
  case h_3 upTo => -- the query
    refine .inr ⟨upTo, rfl, ?_⟩
    split
    · exact List.nil_sublist _
    · exact .refl _
  case h_5 allPending rows => -- candidates below their threshold are dropped
    apply Or.inl
    split
    · exact List.nil_sublist _
    · exact List.filter_sublist
  case h_7 candidates _ => -- the balance check
    apply Or.inl
    split
    · exact List.nil_sublist _
    · split <;> exact List.Sublist.refl candidates
  case h_9 => exact .inl (.refl _)
  case h_12 | h_13 => exact .inl (reading_retry ..)
  case h_11 | h_14 | h_15 | h_16 => simp
  case h_17 | h_18 => simp
  case h_19 => simp
  all_goals exact .inl (List.nil_sublist _)

theorem reading_resume (resumed : t.resume settings s a = some (s', t')) : t'.reading.Sublist t.reading ∨
    ∃ upTo, t.readsUpTo = some upTo ∧ t'.reading.Sublist (s.ledger.getMaturePendingTotals upTo) := by
  cases resumed_of_resume resumed with
  | cycle step =>
    rcases reading_cycle_resume step with carried | ⟨upTo, rfl, read⟩
    · exact .inl carried
    · exact .inr ⟨upTo, rfl, read⟩
  | _ => exact .inl (List.nil_sublist _)

theorem readsUpTo_nextMark (txid : String) (cs : List PendingPayoutCandidate) :
    (cycle (.nextMark txid cs)).readsUpTo = none := by cases cs <;> rfl

theorem readsUpTo_afterSend (cs : List PendingPayoutCandidate) (result : Option String) :
    (cycle (.afterSend cs result)).readsUpTo = none := by
  cases result with
  | none => rfl
  | some txid => exact readsUpTo_nextMark txid cs

theorem readsUpTo_settle (settings : Settings) (cs : List PendingPayoutCandidate) (result : Option String) :
    (cycle (.settle settings cs result)).readsUpTo = none := by
  unfold PayoutCycle.settle
  split
  · rfl
  · exact readsUpTo_afterSend cs result

theorem readsUpTo_retry (settings : Settings) (cs : List PendingPayoutCandidate) (message : Option String) :
    (cycle (.retry settings cs message)).readsUpTo = none := by
  unfold PayoutCycle.retry
  split
  · rfl
  · exact readsUpTo_settle ..

/-- The height a cycle goes by is the one it has just been told. -/
theorem readsUpTo_resume {upTo : ℤ} (resumed : t.resume settings s a = some (s', t'))
    (reads : t'.readsUpTo = some upTo) :
    ∃ blocks, a = .miningInfo (some blocks) ∧ upTo = PayoutCycle.matureUpToHeight settings blocks := by
  cases resumed_of_resume resumed with
  | cycle step =>
    unfold PayoutCycle.resume at step
    split at step <;> cases step
    case h_2 blocks => exact ⟨blocks, rfl, (Option.some.inj reads).symm⟩
    case h_3 | h_5 => split at reads <;> cases reads
    case h_7 =>
      split at reads
      · cases reads
      · split at reads <;> cases reads
    case h_11 | h_14 | h_15 | h_16 =>
      rw [readsUpTo_settle] at reads
      cases reads
    case h_12 | h_13 =>
      rw [readsUpTo_retry] at reads
      cases reads
    case h_17 | h_18 =>
      rw [readsUpTo_afterSend] at reads
      cases reads
    case h_19 =>
      rw [readsUpTo_nextMark] at reads
      cases reads
    all_goals cases reads
  | _ => cases reads

end Call

/-! ## The blocks of the rows -/

section
variable {B : Type} {settings : Settings} {s s' : PplnsState} {calls : List Call} {g g' : Origins B} {k : ℕ}
  {t t' : Call} {a : Answer}

/-- The record fits the services: each row has a block of its height, so has each call that writes
rows, and what is carried was read from the ledger. -/
structure Traced (p : Services) (g : Origins B) : Prop where
  length : g.rows.length = p.shared.ledger.rows.length
  heights : ∀ r ∈ p.shared.ledger.rows, ∀ x ∈ g.block r.id, r.blockHeight = x.1
  found : ∀ k t (h : ℤ), p.calls[k]? = some t → t.crediting = some h → ∃ x, g.found k = some x ∧ h = x.1
  backed : ∀ t ∈ p.calls, ∀ c ∈ t.reading, Backed p.shared.ledger c

theorem Traced.exists_block {p : Services} (traced : Traced p g) {r : PayoutLedgerEntity}
    (member : r ∈ p.shared.ledger.rows) : ∃ x, g.block r.id = some x := by
  have bound := PayoutLedger.id_le_length member
  have positive : 1 ≤ r.id := PayoutLedger.one_le_id member
  have inRows : r.id - 1 < g.rows.length := by
    rw [traced.length]
    omega
  exact ⟨_, List.getElem?_eq_getElem inRows⟩

/-- What an answer makes of the ledger and the record of its rows. -/
inductive RowsStep (g : Origins B) (L L' : PayoutLedger) (k : ℕ) (t : Call) (rows : List (ℕ × B)) : Prop
  | update (later : ∀ r' ∈ L'.rows, ∃ r ∈ L.rows, r'.id = r.id ∧ r'.blockHeight = r.blockHeight)
      (length : L'.rows.length = L.rows.length) (same : rows = g.rows)
  | credit {r : PayoutLedgerEntity} {x : ℕ × B} (found : g.found k = some x) (crediting : t.crediting = some r.blockHeight)
      (height : r.blockHeight = x.1) (id : r.id = L.rows.length + 1) (ledger : L'.rows = L.rows ++ [r])
      (same : rows = g.rows ++ [x])

theorem Traced.rowsStep (traced : Traced ⟨s, calls⟩ g) (at_k : calls[k]? = some t)
    (resumed : t.resume settings s a = some (s', t')) :
    RowsStep g s.ledger s'.ledger k t (g.rowsAfter k s.ledger s'.ledger) := by
  unfold Origins.rowsAfter
  cases Call.ledgerStep resumed with
  | update keeps ledger =>
    have length : s'.ledger.rows.length = s.ledger.rows.length := by
      rw [ledger]
      exact List.length_map ..
    rw [if_neg (by omega)]
    refine .update ?_ length rfl
    intro r' member
    rw [ledger] at member
    obtain ⟨r, inRows, rfl⟩ := List.mem_map.mp member
    exact ⟨r, inRows, keeps.id r, keeps.blockHeight r⟩
  | credit crediting id rows =>
    obtain ⟨x, found, height⟩ := traced.found k t _ at_k crediting
    rw [if_pos (by simp [rows]), found]
    exact .credit found crediting height id rows rfl

section
variable {L L' : PayoutLedger} {rows : List (ℕ × B)}

/-- A row keeps its block. -/
theorem RowsStep.block (step : RowsStep g L L' k t g'.rows) {i : ℕ} {x : ℕ × B} (block : g.block i = some x) :
    g'.block i = some x := by
  cases step with
  | update _ _ same => rwa [Origins.block, same]
  | credit _ _ _ _ _ same =>
    obtain ⟨bound, -⟩ := List.getElem?_eq_some_iff.mp block
    rw [Origins.block, same, List.getElem?_append_left bound]
    exact block

theorem RowsStep.length_rows (step : RowsStep g L L' k t g'.rows) (length : g.rows.length = L.rows.length) :
    g'.rows.length = L'.rows.length := by
  cases step with
  | update _ same_length same => rw [same, length, same_length]
  | credit _ _ _ _ ledger same => rw [same, ledger, List.length_append, List.length_append, length]; rfl

/-- A row has the block it had, or it is new and has the block of the call. -/
theorem RowsStep.row (step : RowsStep g L L' k t g'.rows) (length : g.rows.length = L.rows.length)
    {r' : PayoutLedgerEntity} (member : r' ∈ L'.rows) :
    (∃ r ∈ L.rows, r'.id = r.id ∧ r'.blockHeight = r.blockHeight) ∨
      ∃ x, g.found k = some x ∧ t.crediting.isSome ∧ r'.blockHeight = x.1 ∧ g'.block r'.id = some x := by
  cases step with
  | update later => exact .inl (later r' member)
  | @credit r x found crediting height id ledger same =>
    rw [ledger] at member
    rcases List.mem_append.mp member with old | new
    · exact .inl ⟨r', old, rfl, rfl⟩
    · obtain rfl := List.mem_singleton.mp new
      refine .inr ⟨x, found, by simp [crediting], height, ?_⟩
      rw [Origins.block, same, id, Nat.add_sub_cancel, ← length, List.getElem?_concat_length]

end

/-- Candidates that were just read are backed by rows that were PENDING, up to the height asked for. -/
theorem backed_of_getMaturePendingTotals {L : PayoutLedger} {upTo : ℤ} {c : PendingPayoutCandidate}
    (member : c ∈ L.getMaturePendingTotals upTo) : Backed L c ∧
      ∀ i ∈ c.rowIds, ∃ r ∈ L.rows, r.id = i ∧ r.status = .pending ∧ r.blockHeight ≤ upTo := by
  rw [(mem_groupByMiner.mp member).2]
  refine ⟨backed_groupTotals .., fun i inGroup => ?_⟩
  obtain ⟨r, selected, rfl⟩ := List.mem_map.mp inGroup
  obtain ⟨inRows, pending⟩ := List.mem_filter.mp (List.mem_of_mem_filter selected)
  obtain ⟨pending, height⟩ := of_decide_eq_true pending
  exact ⟨r, inRows, rfl, pending, height⟩

theorem Traced.resume (traced : Traced ⟨s, calls⟩ g) (at_k : calls[k]? = some t)
    (resumed : t.resume settings s a = some (s', t')) (found : g'.found = g.found)
    (rows : g'.rows = g.rowsAfter k s.ledger s'.ledger) : Traced ⟨s', calls.set k t'⟩ g' := by
  have step : RowsStep g s.ledger s'.ledger k t g'.rows := rows ▸ traced.rowsStep at_k resumed
  have later := (Call.ledgerStep resumed).later
  constructor
  · exact step.length_rows traced.length
  · intro r' member x block
    rcases step.row traced.length member with ⟨r, old, id, height⟩ | ⟨y, -, -, height, block'⟩
    · obtain ⟨y, block'⟩ := traced.exists_block old
      have same := step.block block'
      rw [← id, block] at same
      cases same
      rw [height, traced.heights r old x block']
    · rw [block] at block'
      cases block'
      exact height
  · intro j u h at_j crediting
    rw [found]
    rcases getElem?_set_some at_j with ⟨rfl, rfl⟩ | ⟨-, at_j⟩
    · exact traced.found _ t h at_k (Call.crediting_resume resumed crediting)
    · exact traced.found j u h at_j crediting
  · intro u member c inReading
    rcases List.mem_or_eq_of_mem_set member with old | rfl
    · exact (traced.backed u old c inReading).later later
    · rcases Call.reading_resume resumed with carried | ⟨upTo, -, read⟩
      · exact (traced.backed t (List.mem_of_getElem? at_k) c (carried.subset inReading)).later later
      · exact (backed_of_getMaturePendingTotals (read.subset inReading)).1.later later

/-- The row behind a carried id has a block, and keeps it. -/
theorem Traced.block_carried {p : Services} (traced : Traced p g) {L' : PayoutLedger}
    (step : RowsStep g p.shared.ledger L' k t g'.rows) {u : Call} (member : u ∈ p.calls) {i : ℕ} {x : ℕ × B}
    (carried : i ∈ u.carriedIds) (block : g'.block i = some x) : g.block i = some x := by
  obtain ⟨c, inReading, inRows⟩ := List.mem_flatMap.mp carried
  obtain ⟨r, row, rfl, -⟩ := (traced.backed u member c inReading).rows i inRows
  obtain ⟨y, old⟩ := traced.exists_block row
  rw [step.block old] at block
  rwa [old]

/-- No block becomes unpaid again: credits are written by calls, read by cycles, and paid. -/
theorem Traced.mem_unpaid_of_resume (traced : Traced ⟨s, calls⟩ g) (at_k : calls[k]? = some t)
    (resumed : t.resume settings s a = some (s', t')) (found : g'.found = g.found)
    (rows : g'.rows = g.rowsAfter k s.ledger s'.ledger) {x : ℕ × B} (unpaid : x ∈ g'.unpaid ⟨s', calls.set k t'⟩) :
    x ∈ g.unpaid ⟨s, calls⟩ := by
  have step : RowsStep g s.ledger s'.ledger k t g'.rows := rows ▸ traced.rowsStep at_k resumed
  have later := (Call.ledgerStep resumed).later
  have member : t ∈ calls := List.mem_of_getElem? at_k
  rw [Origins.mem_unpaid] at unpaid ⊢
  rcases unpaid with ⟨i, ⟨r', inRows, rfl, pending⟩, block⟩ | ⟨j, u, at_j, held⟩
  · rcases step.row traced.length inRows with ⟨r, old, id, -⟩ | ⟨y, is_found, crediting, -, block'⟩
    · have was := later.pending (PayoutLedger.id_le_length old) ⟨r', inRows, id, pending⟩
      obtain ⟨y, block'⟩ := traced.exists_block old
      rw [id, step.block block'] at block
      exact .inl ⟨r.id, was, by rw [block', block]⟩
    · rw [block] at block'
      cases block'
      exact .inr ⟨k, t, at_k, Origins.mem_held.mpr (.inl ⟨crediting, is_found⟩)⟩
  · rw [Origins.mem_held, found] at held
    rcases getElem?_set_some at_j with ⟨rfl, rfl⟩ | ⟨-, at_j⟩
    · rcases held with ⟨crediting, is_found⟩ | ⟨i, carried, block⟩
      · obtain ⟨h, is_h⟩ := Option.isSome_iff_exists.mp crediting
        have before := Call.crediting_resume resumed is_h
        exact .inr ⟨k, t, at_k, Origins.mem_held.mpr (.inl ⟨by rw [before]; rfl, is_found⟩)⟩
      · rcases Call.reading_resume resumed with kept | ⟨upTo, -, read⟩
        · have carried := flatMap_sublist kept carried
          have block := traced.block_carried step member carried block
          exact .inr ⟨k, t, at_k, Origins.mem_held.mpr (.inr ⟨i, carried, block⟩)⟩
        · obtain ⟨c, inReading, inIds⟩ := List.mem_flatMap.mp carried
          obtain ⟨-, rows⟩ := backed_of_getMaturePendingTotals (read.subset inReading)
          obtain ⟨r, inRows, rfl, pending, -⟩ := rows i inIds
          obtain ⟨y, block'⟩ := traced.exists_block inRows
          rw [step.block block'] at block
          exact .inl ⟨r.id, ⟨r, inRows, rfl, pending⟩, by rw [block', block]⟩
    · rcases held with ⟨crediting, is_found⟩ | ⟨i, carried, block⟩
      · exact .inr ⟨j, u, at_j, Origins.mem_held.mpr (.inl ⟨crediting, is_found⟩)⟩
      · have block := traced.block_carried step (List.mem_of_getElem? at_j) carried block
        exact .inr ⟨j, u, at_j, Origins.mem_held.mpr (.inr ⟨i, carried, block⟩)⟩

/-- What the calls go by stays mature by height while the chain stays as it is. -/
theorem Traced.longEnough_of_resume {chain : List B} (traced : Traced ⟨s, calls⟩ g) (at_k : calls[k]? = some t)
    (resumed : t.resume settings s a = some (s', t')) (rows : g'.rows = g.rowsAfter k s.ledger s'.ledger)
    (tip : ∀ blocks, a = .miningInfo (some blocks) → blocks + 1 = chain.length)
    (longEnough : ∀ u ∈ calls, LongEnough settings.coinbaseMaturity g chain u) :
    ∀ u ∈ calls.set k t', LongEnough settings.coinbaseMaturity g' chain u := by
  have step : RowsStep g s.ledger s'.ledger k t g'.rows := rows ▸ traced.rowsStep at_k resumed
  have others : ∀ u ∈ calls, LongEnough settings.coinbaseMaturity g' chain u := by
    intro u member
    refine ⟨(longEnough u member).1, fun i carried x block => ?_⟩
    exact (longEnough u member).2 i carried x (traced.block_carried step member carried block)
  have member : t ∈ calls := List.mem_of_getElem? at_k
  intro u inCalls
  rcases List.mem_or_eq_of_mem_set inCalls with old | rfl
  · exact others u old
  · constructor
    · intro upTo reads
      obtain ⟨blocks, rfl, rfl⟩ := Call.readsUpTo_resume resumed reads
      have := tip blocks rfl
      unfold PayoutCycle.matureUpToHeight
      omega
    · intro i carried x block
      rcases Call.reading_resume resumed with kept | ⟨upTo, reads, read⟩
      · exact (others t member).2 i (flatMap_sublist kept carried) x block
      · obtain ⟨c, inReading, inIds⟩ := List.mem_flatMap.mp carried
        obtain ⟨-, rows⟩ := backed_of_getMaturePendingTotals (read.subset inReading)
        obtain ⟨r, inRows, rfl, -, height⟩ := rows i inIds
        obtain ⟨y, block'⟩ := traced.exists_block inRows
        have same := step.block block'
        rw [block] at same
        cases same
        have reaches := (longEnough t member).1 upTo reads
        have is_height := traced.heights r inRows x block'
        omega

/-! ## Calls that begin -/

/-- A call that no block is behind. -/
theorem Call.crediting_of_fitsChain {chain : List B} (fits : ServiceEvent.fitsChain chain (.start t) = true) :
    t.crediting = none := by
  cases t with
  | reward => cases fits
  | _ => rfl

/-- A call at its beginning carries nothing. -/
theorem Call.idle_of_isEntry (entry : t.isEntry = true) : t.reading = [] ∧ t.readsUpTo = none := by
  unfold Call.isEntry at entry
  split at entry
  · exact ⟨rfl, rfl⟩
  · exact ⟨rfl, rfl⟩
  · exact ⟨rfl, rfl⟩
  · exact ⟨rfl, rfl⟩
  · exact ⟨rfl, rfl⟩
  · cases entry

/-- The record once a call has begun: what it writes for is noted under its index. -/
structure Begins (g g' : Origins B) (n : ℕ) (t : Call) : Prop where
  rows : g'.rows = g.rows
  before : ∀ k < n, g'.found k = g.found k
  own : ∀ h : ℤ, t.crediting = some h → ∃ x, g'.found n = some x ∧ h = x.1

theorem Begins.block (begins : Begins g g' calls.length t) (i : ℕ) : g'.block i = g.block i := by
  rw [Origins.block, begins.rows, Origins.block]

theorem Traced.begin (traced : Traced ⟨s, calls⟩ g) (entry : t.isEntry = true) (begins : Begins g g' calls.length t) :
    Traced ⟨s, calls ++ [t]⟩ g' where
  length := begins.rows ▸ traced.length
  heights r member x block := traced.heights r member x (begins.block r.id ▸ block)
  found k u h at_k crediting := by
    rcases getElem?_concat_some at_k with old | ⟨rfl, rfl⟩
    · obtain ⟨bound, -⟩ := List.getElem?_eq_some_iff.mp old
      rw [begins.before k bound]
      exact traced.found k u h old crediting
    · exact begins.own h crediting
  backed u member c inReading := by
    rcases List.mem_append.mp member with old | new
    · exact traced.backed u old c inReading
    · rw [List.mem_singleton.mp new, (Call.idle_of_isEntry entry).1] at inReading
      cases inReading

theorem mem_unpaid_of_begin (entry : t.isEntry = true) (begins : Begins g g' calls.length t) {x : ℕ × B}
    (unpaid : x ∈ g'.unpaid ⟨s, calls ++ [t]⟩) :
    x ∈ g.unpaid ⟨s, calls⟩ ∨ (t.crediting.isSome ∧ g'.found calls.length = some x) := by
  rw [Origins.mem_unpaid] at unpaid ⊢
  rcases unpaid with ⟨i, pending, block⟩ | ⟨k, u, at_k, held⟩
  · exact .inl (.inl ⟨i, pending, begins.block i ▸ block⟩)
  · rw [Origins.mem_held] at held
    rcases getElem?_concat_some at_k with old | ⟨rfl, rfl⟩
    · obtain ⟨bound, -⟩ := List.getElem?_eq_some_iff.mp old
      refine .inl (.inr ⟨k, u, old, Origins.mem_held.mpr ?_⟩)
      rw [← begins.before k bound]
      exact held.imp_right fun ⟨i, carried, block⟩ => ⟨i, carried, begins.block i ▸ block⟩
    · rcases held with writes | ⟨i, carried, -⟩
      · exact .inr writes
      · rw [Call.carriedIds, (Call.idle_of_isEntry entry).1] at carried
        cases carried

theorem longEnough_of_begin {maturity : ℕ} {chain : List B} (entry : t.isEntry = true)
    (begins : Begins g g' calls.length t) (longEnough : ∀ u ∈ calls, LongEnough maturity g chain u) :
    ∀ u ∈ calls ++ [t], LongEnough maturity g' chain u := by
  intro u member
  rcases List.mem_append.mp member with old | new
  · exact ⟨(longEnough u old).1, fun i carried x block => (longEnough u old).2 i carried x (begins.block i ▸ block)⟩
  · obtain ⟨reading, reads⟩ := Call.idle_of_isEntry entry
    rw [List.mem_singleton.mp new, LongEnough, Call.carriedIds, reading, reads]
    exact ⟨by simp, by simp⟩

/-! ## Every run -/

/-- Unpaid blocks are on the chain where it is long enough to count them as mature, it is as long as
the cycles in progress take it to be, and what was requested so far was confirmed. -/
structure Steady (maturity : ℕ) (w : ChainWorld B) (g : Origins B) : Prop where
  traced : Traced w.services g
  keeps : ∀ x ∈ g.unpaid w.services, Keeps maturity w.chain x
  longEnough : ∀ t ∈ w.services.calls, LongEnough maturity g w.chain t
  matured : ∀ r ∈ g.requests, r.Matured maturity

/-- What a call asks the wallet for is unpaid and mature by height, hence on the chain. -/
theorem matured_of_requested {maturity : ℕ} {chain : List B} {p : Services} {cs : List PendingPayoutCandidate}
    (traced : Traced p g) (keeps : ∀ x ∈ g.unpaid p, Keeps maturity chain x)
    (longEnough : ∀ t ∈ p.calls, LongEnough maturity g chain t) (at_k : p.calls[k]? = some t)
    (requested : t.requested = some cs) : WalletRequest.Matured maturity ⟨cs, p.shared.ledger, g.rows, chain⟩ := by
  intro c member
  have reading := Call.reading_of_requested requested
  have inCalls : t ∈ p.calls := List.mem_of_getElem? at_k
  have backed := traced.backed t inCalls c (reading ▸ member)
  refine ⟨backed, fun i inIds => ?_⟩
  obtain ⟨r, inRows, rfl, -⟩ := backed.rows i inIds
  obtain ⟨x, block⟩ := traced.exists_block inRows
  have carried : r.id ∈ t.carriedIds := by
    rw [Call.carriedIds, reading]
    exact List.mem_flatMap.mpr ⟨c, member, inIds⟩
  have mature := (longEnough t inCalls).2 _ carried x block
  have unpaid : x ∈ g.unpaid p :=
    Origins.mem_unpaid.mpr (.inr ⟨k, t, at_k, Origins.mem_held.mpr (.inr ⟨_, carried, block⟩)⟩)
  exact ⟨x, block, keeps x unpaid mature, Nat.le_sub_of_add_le' mature⟩

theorem steady_empty {maturity : ℕ} {chain : List B} : Steady maturity ⟨⟨.empty, []⟩, chain⟩ Origins.empty where
  traced := ⟨rfl, by simp [PplnsState.empty, PayoutLedger.empty], by simp, by simp⟩
  keeps x unpaid := by cases unpaid
  longEnough := by simp
  matured := by simp [Origins.empty]

theorem mem_requests_next {w w' : ChainWorld B} {r : WalletRequest B}
    (member : r ∈ (g.next w (.service (.resume k a)) w').requests) : r ∈ g.requests ∨
      ∃ t cs, w'.services.calls[k]? = some t ∧ t.requested = some cs ∧
        r = ⟨cs, w'.services.shared.ledger, g.rowsAfter k w.services.shared.ledger w'.services.shared.ledger, w'.chain⟩ := by
  rcases List.mem_append.mp member with old | new
  · exact .inl old
  · obtain ⟨cs, is_requested, rfl⟩ := Option.map_eq_some_iff.mp (Option.mem_toList.mp new)
    obtain ⟨t, at_k, requested⟩ := Option.bind_eq_some_iff.mp is_requested
    exact .inr ⟨t, cs, at_k, requested, rfl⟩

theorem Steady.resume {chain : List B} (steady : Steady settings.coinbaseMaturity ⟨⟨s, calls⟩, chain⟩ g)
    (at_k : calls[k]? = some t) (resumed : t.resume settings s a = some (s', t'))
    (tip : ∀ blocks, a = .miningInfo (some blocks) → blocks + 1 = chain.length) (found : g'.found = g.found)
    (rows : g'.rows = g.rowsAfter k s.ledger s'.ledger)
    (requests : ∀ r ∈ g'.requests, r ∈ g.requests ∨ ∃ u cs, (calls.set k t')[k]? = some u ∧ u.requested = some cs ∧
      r = ⟨cs, s'.ledger, g'.rows, chain⟩) :
    Steady settings.coinbaseMaturity ⟨⟨s', calls.set k t'⟩, chain⟩ g' := by
  have traced : Traced ⟨s', calls.set k t'⟩ g' := steady.traced.resume at_k resumed found rows
  have keeps : ∀ x ∈ g'.unpaid ⟨s', calls.set k t'⟩, Keeps settings.coinbaseMaturity chain x := fun x unpaid =>
    steady.keeps x (steady.traced.mem_unpaid_of_resume at_k resumed found rows unpaid)
  have longEnough : ∀ u ∈ calls.set k t', LongEnough settings.coinbaseMaturity g' chain u :=
    steady.traced.longEnough_of_resume at_k resumed rows tip steady.longEnough
  refine ⟨traced, keeps, longEnough, ?_⟩
  intro r member
  rcases requests r member with old | ⟨u, cs, at_k', requested, rfl⟩
  · exact steady.matured r old
  · exact matured_of_requested traced keeps longEnough at_k' requested

theorem Steady.begin {maturity : ℕ} {chain : List B} (steady : Steady maturity ⟨⟨s, calls⟩, chain⟩ g)
    (entry : t.isEntry = true) (begins : Begins g g' calls.length t) (requests : g'.requests = g.requests)
    (keeps : ∀ x, t.crediting.isSome → g'.found calls.length = some x → Keeps maturity chain x) :
    Steady maturity ⟨⟨s, calls ++ [t]⟩, chain⟩ g' where
  traced := steady.traced.begin entry begins
  keeps x unpaid := by
    rcases mem_unpaid_of_begin entry begins unpaid with old | ⟨writes, found⟩
    · exact steady.keeps x old
    · exact keeps x writes found
  longEnough := longEnough_of_begin entry begins steady.longEnough
  matured r member := steady.matured r (requests ▸ member)

theorem steady_step {w w' : ChainWorld B} {e : ChainEvent B} (steady : Steady settings.coinbaseMaturity w g)
    (allowed : Undisturbed settings.coinbaseMaturity (w, g) e) (stepped : w.step settings e = some w') :
    Steady settings.coinbaseMaturity w' (g.next w e w') := by
  obtain ⟨⟨s, calls⟩, chain⟩ := w
  cases e with
  | service e =>
    simp only [ChainWorld.step] at stepped
    split at stepped
    · rename_i fits
      obtain ⟨p, served, rfl⟩ := Option.map_eq_some_iff.mp stepped
      cases e with
      | start t =>
        obtain ⟨entry, rfl⟩ := Pool.start_cases served
        have none : t.crediting = none := Call.crediting_of_fitsChain fits
        exact steady.begin entry ⟨rfl, fun _ _ => rfl, by simp [none]⟩ rfl (by simp [none])
      | resume k a =>
        obtain ⟨t, s', t', at_k, resumed, rfl⟩ := Pool.resume_cases served
        have tip : ∀ blocks, a = .miningInfo (some blocks) → blocks + 1 = chain.length := by
          rintro blocks rfl
          exact of_decide_eq_true fits
        exact steady.resume at_k resumed tip rfl rfl fun r => mem_requests_next
    · cases stepped
  | found block height nowMs reward =>
    simp only [ChainWorld.step] at stepped
    obtain ⟨p, served, rfl⟩ := Option.map_eq_some_iff.mp stepped
    obtain ⟨entry, rfl⟩ := Pool.start_cases served
    have own : Function.update g.found calls.length (some (height, block)) calls.length = some (height, block) :=
      Function.update_self ..
    refine steady.begin entry ⟨rfl, fun k bound => Function.update_of_ne (Nat.ne_of_lt bound) .., ?_⟩ rfl ?_
    · intro h crediting
      cases crediting
      exact ⟨_, own, rfl⟩
    · intro x _ found
      cases own.symm.trans found
      exact allowed
  | activate chain' =>
    cases stepped
    exact ⟨steady.traced, allowed.1, allowed.2, steady.matured⟩

/-- **Requests are for confirmed blocks** in every run in which no reorganisation buries another
block at the height of a pool block with unpaid credits, or takes the tip back below what a cycle
in progress goes by. -/
theorem matured_of_undisturbed (settings : Settings) (chain : List B) (q : ChainWorld B × Origins B)
    (run : Reaches (recording (ChainWorld.step settings) Origins.next) (Undisturbed settings.coinbaseMaturity)
      (⟨⟨.empty, []⟩, chain⟩, .empty) q) :
    ∀ r ∈ q.2.requests, r.Matured settings.coinbaseMaturity := by
  have steady : Steady settings.coinbaseMaturity q.1 q.2 := by
    obtain ⟨w, g⟩ := q
    apply run.invariant_recording
    · exact steady_empty
    · exact fun _ _ _ _ steady allowed stepped => steady_step steady allowed stepped
  exact steady.matured

end

/-- Block 1 is credited, and the chain grows on it to height 100: its 200000 lep are requested. -/
theorem matured_of_undisturbed_growth : ∃ q : ChainWorld ℕ × Origins ℕ, q.2.requests.length = 1 ∧
    ∀ r ∈ q.2.requests, r.Matured 100 := by
  obtain ⟨q, run, one⟩ := exists_reaches (recording (ChainWorld.step .defaults) Origins.next)
    (Undisturbed Settings.defaults.coinbaseMaturity) (⟨⟨.empty, []⟩, [0]⟩, .empty)
    [.service (.start (.record ⟨"a", 1, 0, 0⟩)), .service (.resume 0 .executed), .activate [0, 1],
      .found 1 1 0 200000, .service (.resume 1 .executed), .service (.resume 1 .executed), .activate (List.range 101),
      .service (.start (.cycle .miningInfo)), .service (.resume 2 (.miningInfo (some 100))),
      .service (.resume 2 .executed), .service (.resume 2 (.overrides [])), .service (.resume 2 (.balance 200000))]
    (fun q => q.2.requests.length = 1) (by decide +kernel)
  exact ⟨q, one, matured_of_undisturbed .defaults [0] q run⟩

/-- Block 1 is credited, then the node switches to a chain with another block at height 1, and
this chain reaches height 100: the credit for block 1 is requested. -/
theorem not_matured_reorganisation : ¬ ∀ (settings : Settings) (chain : List ℕ) (q : ChainWorld ℕ × Origins ℕ),
    Reaches (recording (ChainWorld.step settings) Origins.next) Always (⟨⟨.empty, []⟩, chain⟩, .empty) q →
    ∀ r ∈ q.2.requests, r.Matured settings.coinbaseMaturity := by
  intro claim
  obtain ⟨q, run, r, member, c, inPayouts, ids, origin, active⟩ := exists_reaches
    (recording (ChainWorld.step .defaults) Origins.next) Always (⟨⟨.empty, []⟩, [0]⟩, .empty)
    [.service (.start (.record ⟨"a", 1, 0, 0⟩)), .service (.resume 0 .executed), .activate [0, 1],
      .found 1 1 0 200000, .service (.resume 1 .executed), .service (.resume 1 .executed),
      .activate (0 :: List.range' 201 100), .service (.start (.cycle .miningInfo)),
      .service (.resume 2 (.miningInfo (some 100))), .service (.resume 2 .executed),
      .service (.resume 2 (.overrides [])), .service (.resume 2 (.balance 200000))]
    (fun q => ∃ r ∈ q.2.requests, ∃ c ∈ r.payouts, c.rowIds = [1] ∧ r.rows[0]? = some (1, 1) ∧ r.chain[1]? = some 201)
    (by decide +kernel)
  obtain ⟨x, block, connected, -⟩ := (claim .defaults [0] q run r member c inPayouts).2 1 (by simp [ids])
  rw [origin] at block
  cases block
  rw [active] at connected
  cases connected

end ElektronPool.Pplns
