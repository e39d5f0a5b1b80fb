import ElektronPool.Js.OrderedMap
import ElektronPool.Pplns.PayoutLedger
import ElektronPool.Pplns.Settings

/-!
# What the PPLNS services share

The three tables they read and write (share log, payout ledger, pool accounting) and the
pool wallet behind the RPC. Every SQL statement is one function here. The wallet is
modelled by the transactions `sendmany` created, whether or not the caller heard back.
-/

namespace ElektronPool.Pplns
set_option autoImplicit false
open Js

/-- `pplns_share_entity`: one accepted share. -/
structure PplnsShareEntity where
  minerAddress : String
  difficulty : ℚ
  timestamp : ℤ
  blockHeightAtSubmission : ℤ
  deriving DecidableEq

/-- `PplnsShareLogService.getSharesInWindow`. -/
def getSharesInWindow (shares : List PplnsShareEntity) (windowStartMs : ℤ) : List PplnsShareEntity :=
  shares.filter fun s => windowStartMs ≤ s.timestamp

/-- `PplnsShareLogService.getWindowStats`: the total difficulty, and how many miners there are. -/
def getWindowStats (shares : List PplnsShareEntity) (windowStartMs : ℤ) : ℚ × ℕ :=
  (((getSharesInWindow shares windowStartMs).map (·.difficulty)).sum,
    ((getSharesInWindow shares windowStartMs).map (·.minerAddress)).dedup.length)

/-- `PplnsShareLogService.pruneOlderThan`. -/
def pruneOlderThan (shares : List PplnsShareEntity) (cutoffMs : ℤ) : List PplnsShareEntity :=
  shares.filter fun s => ¬ s.timestamp < cutoffMs

/-- `pool_accounting_entity`, the row with id 1. -/
structure PoolAccountingEntity where
  totalFeeSats : ℤ
  totalDustSats : ℤ
  deriving DecidableEq

/-- INSERT OR IGNORE of the singleton row. -/
def insertSingleton : Option PoolAccountingEntity → PoolAccountingEntity
  | none => ⟨0, 0⟩
  | some row => row

/-- UPDATE … SET totalFeeSats = totalFeeSats + fee, totalDustSats = totalDustSats + dust:
the database adds, so no call works on a stale total. -/
def addToAccounting (feeSats dustSats : ℤ) (row : PoolAccountingEntity) : PoolAccountingEntity where
  totalFeeSats := row.totalFeeSats + feeSats
  totalDustSats := row.totalDustSats + dustSats

/-- A transaction the wallet created for a `sendmany`. `rowIds` are the ledger rows behind
the amounts; the wallet itself knows nothing of them. -/
structure WalletTransaction where
  txid : String
  amounts : OrderedMap String ℤ
  networkFeeSats : ℤ
  rowIds : List ℕ
  deriving DecidableEq

/-- The `amounts` object of `sendManySats`. The text `(amountSats / 1e8).toFixed(8)` denotes
`amountSats` exactly, so the entry is kept in lep. -/
def sendManyAmounts (payouts : List PendingPayoutCandidate) : OrderedMap String ℤ :=
  payouts.foldl (fun amounts p => OrderedMap.set amounts p.minerAddress p.totalPendingSats) []

structure PplnsState where
  shares : List PplnsShareEntity
  ledger : PayoutLedger
  accounting : Option PoolAccountingEntity
  transactions : List WalletTransaction

namespace PplnsState

def empty : PplnsState := ⟨[], .empty, none, []⟩

/-- The wallet broadcasts the batch. -/
def sendMany (s : PplnsState) (payouts : List PendingPayoutCandidate) (txid : String) (networkFeeSats : ℤ) :
    PplnsState :=
  { s with transactions := s.transactions ++
      [⟨txid, sendManyAmounts payouts, networkFeeSats, payouts.flatMap (·.rowIds)⟩] }

def totalFeeSats (s : PplnsState) : ℤ := (s.accounting.map (·.totalFeeSats)).getD 0

def totalDustSats (s : PplnsState) : ℤ := (s.accounting.map (·.totalDustSats)).getD 0

/-- Everything sent on chain to a miner. -/
def totalSent (s : PplnsState) (minerAddress : String) : ℤ :=
  (s.transactions.map fun t => (t.amounts.get minerAddress).getD 0).sum

/-- Everything the pool has on its books: credits, fees and dust. -/
def recorded (s : PplnsState) : ℤ := sumSats s.ledger.rows + s.totalFeeSats + s.totalDustSats

end PplnsState

/-- Distinct miners: the object has one entry for each, in order. -/
theorem sendManyAmounts_eq {payouts : List PendingPayoutCandidate}
    (distinct : (payouts.map (·.minerAddress)).Nodup) :
    sendManyAmounts payouts = payouts.map fun p => (p.minerAddress, p.totalPendingSats) := by
  have folded := OrderedMap.foldl_set_of_nodup []
    (payouts.map fun p => (p.minerAddress, p.totalPendingSats)) (by simpa [Function.comp_def] using distinct)
  simpa [sendManyAmounts, List.foldl_map] using folded

end ElektronPool.Pplns
