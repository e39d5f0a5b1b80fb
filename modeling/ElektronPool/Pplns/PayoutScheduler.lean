import ElektronPool.Pplns.RewardCalculator

/-!
# PayoutSchedulerService and WalletRpcService.sendManySats

`runPayoutCycle` with the wallet calls inlined where it awaits them, and
`reconcileSentPayouts`. The timer starts both without waiting for earlier ones.
-/

namespace ElektronPool.Pplns
set_option autoImplicit false
open Js

/-- `WalletRpcService.isFeeEstimationFailure`. -/
def isFeeEstimationFailure (message : Option String) : Bool :=
  (message.map fun m => decide ("fee estimation failed".toList <:+: m.toLower.toList)).getD false

/-- Where a `runPayoutCycle` call stands. -/
inductive PayoutCycle where
  | miningInfo
  | totals (matureUpToHeight : ℤ)
  | overrides (allPending : List PendingPayoutCandidate)
  | balance (candidates : List PendingPayoutCandidate)
  /-- walletpassphrase -/
  | unlock (candidates : List PendingPayoutCandidate)
  /-- sendmany, the wallet estimating the fee -/
  | send (candidates : List PendingPayoutCandidate)
  /-- sendmany again, with an explicit fee rate -/
  | sendFallback (candidates : List PendingPayoutCandidate)
  /-- walletlock, in the `finally`; `result` is the txid, or none for an exception -/
  | lock (candidates : List PendingPayoutCandidate) (result : Option String)
  | mark (txid : String) (candidate : PendingPayoutCandidate) (rest : List PendingPayoutCandidate)
  /-- the notification lookups and messages, which write nothing -/
  | notify (txid : String)
  | returned (txid : Option String)
  | rejected (txid : Option String)
  deriving DecidableEq

namespace PayoutCycle

/-- `currentHeight - getCoinbaseMaturity() + 1`. -/
def matureUpToHeight (settings : Settings) (currentHeight : ℤ) : ℤ :=
  currentHeight - settings.coinbaseMaturity + 1

/-- The miners whose total reaches their own threshold, or the pool's. -/
def selectCandidates (settings : Settings) (overrides : OrderedMap String ℤ)
    (allPending : List PendingPayoutCandidate) : List PendingPayoutCandidate :=
  allPending.filter fun c =>
    (overrides.get c.minerAddress).getD settings.minPayoutThresholdSats ≤ c.totalPendingSats

def totalRequestedSats (candidates : List PendingPayoutCandidate) : ℤ :=
  (candidates.map (·.totalPendingSats)).sum

/-- The marking loop from its next candidate on. -/
def nextMark (txid : String) : List PendingPayoutCandidate → PayoutCycle
  | [] => .notify txid
  | candidate :: rest => .mark txid candidate rest

/-- `runPayoutCycle` once `sendManySats` has settled. -/
def afterSend (candidates : List PendingPayoutCandidate) : Option String → PayoutCycle
  | some txid => nextMark txid candidates
  | none => .returned none

/-- `sendManySats` once its `sendmany` has settled: an encrypted wallet is locked first. -/
def settle (settings : Settings) (candidates : List PendingPayoutCandidate) (result : Option String) :
    PayoutCycle :=
  if settings.walletPassphrase.isSome then .lock candidates result else afterSend candidates result

/-- `sendManyWithFeeFallback` once its first `sendmany` threw. -/
def retry (settings : Settings) (candidates : List PendingPayoutCandidate) (message : Option String) :
    PayoutCycle :=
  if isFeeEstimationFailure message then .sendFallback candidates else settle settings candidates none

def resume (settings : Settings) (s : PplnsState) : PayoutCycle → Answer → Option (PplnsState × PayoutCycle)
  | .miningInfo, .miningInfo none => some (s, .returned none)
  | .miningInfo, .miningInfo (some blocks) => some (s, .totals (matureUpToHeight settings blocks))
  | .totals matureUpTo, .executed =>
    let allPending := s.ledger.getMaturePendingTotals matureUpTo
    some (s, if allPending = [] then .returned none else .overrides allPending)
  | .totals _, .dbError => some (s, .rejected none)
  | .overrides allPending, .overrides rows =>
    let candidates := selectCandidates settings rows allPending
    some (s, if candidates = [] ∨ settings.dryRun then .returned none else .balance candidates)
  | .overrides _, .threw _ => some (s, .rejected none)
  | .balance candidates, .balance spendableSats =>
    some (s, if spendableSats < totalRequestedSats candidates then .returned none
      else if settings.walletPassphrase.isSome then .unlock candidates else .send candidates)
  | .balance _, .threw _ => some (s, .rejected none)
  | .unlock candidates, .executed => some (s, .send candidates)
  | .unlock _, .threw _ => some (s, .returned none)
  | .send candidates, .sent txid fee => some (s.sendMany candidates txid fee, settle settings candidates (some txid))
  | .send candidates, .threw message => some (s, retry settings candidates message)
  | .send candidates, .lost txid fee message =>
    some (s.sendMany candidates txid fee, retry settings candidates message)
  | .sendFallback candidates, .sent txid fee =>
    some (s.sendMany candidates txid fee, settle settings candidates (some txid))
  | .sendFallback candidates, .threw _ => some (s, settle settings candidates none)
  | .sendFallback candidates, .lost txid fee _ =>
    some (s.sendMany candidates txid fee, settle settings candidates none)
  | .lock candidates result, .executed | .lock candidates result, .threw _ =>
    some (s, afterSend candidates result)
  | .mark txid candidate rest, .executed =>
    some ({ s with ledger := s.ledger.markSentUpTo candidate.minerAddress candidate.maxRowId txid },
      nextMark txid rest)
  | .mark txid _ _, .dbError => some (s, .rejected (some txid))
  | .notify txid, .executed => some (s, .returned (some txid))
  | .notify txid, .threw _ => some (s, .rejected (some txid))
  | _, _ => none

end PayoutCycle

/-- Share log and accounting as they were, and no row inserted in the ledger. -/
structure LeavesCredits (s s' : PplnsState) : Prop where
  shares : s'.shares = s.shares
  accounting : s'.accounting = s.accounting
  ledger : ∃ f, ∃ keeps : KeepsCredit f, s'.ledger = s.ledger.update f keeps

theorem LeavesCredits.refl (s : PplnsState) : LeavesCredits s s :=
  ⟨rfl, rfl, _, keepsCredit_id, by simp⟩

theorem leavesCredits_update (s : PplnsState) {f : PayoutLedgerEntity → PayoutLedgerEntity} (keeps : KeepsCredit f) :
    LeavesCredits s { s with ledger := s.ledger.update f keeps } := ⟨rfl, rfl, f, keeps, rfl⟩

theorem leavesCredits_sendMany (s : PplnsState) (payouts : List PendingPayoutCandidate) (txid : String) (fee : ℤ) :
    LeavesCredits s (s.sendMany payouts txid fee) := ⟨rfl, rfl, _, keepsCredit_id, by simp [PplnsState.sendMany]⟩

theorem PayoutCycle.leavesCredits {settings : Settings} {s s' : PplnsState} {t t' : PayoutCycle} {a : Answer}
    (resumed : t.resume settings s a = some (s', t')) : LeavesCredits s s' := by
  unfold PayoutCycle.resume at resumed
  split at resumed <;> cases resumed <;>
    first
    | exact .refl _
    | exact leavesCredits_sendMany ..
    | exact leavesCredits_update _ (keepsCredit_markSent ..)

/-- Where a `reconcileSentPayouts` call stands. -/
inductive Reconciliation where
  | txids
  | confirmations (txid : String) (rest : List String)
  | markConfirmed (txid : String) (rest : List String)
  | returned
  | rejected
  deriving DecidableEq

namespace Reconciliation

def next : List String → Reconciliation
  | [] => .returned
  | txid :: rest => .confirmations txid rest

/-- A failure while one txid is checked is logged and the loop goes on. -/
def resume (settings : Settings) (s : PplnsState) :
    Reconciliation → Answer → Option (PplnsState × Reconciliation)
  | .txids, .executed => some (s, next s.ledger.getDistinctSentTxids)
  | .txids, .dbError => some (s, .rejected)
  | .confirmations txid rest, .confirmations count =>
    some (s, if settings.confirmationsRequired ≤ count then .markConfirmed txid rest else next rest)
  | .confirmations _ rest, .threw _ => some (s, next rest)
  | .markConfirmed txid rest, .executed =>
    some ({ s with ledger := s.ledger.markConfirmed txid }, next rest)
  | .markConfirmed _ rest, .dbError => some (s, next rest)
  | _, _ => none

end Reconciliation

theorem Reconciliation.leavesCredits {settings : Settings} {s s' : PplnsState} {t t' : Reconciliation} {a : Answer}
    (resumed : t.resume settings s a = some (s', t')) : LeavesCredits s s' := by
  unfold Reconciliation.resume at resumed
  split at resumed <;> cases resumed <;>
    first
    | exact .refl _
    | exact leavesCredits_update _ (keepsCredit_markConfirmed ..)

/-- Every asynchronous call of the PPLNS services. `record` and `prune` are the two writes
of the share log. -/
inductive Call where
  | reward (call : RewardCall)
  | cycle (call : PayoutCycle)
  | reconcile (call : Reconciliation)
  | record (share : PplnsShareEntity)
  | prune (cutoffMs : ℤ)
  | shareLogDone
  deriving DecidableEq

namespace Call

/-- The calls as they are made. -/
def isEntry : Call → Bool
  | .reward (.shares ..) | .cycle .miningInfo | .reconcile .txids | .record _ | .prune _ => true
  | _ => false

def resume (settings : Settings) (s : PplnsState) : Call → Answer → Option (PplnsState × Call)
  | .reward call, answer => (call.resume settings s answer).map fun r => (r.1, .reward r.2)
  | .cycle call, answer => (call.resume settings s answer).map fun r => (r.1, .cycle r.2)
  | .reconcile call, answer => (call.resume settings s answer).map fun r => (r.1, .reconcile r.2)
  | .record share, .executed => some ({ s with shares := s.shares ++ [share] }, .shareLogDone)
  | .prune cutoffMs, .executed => some ({ s with shares := pruneOlderThan s.shares cutoffMs }, .shareLogDone)
  | .record _, .dbError | .prune _, .dbError => some (s, .shareLogDone)
  | _, _ => none

/-- A call goes on with a step of its own, or its write of the share log is answered. -/
inductive Resumed (settings : Settings) (s : PplnsState) (a : Answer) : PplnsState → Call → Call → Prop
  | reward {s' : PplnsState} {t t' : RewardCall} (step : t.resume settings s a = some (s', t')) :
      Resumed settings s a s' (.reward t) (.reward t')
  | cycle {s' : PplnsState} {t t' : PayoutCycle} (step : t.resume settings s a = some (s', t')) :
      Resumed settings s a s' (.cycle t) (.cycle t')
  | reconcile {s' : PplnsState} {t t' : Reconciliation} (step : t.resume settings s a = some (s', t')) :
      Resumed settings s a s' (.reconcile t) (.reconcile t')
  | record {share : PplnsShareEntity} {shares : List PplnsShareEntity}
      (log : a = .executed ∧ shares = s.shares ++ [share] ∨ a = .dbError ∧ shares = s.shares) :
      Resumed settings s a { s with shares := shares } (.record share) .shareLogDone
  | prune {cutoffMs : ℤ} {shares : List PplnsShareEntity}
      (log : a = .executed ∧ shares = pruneOlderThan s.shares cutoffMs ∨ a = .dbError ∧ shares = s.shares) :
      Resumed settings s a { s with shares := shares } (.prune cutoffMs) .shareLogDone

theorem resumed_of_resume {settings : Settings} {s s' : PplnsState} {t t' : Call} {a : Answer}
    (resumed : t.resume settings s a = some (s', t')) : Resumed settings s a s' t t' := by
  unfold resume at resumed
  split at resumed
  · obtain ⟨r, step, eq⟩ := Option.map_eq_some_iff.mp resumed
    cases eq
    exact .reward step
  · obtain ⟨r, step, eq⟩ := Option.map_eq_some_iff.mp resumed
    cases eq
    exact .cycle step
  · obtain ⟨r, step, eq⟩ := Option.map_eq_some_iff.mp resumed
    cases eq
    exact .reconcile step
  · cases resumed
    exact .record (.inl ⟨rfl, rfl⟩)
  · cases resumed
    exact .prune (.inl ⟨rfl, rfl⟩)
  · cases resumed
    exact .record (.inr ⟨rfl, rfl⟩)
  · cases resumed
    exact .prune (.inr ⟨rfl, rfl⟩)
  · cases resumed

/-- The shares a call reads if it goes on now. -/
def window (s : PplnsState) : Call → List PplnsShareEntity
  | .reward (.shares _ _ windowStart) => getSharesInWindow s.shares windowStart
  | _ => []

end Call

abbrev Services := Async.Pool PplnsState Call

abbrev ServiceEvent := Async.Event Call Answer

/-- One event of the PPLNS services: a call is made, or one of those in progress goes on. -/
def Services.step (settings : Settings) : Services → ServiceEvent → Option Services :=
  Async.Pool.step Call.isEntry (Call.resume settings)

end ElektronPool.Pplns
