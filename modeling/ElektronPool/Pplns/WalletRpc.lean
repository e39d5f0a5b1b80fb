import ElektronPool.Async.Histories
import ElektronPool.Js.Decimal
import ElektronPool.Pplns.Solvency

/-!
# WalletRpcService

What goes over the wire between the pool and its wallet. The amounts of a `sendmany` are decimal
texts, the balances that come back are JSON numerals; both are exact as far as doubles can tell lep
apart (`sendManyTexts_exact`, `reconciliation_exact`). The requests of a payout cycle follow a fixed script
whatever the other calls do (`transcript_of_run`), and a wallet it has unlocked does not stay unlocked
behind it (`locked_of_heard`).
-/

namespace ElektronPool.Pplns
set_option autoImplicit false
open Async Js

/-! ## Amounts -/

/-- The literal `1e8`. -/
def lepPerElek : Number := .fin (100000000 : ℕ)

/-- `(payout.amountSats / 1e8).toFixed(8)`. -/
def amountText (amountSats : ℤ) : Option String := toFixed 8 ((Number.fin amountSats).div lepPerElek)

/-- The `amounts` object of `sendManySats` as it is sent. -/
def sendManyTexts (payouts : List PendingPayoutCandidate) : OrderedMap String (Option String) :=
  payouts.foldl (fun amounts p => OrderedMap.set amounts p.minerAddress (amountText p.totalPendingSats)) []

/-- The number `JSON.parse` makes of a numeral for an amount of the wallet. -/
def jsonElek (lep : ℕ) : Number := Number.round (lep / (100000000 : ℕ))

/-- `Math.round(amount * 1e8)`. -/
def toLep (amount : Number) : Number := mathRound (amount.mul lepPerElek)

/-- `getWalletBalanceSats`, from the result of `getbalance`. -/
def getWalletBalanceSats (result : Number) : Number := toLep result

/-- `getWalletTotalBalanceSats`, from the result of `getwalletinfo`. -/
def getWalletTotalBalanceSats (balance immatureBalance : Number) : Number := toLep (balance.add immatureBalance)

/-- `checkPoolWalletReconciliation`, from the result of `getwalletinfo`: the alert is raised. -/
def checkPoolWalletReconciliation (balance immatureBalance : Number) (totalPendingSats : ℤ) : Bool :=
  ((getWalletTotalBalanceSats balance immatureBalance).add (.fin reconciliationToleranceSats)).lt (.fin totalPendingSats)

/-- `scanAddressForAmountSats`, from the amounts of the unspent outputs. -/
def scansAmount (unspents : List Number) (expectedAmountSats : ℕ) : Bool :=
  unspents.any fun amount => (toLep amount).strictEq (.fin expectedAmountSats)

/-- The amount a decimal text denotes, in lep. -/
def denotedLep (text : String) : Option ℚ :=
  match parseFloat text with
  | .fin q => some (q * 100000000)
  | _ => none

theorem amountText_eq {n : ℕ} (bound : n < 2 ^ 52) : amountText n = some (String.ofList (fixedPoint 8 n)) := by
  have quotient : (Number.fin ((n : ℤ) : ℚ)).div lepPerElek = Number.round (n / 10 ^ 8) := by
    rw [lepPerElek, Number.div, if_neg (by norm_num)]
    norm_num
  rw [amountText, quotient, toFixed_round (by decide) bound]

theorem denotedLep_fixedPoint (n : ℕ) : denotedLep (String.ofList (fixedPoint 8 n)) = some (n : ℚ) := by
  rw [denotedLep, parseFloat_fixedPoint (by decide)]
  norm_num

theorem sendManyTexts_eq (payouts : List PendingPayoutCandidate) :
    sendManyTexts payouts = (sendManyAmounts payouts).map fun entry => (entry.1, amountText entry.2) := by
  have set_map : ∀ (m : OrderedMap String ℤ) address amount,
      (OrderedMap.set m address amount).map (fun entry => (entry.1, amountText entry.2)) =
        OrderedMap.set (m.map fun entry => (entry.1, amountText entry.2)) address (amountText amount) := by
    intro m address amount
    induction m with
    | nil => rfl
    | cons entry rest ih =>
      simp only [OrderedMap.set, OrderedMap.setWith, List.map_cons] at ih ⊢
      split
      · rfl
      · rw [List.map_cons, ih]
  have folded : ∀ m : OrderedMap String ℤ,
      payouts.foldl (fun amounts p => OrderedMap.set amounts p.minerAddress (amountText p.totalPendingSats))
          (m.map fun entry => (entry.1, amountText entry.2)) =
        (payouts.foldl (fun amounts p => OrderedMap.set amounts p.minerAddress p.totalPendingSats) m).map
          fun entry => (entry.1, amountText entry.2) := by
    induction payouts with
    | nil => exact fun m => rfl
    | cons p rest ih =>
      intro m
      rw [List.foldl_cons, List.foldl_cons, ← ih, set_map]
  exact folded []

/-- What is sent is what is owed to somebody. -/
theorem mem_sendManyAmounts {payouts : List PendingPayoutCandidate} {entry : String × ℤ}
    (member : entry ∈ sendManyAmounts payouts) : ∃ p ∈ payouts, entry = (p.minerAddress, p.totalPendingSats) := by
  have set_mem : ∀ (m : OrderedMap String ℤ) address amount, entry ∈ OrderedMap.set m address amount →
      entry ∈ m ∨ entry = (address, amount) := by
    intro m address amount
    induction m with
    | nil => exact fun member => .inr (List.mem_singleton.mp member)
    | cons first rest ih =>
      rw [OrderedMap.set, OrderedMap.setWith]
      intro member
      split at member
      · rename_i same
        rcases List.mem_cons.mp member with rfl | later
        · exact .inr (by rw [same])
        · exact .inl (List.mem_cons_of_mem _ later)
      · rcases List.mem_cons.mp member with rfl | later
        · exact .inl List.mem_cons_self
        · exact (ih later).imp_left (List.mem_cons_of_mem _)
  have folded : ∀ m : OrderedMap String ℤ,
      entry ∈ payouts.foldl (fun amounts p => OrderedMap.set amounts p.minerAddress p.totalPendingSats) m →
        entry ∈ m ∨ ∃ p ∈ payouts, entry = (p.minerAddress, p.totalPendingSats) := by
    clear member
    induction payouts with
    | nil => exact fun m member => .inl member
    | cons p rest ih =>
      intro m member
      rcases ih _ member with old | ⟨q, later, same⟩
      · rcases set_mem _ _ _ old with older | new
        · exact .inl older
        · exact .inr ⟨p, List.mem_cons_self, new⟩
      · exact .inr ⟨q, List.mem_cons_of_mem _ later, same⟩
  exact (folded [] member).resolve_left List.not_mem_nil

/-- A text of the wire: digits, a point, eight digits. -/
def IsAmountText (text : String) : Prop :=
  ∃ whole fraction, text = String.ofList (whole ++ '.' :: fraction) ∧ whole ≠ [] ∧ fraction.length = 8 ∧
    ∀ c ∈ whole ++ fraction, charValue c < 10

/-- **The texts of a `sendmany` denote what is owed, to the lep**: below `2^52` lep for each miner, every
text has eight decimals and reads back as that miner's total, and together they are the total the
wallet balance was compared with. -/
theorem sendManyTexts_exact (payouts : List PendingPayoutCandidate)
    (small : ∀ p ∈ payouts, 0 ≤ p.totalPendingSats ∧ p.totalPendingSats < 2 ^ 52) :
    (∀ entry ∈ sendManyTexts payouts, ∃ text, entry.2 = some text ∧ IsAmountText text) ∧
      (sendManyTexts payouts).map (fun entry => (entry.1, entry.2.bind denotedLep)) =
        (sendManyAmounts payouts).map (fun entry => (entry.1, some (entry.2 : ℚ))) ∧
      ((payouts.map (·.minerAddress)).Nodup →
        (((sendManyTexts payouts).map fun entry => (entry.2.bind denotedLep).getD 0).sum : ℚ) =
          PayoutCycle.totalRequestedSats payouts) := by
  have amounts : ∀ entry ∈ sendManyAmounts payouts, ∃ n : ℕ, entry.2 = n ∧
      amountText entry.2 = some (String.ofList (fixedPoint 8 n)) := by
    intro entry member
    obtain ⟨p, owed, rfl⟩ := mem_sendManyAmounts member
    obtain ⟨nonneg, below⟩ := small p owed
    obtain ⟨n, same⟩ := Int.eq_ofNat_of_zero_le nonneg
    have same : p.totalPendingSats = n := same
    refine ⟨n, same, ?_⟩
    rw [same]
    exact amountText_eq (by omega)
  have readBack : ∀ entry ∈ sendManyAmounts payouts,
      (amountText entry.2).bind denotedLep = some (entry.2 : ℚ) := by
    intro entry member
    obtain ⟨n, same, text⟩ := amounts entry member
    rw [text, Option.bind_some, denotedLep_fixedPoint, same, Int.cast_natCast]
  refine ⟨?_, ?_, fun distinct => ?_⟩
  · intro entry member
    rw [sendManyTexts_eq] at member
    obtain ⟨owed, known, rfl⟩ := List.mem_map.mp member
    obtain ⟨n, -, text⟩ := amounts owed known
    obtain ⟨whole, fraction, shape, nonempty, length, -, areDigits⟩ := fixedPoint_cases (by decide : 8 ≠ 0) n
    exact ⟨_, text, whole, fraction, by rw [shape], nonempty, length, areDigits⟩
  · rw [sendManyTexts_eq, List.map_map]
    apply List.map_congr_left
    intro entry member
    exact congrArg (Prod.mk entry.1) (readBack entry member)
  · rw [sendManyTexts_eq, List.map_map]
    have values : (sendManyAmounts payouts).map ((fun entry : String × Option String =>
        (entry.2.bind denotedLep).getD 0) ∘ fun entry => (entry.1, amountText entry.2)) =
          (sendManyAmounts payouts).map fun entry => (entry.2 : ℚ) := by
      apply List.map_congr_left
      intro entry member
      rw [Function.comp_apply, readBack entry member, Option.getD_some]
    rw [values, sendManyAmounts_eq distinct, List.map_map, PayoutCycle.totalRequestedSats, Int.cast_list_sum, List.map_map]
    rfl

/-- Two miners, one of them owed a single lep. -/
theorem sendManyTexts_exact_two : (sendManyTexts [⟨"be1a", 150000, 1, [1]⟩, ⟨"be1b", 1, 2, [2]⟩]).map
      (fun entry => (entry.1, entry.2.bind denotedLep)) = [("be1a", some 150000), ("be1b", some 1)] := by
  rw [(sendManyTexts_exact [⟨"be1a", 150000, 1, [1]⟩, ⟨"be1b", 1, 2, [2]⟩] (by decide)).2.1]
  rfl

/-! ## Balances -/

theorem toLep_jsonElek {n : ℕ} (bound : n < 2 ^ 51) : toLep (jsonElek n) = .fin n :=
  mathRound_mul_unit (by decide) (by decide) bound

theorem getWalletTotalBalanceSats_eq {spendable immature : ℕ} (bound : 3 * (spendable + immature) < 2 ^ 52) :
    getWalletTotalBalanceSats (jsonElek spendable) (jsonElek immature) = .fin (spendable + immature) :=
  mathRound_add_mul_unit (by decide) (by decide) bound

/-- Integers below `2^53` are doubles. -/
theorem round_natCast {n : ℕ} (bound : n ≤ 2 ^ 53) : Number.round n = .fin n := by
  have units := Number.round_of_units (n := n) (e := 0) (by decide) (by rw [abs_of_nonneg (by omega)]; exact_mod_cast bound) (by
    rw [zpow_zero, mul_one, Int.cast_natCast, abs_of_nonneg (Nat.cast_nonneg n)]
    calc (n : ℚ) ≤ 2 ^ (53 : ℤ) := by exact_mod_cast bound
      _ < 2 ^ (1024 : ℤ) := zpow_lt_zpow_right₀ one_lt_two (by decide))
  simpa using units

/-- **The balances of the wallet are read to the lep.** The alert is raised when what the wallet holds falls short
of what is owed by more than the tolerance, and the on-chain login finds an output of exactly the amount
asked for. -/
theorem reconciliation_exact {spendable immature : ℕ} (bound : 3 * (spendable + immature) < 2 ^ 52) (totalPendingSats : ℤ)
    {unspents : List ℕ} (outputs : ∀ n ∈ unspents, n < 2 ^ 51) (expectedAmountSats : ℕ) :
    getWalletBalanceSats (jsonElek spendable) = .fin spendable ∧
      (checkPoolWalletReconciliation (jsonElek spendable) (jsonElek immature) totalPendingSats = true ↔
        reconciliationMismatch (spendable + immature) totalPendingSats) ∧
      (scansAmount (unspents.map jsonElek) expectedAmountSats = true ↔ expectedAmountSats ∈ unspents) := by
  refine ⟨toLep_jsonElek (by omega), ?_, ?_⟩
  · have tolerance : (Number.fin ((spendable : ℚ) + immature)).add (.fin reconciliationToleranceSats) =
        .fin ((spendable + immature + 100000 : ℕ) : ℚ) := by
      have sum : (spendable : ℚ) + immature + (reconciliationToleranceSats : ℤ) =
          ((spendable + immature + 100000 : ℕ) : ℚ) := by
        rw [reconciliationToleranceSats]
        push_cast
        ring
      rw [Number.add, sum, round_natCast (by omega)]
    rw [checkPoolWalletReconciliation, getWalletTotalBalanceSats_eq bound, tolerance, Number.lt, decide_eq_true_eq,
      reconciliationMismatch, reconciliationToleranceSats]
    constructor
    · intro short
      have : ((spendable + immature + 100000 : ℕ) : ℤ) < totalPendingSats := by exact_mod_cast short
      push_cast at this
      exact this
    · intro short
      have : ((spendable + immature + 100000 : ℕ) : ℤ) < totalPendingSats := by
        push_cast
        exact short
      exact_mod_cast this
  · rw [scansAmount, List.any_map, List.any_eq_true]
    constructor
    · rintro ⟨n, member, same⟩
      rw [Function.comp_apply, toLep_jsonElek (outputs n member)] at same
      have equal : n = expectedAmountSats := by exact_mod_cast Number.fin.inj (Number.eq_of_strictEq same)
      exact equal ▸ member
    · intro member
      refine ⟨expectedAmountSats, member, ?_⟩
      rw [Function.comp_apply, toLep_jsonElek (outputs _ member)]
      simp [Number.strictEq]

theorem reconciliation_exact_short :
    getWalletBalanceSats (jsonElek 500000) = .fin (500000 : ℕ) ∧
      (checkPoolWalletReconciliation (jsonElek 500000) (jsonElek 300000) 900001 = true ↔
        reconciliationMismatch ((500000 : ℕ) + (300000 : ℕ)) 900001) ∧
      (scansAmount ([5000, 7000].map jsonElek) 7000 = true ↔ 7000 ∈ [5000, 7000]) :=
  reconciliation_exact (by decide) 900001 (by decide) 7000

/-! ## Requests -/

/-- `WALLET_UNLOCK_SECONDS`. -/
def walletUnlockSeconds (config : ConfigService) : ℕ := positiveSetting config "WALLET_UNLOCK_SECONDS" 60

def getFallbackFeeRateSatsPerVb (config : ConfigService) : ℚ :=
  match parseFloat ((config "PAYOUT_FALLBACK_FEE_RATE_SATS_PER_VB").getD "undefined") with
  | .fin q => if 0 < q then q else 1
  | _ => 1

/-- A method of the wallet with its parameters. A fee rate that is not given leaves the estimate to the wallet. -/
inductive RpcRequest where
  | getbalance
  | walletpassphrase (passphrase : String) (seconds : ℕ)
  | sendmany (amounts : OrderedMap String (Option String)) (minConfirmations : ℕ) (comment : String) (feeRate : Option ℚ)
  | walletlock
  | gettransaction (txid : String)
  deriving DecidableEq

/-- The `sendmany` of a batch. -/
def sendManyRequest (candidates : List PendingPayoutCandidate) (feeRate : Option ℚ) : RpcRequest :=
  .sendmany (sendManyTexts candidates) 1 "PPLNS batch payout" feeRate

/-- The wallet request a call waits for. -/
def Call.rpcRequest (config : ConfigService) : Call → Option RpcRequest
  | .cycle (.balance _) => some .getbalance
  | .cycle (.unlock _) => (walletPassphrase config).map fun passphrase =>
    .walletpassphrase passphrase (walletUnlockSeconds config)
  | .cycle (.send candidates) => some (sendManyRequest candidates none)
  | .cycle (.sendFallback candidates) =>
    some (sendManyRequest candidates (some (getFallbackFeeRateSatsPerVb config)))
  | .cycle (.lock ..) => some .walletlock
  | .reconcile (.confirmations txid _) => some (.gettransaction txid)
  | _ => none

/-- A request with the answer it got. -/
abbrev Exchange := RpcRequest × Answer

def Call.exchange (config : ConfigService) (t : Call) (a : Answer) : Option Exchange :=
  (t.rpcRequest config).map (·, a)

/-! ## The script of a payout cycle -/

/-- The wallet could not estimate the fee. -/
def Answer.isFeeFailure : Answer → Bool
  | .threw message | .lost _ _ message => isFeeEstimationFailure message
  | _ => false

def Answer.txid? : Answer → Option String
  | .sent txid _ => some txid
  | _ => none

section
variable (config : ConfigService)

/-- Up to the `sendmany`: the balance, and the unlocking of an encrypted wallet. -/
inductive Opened : List Exchange → Prop
  | plain {a : Answer} (unencrypted : walletPassphrase config = none) : Opened [(.getbalance, a)]
  | encrypted {a : Answer} {passphrase : String} (secret : walletPassphrase config = some passphrase) :
    Opened [(.getbalance, a), (.walletpassphrase passphrase (walletUnlockSeconds config), .executed)]

/-- One `sendmany`, or two when the first met a wallet without a fee estimate, and the txid they end with. -/
inductive Sends (candidates : List PendingPayoutCandidate) : Option String → List Exchange → Prop
  | once {a : Answer} (estimated : a.isFeeFailure = false) :
    Sends candidates a.txid? [(sendManyRequest candidates none, a)]
  | retried {a b : Answer} (failed : a.isFeeFailure = true) :
    Sends candidates b.txid?
      [(sendManyRequest candidates none, a), (sendManyRequest candidates (some (getFallbackFeeRateSatsPerVb config)), b)]

/-- A batch that was requested, with the wallet locked again behind it if it was unlocked before. -/
inductive Requested (candidates : List PendingPayoutCandidate) (txid : Option String) : List Exchange → Prop
  | plain {before sends : List Exchange} (opened : Opened config before) (sent : Sends config candidates txid sends)
    (unencrypted : walletPassphrase config = none) : Requested candidates txid (before ++ sends)
  | locked {before sends : List Exchange} {a : Answer} (opened : Opened config before)
    (sent : Sends config candidates txid sends) (encrypted : (walletPassphrase config).isSome) :
    Requested candidates txid (before ++ sends ++ [(.walletlock, a)])

/-- A cycle that is over. -/
inductive Session : Option String → List Exchange → Prop
  | idle : Session none []
  | balanceOnly {a : Answer} (live : isDryRun config = false) : Session none [(.getbalance, a)]
  | notUnlocked {a : Answer} {passphrase : String} {message : Option String} (live : isDryRun config = false)
    (secret : walletPassphrase config = some passphrase) :
    Session none [(.getbalance, a), (.walletpassphrase passphrase (walletUnlockSeconds config), .threw message)]
  | requested {candidates : List PendingPayoutCandidate} {txid : Option String} {h : List Exchange}
    (live : isDryRun config = false) (batch : Requested config candidates txid h) : Session txid h

/-- What a payout cycle has exchanged with the wallet by the time it stands at a place. -/
def Transcript : PayoutCycle → List Exchange → Prop
  | .miningInfo, h | .totals _, h | .overrides _, h => h = []
  | .balance _, h => h = [] ∧ isDryRun config = false
  | .unlock _, h => (∃ a, h = [(.getbalance, a)]) ∧ isDryRun config = false ∧ (walletPassphrase config).isSome
  | .send _, h => Opened config h ∧ isDryRun config = false
  | .sendFallback candidates, h => isDryRun config = false ∧ ∃ before a, Opened config before ∧ a.isFeeFailure = true ∧
    h = before ++ [(sendManyRequest candidates none, a)]
  | .lock candidates txid, h => isDryRun config = false ∧ (walletPassphrase config).isSome ∧ ∃ before sends,
    Opened config before ∧ Sends config candidates txid sends ∧ h = before ++ sends
  | .mark txid candidate rest, h => isDryRun config = false ∧
    ∃ candidates, candidate :: rest <:+ candidates ∧ Requested config candidates (some txid) h
  | .notify txid, h => isDryRun config = false ∧ ∃ candidates, Requested config candidates (some txid) h
  | .returned txid, h | .rejected txid, h => Session config txid h

variable {config} {h : List Exchange} {candidates : List PendingPayoutCandidate} {result : Option String}

/-- The marking loop goes on with the txid the batch ended with. -/
theorem transcript_afterSend (live : isDryRun config = false) (batch : Requested config candidates result h) :
    Transcript config (PayoutCycle.afterSend candidates result) h := by
  cases result with
  | none => exact .requested live batch
  | some txid =>
    cases candidates with
    | nil => exact ⟨live, _, batch⟩
    | cons candidate rest => exact ⟨live, _, List.suffix_rfl, batch⟩

theorem transcript_settle {before sends : List Exchange} (live : isDryRun config = false) (opened : Opened config before)
    (sent : Sends config candidates result sends) :
    Transcript config (PayoutCycle.settle (.ofConfig config) candidates result) (before ++ sends) := by
  unfold PayoutCycle.settle
  split
  · rename_i encrypted
    exact ⟨live, encrypted, _, _, opened, sent, rfl⟩
  · rename_i unencrypted
    exact transcript_afterSend live (.plain opened sent (Option.not_isSome_iff_eq_none.mp unencrypted))

theorem transcript_retry {before : List Exchange} {a : Answer} {message : Option String} (live : isDryRun config = false)
    (opened : Opened config before) (failure : a.isFeeFailure = isFeeEstimationFailure message) (none_sent : a.txid? = none) :
    Transcript config (PayoutCycle.retry (.ofConfig config) candidates message)
      (before ++ [(sendManyRequest candidates none, a)]) := by
  unfold PayoutCycle.retry
  split
  · rename_i failed
    exact ⟨live, _, _, opened, failure.trans failed, rfl⟩
  · rename_i other
    have sent : Sends config candidates a.txid? _ := .once (failure.trans (Bool.eq_false_iff.mpr other))
    rw [none_sent] at sent
    exact transcript_settle live opened sent

/-- The places that ask the wallet nothing add nothing. -/
theorem exchange_none {t : Call} (a : Answer) (silent : t.rpcRequest config = none) :
    h ++ (t.exchange config a).toList = h := by
  rw [Call.exchange, silent, Option.map_none, Option.toList_none, List.append_nil]

theorem exchange_some {t : Call} {a : Answer} {request : RpcRequest} (asks : t.rpcRequest config = some request) :
    h ++ (t.exchange config a).toList = h ++ [(request, a)] := by
  rw [Call.exchange, asks, Option.map_some, Option.toList_some]

/-- The end of a fallback `sendmany`. -/
theorem transcript_fallback {a : Answer} (stands : Transcript config (.sendFallback candidates) h) (txid : a.txid? = result) :
    Transcript config (PayoutCycle.settle (.ofConfig config) candidates result)
      (h ++ (Call.exchange config (.cycle (.sendFallback candidates)) a).toList) := by
  obtain ⟨live, before, first, opened, failed, rfl⟩ := stands
  rw [exchange_some rfl, List.append_assoc, ← txid]
  exact transcript_settle live opened (.retried failed)

/-- The end of a `walletlock`, answered or not. -/
theorem transcript_lock {a : Answer} (stands : Transcript config (.lock candidates result) h) :
    Transcript config (PayoutCycle.afterSend candidates result)
      (h ++ (Call.exchange config (.cycle (.lock candidates result)) a).toList) := by
  obtain ⟨live, encrypted, before, sends, opened, sent, rfl⟩ := stands
  rw [exchange_some rfl]
  exact transcript_afterSend live (.locked opened sent encrypted)

/-- Every resumption of a cycle follows the script. -/
theorem transcript_step {s s' : PplnsState} {t t' : PayoutCycle} {a : Answer} (stands : Transcript config t h)
    (resumed : t.resume (.ofConfig config) s a = some (s', t')) :
    Transcript config t' (h ++ (Call.exchange config (.cycle t) a).toList) := by
  unfold PayoutCycle.resume at resumed
  split at resumed <;> cases resumed
  -- the reads before the wallet is asked
  case h_1 | h_4 | h_6 =>
    rw [exchange_none _ rfl, show h = [] from stands]
    exact .idle
  case h_2 =>
    rw [exchange_none _ rfl]
    exact stands
  case h_3 =>
    rw [exchange_none _ rfl, show h = [] from stands]
    split
    · exact .idle
    · rfl
  case h_5 =>
    rw [exchange_none _ rfl, show h = [] from stands]
    split
    · exact .idle
    · rename_i go
      exact ⟨rfl, Bool.eq_false_iff.mpr fun dry => go (.inr dry)⟩
  -- the balance
  case h_7 =>
    obtain ⟨rfl, live⟩ := stands
    rw [exchange_some rfl, List.nil_append]
    split
    · exact .balanceOnly live
    · split
      · exact ⟨⟨_, rfl⟩, live, ‹_›⟩
      · exact ⟨.plain (Option.not_isSome_iff_eq_none.mp ‹_›), live⟩
  case h_8 =>
    obtain ⟨rfl, live⟩ := stands
    rw [exchange_some rfl]
    exact .balanceOnly live
  -- the unlocking
  case h_9 =>
    obtain ⟨⟨a, rfl⟩, live, encrypted⟩ := stands
    obtain ⟨passphrase, secret⟩ := Option.isSome_iff_exists.mp encrypted
    rw [exchange_some (by rw [Call.rpcRequest, secret, Option.map_some])]
    exact ⟨.encrypted secret, live⟩
  case h_10 =>
    obtain ⟨⟨a, rfl⟩, live, encrypted⟩ := stands
    obtain ⟨passphrase, secret⟩ := Option.isSome_iff_exists.mp encrypted
    rw [exchange_some (by rw [Call.rpcRequest, secret, Option.map_some])]
    exact .notUnlocked live secret
  -- the first sendmany
  case h_11 =>
    obtain ⟨opened, live⟩ := stands
    rw [exchange_some rfl]
    exact transcript_settle live opened (.once (a := .sent _ _) rfl)
  case h_12 | h_13 =>
    obtain ⟨opened, live⟩ := stands
    rw [exchange_some rfl]
    exact transcript_retry live opened rfl rfl
  -- the second
  case h_14 | h_15 | h_16 => exact transcript_fallback stands rfl
  case h_17 | h_18 => exact transcript_lock stands
  -- what follows the batch
  case h_19 =>
    obtain ⟨live, candidates, remaining, batch⟩ := stands
    rw [exchange_none _ rfl]
    rename_i rest
    cases rest with
    | nil => exact ⟨live, _, batch⟩
    | cons next rest => exact ⟨live, _, (List.suffix_cons _ _).trans remaining, batch⟩
  case h_20 =>
    obtain ⟨live, candidates, -, batch⟩ := stands
    rw [exchange_none _ rfl]
    exact .requested live batch
  case h_21 | h_22 =>
    obtain ⟨live, candidates, batch⟩ := stands
    rw [exchange_none _ rfl]
    exact .requested live batch

/-- The script of any call: the reconciliation asks for transactions, the others leave the wallet alone. -/
def CallTranscript (config : ConfigService) : Call → List Exchange → Prop
  | .cycle t, h => Transcript config t h
  | .reconcile _, h => ∀ exchange ∈ h, ∃ txid, exchange.1 = .gettransaction txid
  | _, h => h = []

theorem callTranscript_step {s s' : PplnsState} {t t' : Call} {a : Answer} (stands : CallTranscript config t h)
    (resumed : t.resume (.ofConfig config) s a = some (s', t')) :
    CallTranscript config t' (h ++ (t.exchange config a).toList) := by
  cases Call.resumed_of_resume resumed with
  | cycle step => exact transcript_step stands step
  | @reconcile _ t _ step =>
    intro exchange member
    rcases List.mem_append.mp member with old | new
    · exact stands exchange old
    · cases t with
      | confirmations txid rest =>
        rw [List.mem_singleton.mp (show exchange ∈ [(RpcRequest.gettransaction txid, a)] from new)]
        exact ⟨txid, rfl⟩
      | txids | markConfirmed | returned | rejected => cases new
  | reward | record | prune =>
    rw [exchange_none _ rfl]
    exact stands

/-- **In every interleaving each payout cycle follows the script.** A dry run asks the wallet nothing. A cycle asks for
the balance, unlocks an encrypted wallet, sends one batch, or the same batch a second time with a fixed fee rate if and only if
the wallet could not estimate the fee, and locks an encrypted wallet again whatever became of the batch. The txid it
marks rows with is the answer to its own last `sendmany`. -/
theorem transcript_of_run {ok : Services × List (List Exchange) → ServiceEvent → Prop} {s₀ : PplnsState} {p : Services}
    {histories : List (List Exchange)}
    (run : Reaches (recording (Services.step (.ofConfig config)) (Pool.recordHistories (Call.exchange config))) ok
      (⟨s₀, []⟩, []) (p, histories)) {k : ℕ} {t : Call} (at_k : p.calls[k]? = some t) :
    CallTranscript config t (histories.getD k []) := by
  have fits : Pool.Fits (CallTranscript config) p histories := by
    apply Pool.fits_of_recorded ?_ ?_ run
    · intro t entry
      unfold Call.isEntry at entry
      split at entry
      · rfl
      · rfl
      · intro exchange member
        cases member
      · rfl
      · rfl
      · cases entry
    · intro s t a s' t' h stands resumed
      exact callTranscript_step stands resumed
  exact fits.each k t at_k

end

/-- A wallet with a passphrase. -/
def encryptedWallet : ConfigService := fun key => if key = "WALLET_PASSPHRASE" then some "secret" else none

/-- A miner who is owed 150000 lep from block 7. -/
def oneCredit : PplnsState := { PplnsState.empty with ledger := PayoutLedger.empty.credit "be1a" 150000 7 }

/-- A payout from an encrypted wallet that cannot estimate the fee. -/
theorem transcript_of_run_retried : ∃ q, Reaches
      (recording (Services.step (.ofConfig encryptedWallet)) (Pool.recordHistories (Call.exchange encryptedWallet)))
      Always (⟨oneCredit, []⟩, []) q ∧
    q.1.calls[0]? = some (.cycle (.returned (some "t"))) ∧
    (q.2.getD 0 []).map Prod.snd =
      [.balance 1000000, .executed, .threw (some "Fee estimation failed"), .sent "t" 100, .executed] ∧
    Session encryptedWallet (some "t") (q.2.getD 0 []) := by
  obtain ⟨q, run, returned, answers⟩ := exists_reaches
    (recording (Services.step (.ofConfig encryptedWallet)) (Pool.recordHistories (Call.exchange encryptedWallet)))
    Always (⟨oneCredit, []⟩, [])
    [.start (.cycle .miningInfo), .resume 0 (.miningInfo (some 200)), .resume 0 .executed, .resume 0 (.overrides []),
      .resume 0 (.balance 1000000), .resume 0 .executed, .resume 0 (.threw (some "Fee estimation failed")),
      .resume 0 (.sent "t" 100), .resume 0 .executed, .resume 0 .executed, .resume 0 .executed]
    (fun q => q.1.calls[0]? = some (.cycle (.returned (some "t"))) ∧ (q.2.getD 0 []).map Prod.snd =
      [.balance 1000000, .executed, .threw (some "Fee estimation failed"), .sent "t" 100, .executed]) (by decide +kernel)
  exact ⟨q, run, returned, answers, transcript_of_run run returned⟩

/-! ## The lock of the wallet -/

/-- Whether the last `walletpassphrase` or `walletlock` that came back left the wallet unlocked, and whether one
of them did not come back: it may have been executed or not, and an unlocked wallet locks itself after a while. -/
structure WalletLock where
  unlocked : Bool
  unheard : Bool

def WalletLock.hear (config : ConfigService) (w : WalletLock) (t : Call) (a : Answer) : WalletLock :=
  match t.rpcRequest config, a with
  | some (.walletpassphrase ..), .executed => { w with unlocked := true }
  | some .walletlock, .executed => { w with unlocked := false }
  | some (.walletpassphrase ..), _ | some .walletlock, _ => { w with unheard := true }
  | _, _ => w

def recordLock (config : ConfigService) (w : WalletLock) (p : Services) (e : ServiceEvent) (_ : Services) : WalletLock :=
  match e with
  | .start _ => w
  | .resume k a => p.calls[k]?.elim w fun t => w.hear config t a

/-- A cycle between its `walletpassphrase` and its `walletlock`. -/
def Call.holdsOpen : Call → Bool
  | .cycle (.send _) | .cycle (.sendFallback _) | .cycle (.lock ..) => true
  | _ => false

/-- An unlocked wallet is an encrypted one, and somebody is about to lock it or was not heard. -/
def Attended (config : ConfigService) (p : Services) (w : WalletLock) : Prop :=
  w.unlocked = true → (walletPassphrase config).isSome ∧ (w.unheard = true ∨ ∃ t ∈ p.calls, t.holdsOpen = true)

section
variable {config : ConfigService} {w : WalletLock} {a : Answer}

theorem settle_encrypted {candidates : List PendingPayoutCandidate} {result : Option String}
    (encrypted : (walletPassphrase config).isSome) :
    PayoutCycle.settle (.ofConfig config) candidates result = .lock candidates result :=
  if_pos encrypted

theorem retry_encrypted {candidates : List PendingPayoutCandidate} {message : Option String}
    (encrypted : (walletPassphrase config).isSome) :
    (Call.cycle (PayoutCycle.retry (.ofConfig config) candidates message)).holdsOpen = true := by
  unfold PayoutCycle.retry
  split
  · rfl
  · rw [settle_encrypted encrypted]
    rfl

/-- What the answer to a cycle that holds the wallet open means: it goes on holding it open, or it has locked it, or
its `walletlock` was not heard. -/
theorem holdsOpen_step {s s' : PplnsState} {t t' : Call} (encrypted : (walletPassphrase config).isSome)
    (holds : t.holdsOpen = true) (resumed : t.resume (.ofConfig config) s a = some (s', t')) :
    t'.holdsOpen = true ∨ (w.hear config t a).unlocked = false ∨ (w.hear config t a).unheard = true := by
  cases Call.resumed_of_resume resumed with
  | @cycle _ t _ step =>
    unfold PayoutCycle.resume at step
    split at step <;> cases step
    case h_11 | h_14 | h_15 | h_16 =>
      left
      rw [settle_encrypted encrypted]
      rfl
    case h_12 | h_13 => exact .inl (retry_encrypted encrypted)
    case h_17 => exact .inr (.inl rfl)
    case h_18 => exact .inr (.inr rfl)
    all_goals cases holds
  | reward | reconcile | record | prune => cases holds

/-- Only a `walletpassphrase` that came back unlocks the wallet. -/
theorem unlocked_of_hear {t : Call} (after : (w.hear config t a).unlocked = true) : w.unlocked = true ∨
    a = .executed ∧ ∃ passphrase seconds, t.rpcRequest config = some (.walletpassphrase passphrase seconds) := by
  unfold WalletLock.hear at after
  split at after
  · rename_i asks
    exact .inr ⟨rfl, _, _, asks⟩
  · cases after
  all_goals exact .inl after

theorem rpcRequest_passphrase {t : Call} {passphrase : String} {seconds : ℕ}
    (asks : t.rpcRequest config = some (.walletpassphrase passphrase seconds)) :
    (walletPassphrase config).isSome ∧ ∃ candidates, t = .cycle (.unlock candidates) := by
  unfold Call.rpcRequest at asks
  split at asks
  case h_2 =>
    obtain ⟨secret, known, -⟩ := Option.map_eq_some_iff.mp asks
    exact ⟨Option.isSome_iff_exists.mpr ⟨secret, known⟩, _, rfl⟩
  all_goals cases asks

theorem unheard_of_hear {t : Call} (before : w.unheard = true) : (w.hear config t a).unheard = true := by
  unfold WalletLock.hear
  split <;> first | exact before | rfl

theorem attended_step {p p' : Services} {e : ServiceEvent} (attended : Attended config p w)
    (moved : Services.step (.ofConfig config) p e = some p') : Attended config p' (recordLock config w p e p') := by
  obtain ⟨t, rfl, -, rfl⟩ | ⟨before, t, after, a, s', t', rfl, calls, resumed, rfl⟩ := Pool.step_cases moved
  · intro open'
    obtain ⟨encrypted, unheard | ⟨u, member, holds⟩⟩ := attended open'
    · exact ⟨encrypted, .inl unheard⟩
    · exact ⟨encrypted, .inr ⟨u, List.mem_append_left _ member, holds⟩⟩
  · have heard : recordLock config w p (.resume before.length a) ⟨s', before ++ t' :: after⟩ = w.hear config t a := by
      simp [recordLock, calls]
    rw [heard]
    intro open'
    obtain already | ⟨rfl, passphrase, seconds, asks⟩ := unlocked_of_hear open'
    · -- it was unlocked before: whoever was to lock it still is, or has just been told
      obtain ⟨encrypted, unheard | ⟨u, member, holds⟩⟩ := attended already
      · exact ⟨encrypted, .inl (unheard_of_hear unheard)⟩
      · rw [calls] at member
        rcases List.mem_append.mp member with left | right
        · exact ⟨encrypted, .inr ⟨u, List.mem_append_left _ left, holds⟩⟩
        · rcases List.mem_cons.mp right with rfl | right
          · obtain still | locked | unheard := holdsOpen_step (w := w) encrypted holds resumed
            · exact ⟨encrypted, .inr ⟨t', by simp, still⟩⟩
            · rw [locked] at open'
              cases open'
            · exact ⟨encrypted, .inl unheard⟩
          · exact ⟨encrypted, .inr ⟨u, by simp [right], holds⟩⟩
    · obtain ⟨encrypted, candidates, rfl⟩ := rpcRequest_passphrase asks
      cases resumed
      exact ⟨encrypted, .inr ⟨.cycle (.send candidates), by simp, rfl⟩⟩

/-- **No cycle leaves the wallet unlocked behind it**: in every interleaving of all PPLNS calls in which each
`walletpassphrase` and `walletlock` so far came back, the wallet is locked whenever no cycle is between
the two. -/
theorem locked_of_heard {ok : Services × WalletLock → ServiceEvent → Prop} {s₀ : PplnsState} {p : Services}
    (run : Reaches (recording (Services.step (.ofConfig config)) (recordLock config)) ok (⟨s₀, []⟩, ⟨false, false⟩) (p, w))
    (heard : w.unheard = false) (idle : ∀ t ∈ p.calls, t.holdsOpen = false) : w.unlocked = false := by
  have attended : Attended config p w := by
    apply run.invariant_recording
    · intro open'
      cases open'
    · intro p w e p' attended _ moved
      exact attended_step attended moved
  apply Bool.eq_false_iff.mpr
  intro open'
  obtain ⟨-, unheard | ⟨t, member, holds⟩⟩ := attended open'
  · exact Bool.eq_false_iff.mp heard unheard
  · exact Bool.eq_false_iff.mp (idle t member) holds

end

/-- Two cycles at once: the first locks the wallet while the second is at its `sendmany`, and the second locks it again. -/
theorem locked_of_heard_two : ∃ q, Reaches
      (recording (Services.step (.ofConfig encryptedWallet)) (recordLock encryptedWallet)) Always
      (⟨oneCredit, []⟩, ⟨false, false⟩) q ∧ q.2.unlocked = false := by
  obtain ⟨q, run, heard, idle⟩ := exists_reaches
    (recording (Services.step (.ofConfig encryptedWallet)) (recordLock encryptedWallet)) Always
    (⟨oneCredit, []⟩, ⟨false, false⟩)
    [.start (.cycle .miningInfo), .resume 0 (.miningInfo (some 200)), .resume 0 .executed, .resume 0 (.overrides []),
      .resume 0 (.balance 1000000), .start (.cycle .miningInfo), .resume 1 (.miningInfo (some 200)), .resume 1 .executed,
      .resume 1 (.overrides []), .resume 1 (.balance 1000000), .resume 0 .executed, .resume 1 .executed,
      .resume 0 (.sent "t" 100), .resume 0 .executed, .resume 1 (.threw none), .resume 1 .executed]
    (fun q => q.2.unheard = false ∧ ∀ t ∈ q.1.calls, t.holdsOpen = false) (by decide +kernel)
  exact ⟨q, run, locked_of_heard run heard idle⟩

end ElektronPool.Pplns
