import ElektronPool.Pplns.Payments
import ElektronPool.Stratum.Client

/-!
# Whom a batch pays

A cycle pays the miners that are `Due`: their mature PENDING rows reach their threshold. The
batch names them by the address texts under which they mined, and all of them or none are
paid. Two texts of one destination can therefore meet in a batch
(`distinctDestinations_iff`).
-/

namespace ElektronPool.Pplns
set_option autoImplicit false
open Async Js

section
variable {settings : Settings} {overrides : OrderedMap String ℤ} {L : PayoutLedger} {matureUpTo : ℤ}

/-- The mature PENDING rows of a miner reach its own threshold, or the pool's. -/
def Due (settings : Settings) (overrides : OrderedMap String ℤ) (L : PayoutLedger) (matureUpTo : ℤ) (miner : String) :
    Prop :=
  miner ∈ (L.maturePending matureUpTo).map (·.minerAddress) ∧
    (overrides.get miner).getD settings.minPayoutThresholdSats ≤ sumSats (minerGroup (L.maturePending matureUpTo) miner)

instance (miner : String) : Decidable (Due settings overrides L matureUpTo miner) := inferInstanceAs (Decidable (_ ∧ _))

theorem mem_selectCandidates {c : PendingPayoutCandidate} :
    c ∈ PayoutCycle.selectCandidates settings overrides (L.getMaturePendingTotals matureUpTo) ↔
      Due settings overrides L matureUpTo c.minerAddress ∧ c = groupTotals (L.maturePending matureUpTo) c.minerAddress := by
  rw [PayoutCycle.selectCandidates, List.mem_filter, PayoutLedger.getMaturePendingTotals, mem_groupByMiner,
    decide_eq_true_eq]
  constructor
  · rintro ⟨⟨member, eq⟩, reached⟩
    refine ⟨⟨member, ?_⟩, eq⟩
    rwa [eq] at reached
  · rintro ⟨⟨member, reached⟩, eq⟩
    refine ⟨⟨member, eq⟩, ?_⟩
    rwa [eq]

/-- The candidates are the miners that are due. -/
theorem mem_candidates {miner : String} :
    miner ∈ (PayoutCycle.selectCandidates settings overrides (L.getMaturePendingTotals matureUpTo)).map
      (·.minerAddress) ↔ Due settings overrides L matureUpTo miner := by
  constructor
  · intro member
    obtain ⟨c, selected, rfl⟩ := List.mem_map.mp member
    exact (mem_selectCandidates.mp selected).1
  · intro due
    exact List.mem_map.mpr ⟨groupTotals (L.maturePending matureUpTo) miner, mem_selectCandidates.mpr ⟨due, rfl⟩, rfl⟩

theorem nodup_candidates : ((PayoutCycle.selectCandidates settings overrides
    (L.getMaturePendingTotals matureUpTo)).map (·.minerAddress)).Nodup :=
  (groupByMiner_nodup _).sublist (List.filter_sublist.map _)

/-- The keys of the batch are the miners that are due. -/
theorem mem_keys_batch {miner : String} :
    miner ∈ (sendManyAmounts (PayoutCycle.selectCandidates settings overrides
      (L.getMaturePendingTotals matureUpTo))).map Prod.fst ↔ Due settings overrides L matureUpTo miner := by
  rw [sendManyAmounts_eq nodup_candidates, List.map_map]
  exact mem_candidates

/-- The entry of a miner in the batch. -/
theorem get_batch (miner : String) :
    (sendManyAmounts (PayoutCycle.selectCandidates settings overrides (L.getMaturePendingTotals matureUpTo))).get miner =
      if Due settings overrides L matureUpTo miner then some (sumSats (minerGroup (L.maturePending matureUpTo) miner))
      else none := by
  split
  · rename_i due
    have keys : (sendManyAmounts (PayoutCycle.selectCandidates settings overrides
        (L.getMaturePendingTotals matureUpTo))).map Prod.fst =
        (PayoutCycle.selectCandidates settings overrides (L.getMaturePendingTotals matureUpTo)).map (·.minerAddress) := by
      rw [sendManyAmounts_eq nodup_candidates, List.map_map]
      rfl
    apply OrderedMap.get_of_mem
    · rw [keys]
      exact nodup_candidates
    · rw [sendManyAmounts_eq nodup_candidates]
      exact List.mem_map.mpr ⟨groupTotals (L.maturePending matureUpTo) miner, mem_selectCandidates.mpr ⟨due, rfl⟩, rfl⟩
  · rename_i not_due
    exact OrderedMap.get_eq_none fun member => not_due (mem_keys_batch.mp member)

theorem length_candidates_le : (PayoutCycle.selectCandidates settings overrides
    (L.getMaturePendingTotals matureUpTo)).length ≤ L.rows.length :=
  calc _ ≤ (L.getMaturePendingTotals matureUpTo).length := List.length_filter_le ..
    _ = ((L.maturePending matureUpTo).map (·.minerAddress)).dedup.length := by
      rw [PayoutLedger.getMaturePendingTotals, groupByMiner, List.length_map]
    _ ≤ (L.maturePending matureUpTo).length := (List.dedup_sublist _).length_le.trans (List.length_map _).le
    _ ≤ L.rows.length := List.length_filter_le ..

/-- Once the candidates are chosen, `sendmany` gets these candidates or is not called. -/
def PayoutCycle.Chosen (cs : List PendingPayoutCandidate) : PayoutCycle → Prop
  | .balance cs' | .unlock cs' | .send cs' | .sendFallback cs' => cs' = cs
  | .miningInfo | .totals _ | .overrides _ => False
  | _ => True

theorem PayoutCycle.chosen_afterSend (cs cs' : List PendingPayoutCandidate) (result : Option String) :
    Chosen cs (afterSend cs' result) := by
  cases result with
  | none => trivial
  | some txid => cases cs' <;> trivial

theorem PayoutCycle.chosen_settle (cs cs' : List PendingPayoutCandidate) (result : Option String) :
    Chosen cs (settle settings cs' result) := by
  unfold settle
  split
  · trivial
  · exact chosen_afterSend ..

theorem PayoutCycle.chosen_retry {cs cs' : List PendingPayoutCandidate} (message : Option String) (same : cs' = cs) :
    Chosen cs (retry settings cs' message) := by
  unfold retry
  split
  · exact same
  · exact chosen_settle ..

theorem PayoutCycle.chosen_resume {cs : List PendingPayoutCandidate} (s : PplnsState) (t : PayoutCycle) (a : Answer)
    (s' : PplnsState) (t' : PayoutCycle) (chosen : t.Chosen cs) (resumed : t.resume settings s a = some (s', t')) :
    t'.Chosen cs := by
  unfold PayoutCycle.resume at resumed
  split at resumed <;> cases resumed
  case h_1 | h_2 | h_3 | h_4 | h_5 | h_6 => cases chosen
  case h_7 =>
    split
    · trivial
    · split <;> exact chosen
  case h_9 => exact chosen
  case h_12 | h_13 => exact chosen_retry _ chosen
  case h_11 | h_14 | h_15 | h_16 => exact chosen_settle ..
  case h_17 | h_18 => exact chosen_afterSend ..
  case h_19 rest => cases rest <;> trivial
  all_goals trivial

/-- What a cycle passes to `sendmany`: the candidates of the ledger it read and the overrides it
got, whatever happens in between. -/
theorem sent_candidates {s₀ s s₁ : PplnsState} {blocks : ℤ} {answers : List (PplnsState × Answer)}
    {changes : List (PplnsState × PplnsState)} {call : PayoutCycle} {cs : List PendingPayoutCandidate}
    (run : amid (PayoutCycle.resume settings) .miningInfo
      ((s₀, .miningInfo (some blocks)) :: (s, .executed) :: (s₁, .overrides overrides) :: answers) = some (changes, call))
    (sending : call = .send cs ∨ call = .sendFallback cs) :
    cs = PayoutCycle.selectCandidates settings overrides
      (s.ledger.getMaturePendingTotals (PayoutCycle.matureUpToHeight settings blocks)) := by
  obtain ⟨_, _, _, height, run, -⟩ := amid_cons.mp run
  cases height
  obtain ⟨_, t₂, _, read, run, -⟩ := amid_cons.mp run
  cases read
  obtain ⟨_, t₃, _, chosen, run, -⟩ := amid_cons.mp run
  split at chosen
  · cases chosen
  · cases chosen
    have choice : call.Chosen (PayoutCycle.selectCandidates settings overrides
        (s.ledger.getMaturePendingTotals (PayoutCycle.matureUpToHeight settings blocks))) := by
      refine amid_invariant PayoutCycle.chosen_resume ?_ run
      split
      · trivial
      · rfl
    rcases sending with rfl | rfl <;> exact choice

end

/-! ## Destinations -/

/-- `BitcoinAddressValidator.validate`. -/
def BitcoinAddressValidator.validate (toOutputScript : Stratum.Network → String → Option Buffer)
    (config : Stratum.StratumConfig) (value : String) : Bool :=
  match config.networkOf with
  | none => false
  | some network => (toOutputScript network value).isSome

/-- Where a payment to this text goes. -/
def destination (toOutputScript : Stratum.Network → String → Option Buffer) (config : Stratum.StratumConfig)
    (value : String) : Option Buffer :=
  config.networkOf.bind fun network => toOutputScript network value

/-- The addresses that pass are those with a destination. -/
theorem isSome_destination (toOutputScript : Stratum.Network → String → Option Buffer) (config : Stratum.StratumConfig)
    (value : String) :
    (destination toOutputScript config value).isSome = BitcoinAddressValidator.validate toOutputScript config value := by
  unfold destination BitcoinAddressValidator.validate
  cases config.networkOf <;> rfl

/-- No two keys have the same output script. -/
def DistinctDestinations (scriptOf : String → Option Buffer) (amounts : OrderedMap String ℤ) : Prop :=
  ∀ a ∈ amounts.map Prod.fst, ∀ b ∈ amounts.map Prod.fst, scriptOf a ≠ none → scriptOf a = scriptOf b → a = b

instance (scriptOf : String → Option Buffer) (amounts : OrderedMap String ℤ) :
    Decidable (DistinctDestinations scriptOf amounts) :=
  inferInstanceAs (Decidable (∀ a ∈ amounts.map Prod.fst, ∀ b ∈ amounts.map Prod.fst,
    scriptOf a ≠ none → scriptOf a = scriptOf b → a = b))

/-- **The recipients of a batch are different destinations** exactly when no two texts of one
destination are due at once. -/
theorem distinctDestinations_iff (toOutputScript : Stratum.Network → String → Option Buffer)
    (config : Stratum.StratumConfig) {settings : Settings} {s₀ s s₁ : PplnsState} {blocks : ℤ}
    {overrides : OrderedMap String ℤ} {answers : List (PplnsState × Answer)} {changes : List (PplnsState × PplnsState)}
    {call : PayoutCycle} {cs : List PendingPayoutCandidate}
    (run : amid (PayoutCycle.resume settings) .miningInfo
      ((s₀, .miningInfo (some blocks)) :: (s, .executed) :: (s₁, .overrides overrides) :: answers) = some (changes, call))
    (sending : call = .send cs ∨ call = .sendFallback cs) :
    DistinctDestinations (destination toOutputScript config) (sendManyAmounts cs) ↔
      ∀ a b, a ≠ b → destination toOutputScript config a ≠ none →
        destination toOutputScript config a = destination toOutputScript config b →
        ¬ (Due settings overrides s.ledger (PayoutCycle.matureUpToHeight settings blocks) a ∧
          Due settings overrides s.ledger (PayoutCycle.matureUpToHeight settings blocks) b) := by
  rw [sent_candidates run sending]
  constructor
  · rintro distinct a b different valid same ⟨dueA, dueB⟩
    exact different (distinct a (mem_keys_batch.mpr dueA) b (mem_keys_batch.mpr dueB) valid same)
  · intro apart a memberA b memberB valid same
    by_contra different
    exact apart a b different valid same ⟨mem_keys_batch.mp memberA, mem_keys_batch.mp memberB⟩

namespace Regtest

def config : Stratum.StratumConfig := ⟨none, some "regtest", false, false⟩

def lowerCase : String := "bcrt1qqypqxpq9qcrsszg2pvxq6rs0zqg3yyc5phstwt"

def upperCase : String := "BCRT1QQYPQXPQ9QCRSSZG2PVXQ6RS0ZQG3YYC5PHSTWT"

def otherMiner : String := "bcrt1qz5tpwxqergd3c8g7ruszzg3rysjjvfegkjy9xa"

/-- The output script of a witness program of 20 bytes. -/
def witnessScript (program : ℕ) : Buffer := [0x00, 0x14] ++ (leBytes 20 program).reverse

/-- `toOutputScript` on these texts: upper and lower case are one address. -/
def toOutputScript (network : Stratum.Network) (value : String) : Option Buffer :=
  if network ≠ .elektronRegtest then none
  else if value = lowerCase ∨ value = upperCase then
    some (witnessScript 0x0102030405060708090a0b0c0d0e0f1011121314)
  else if value = otherMiner then some (witnessScript 0x15161718191a1b1c1d1e1f202122232425262728)
  else none

/-- Two addresses are owed 100000 lep each from block 7. -/
def owed (first second : String) : PplnsState :=
  { PplnsState.empty with ledger := (PayoutLedger.empty.credit first 100000 7).credit second 100000 7 }

/-- A cycle at height 106 up to its `sendmany`. -/
def paying (s : PplnsState) : List (PplnsState × Answer) :=
  [(s, .miningInfo (some 106)), (s, .executed), (s, .overrides []), (s, .balance 200000)]

end Regtest

/-- Two miners with addresses of their own. -/
theorem distinctDestinations_iff_two_miners : ∃ changes cs,
    amid (PayoutCycle.resume .defaults) .miningInfo (Regtest.paying (Regtest.owed Regtest.lowerCase
      Regtest.otherMiner)) = some (changes, .send cs) ∧
    DistinctDestinations (destination Regtest.toOutputScript Regtest.config) (sendManyAmounts cs) := by
  have paid : (amid (PayoutCycle.resume .defaults) .miningInfo (Regtest.paying (Regtest.owed Regtest.lowerCase
      Regtest.otherMiner))).any (fun r => decide (r.2 = .send r.2.reading)) = true := by decide +kernel
  obtain ⟨⟨changes, call⟩, ran, sending⟩ := (Option.any_eq_true ..).mp paid
  have sends : call = .send call.reading := of_decide_eq_true sending
  refine ⟨changes, call.reading, by rw [← sends]; exact ran, ?_⟩
  apply (distinctDestinations_iff Regtest.toOutputScript Regtest.config ran (.inl sends)).mpr
  rintro a b different - same ⟨⟨memberA, -⟩, memberB, -⟩
  have apart : ∀ a ∈ [Regtest.lowerCase, Regtest.otherMiner], ∀ b ∈ [Regtest.lowerCase, Regtest.otherMiner], a ≠ b →
      destination Regtest.toOutputScript Regtest.config a ≠ destination Regtest.toOutputScript Regtest.config b := by
    decide +kernel
  exact apart a memberA b memberB different same

/-- The same address in lower and in upper case: both pass the validation, both are due, and the
batch names one destination twice. -/
theorem not_distinctDestinations_upper_case : ¬ ∀ s : PplnsState,
    (∀ r ∈ s.ledger.rows,
      BitcoinAddressValidator.validate Regtest.toOutputScript Regtest.config r.minerAddress = true) →
    ∀ changes cs, amid (PayoutCycle.resume .defaults) .miningInfo (Regtest.paying s) = some (changes, .send cs) →
      DistinctDestinations (destination Regtest.toOutputScript Regtest.config) (sendManyAmounts cs) := by
  intro claim
  have paid : (amid (PayoutCycle.resume .defaults) .miningInfo (Regtest.paying (Regtest.owed Regtest.lowerCase
      Regtest.upperCase))).any (fun r => decide (r.2 = .send r.2.reading ∧
        ¬ DistinctDestinations (destination Regtest.toOutputScript Regtest.config)
          (sendManyAmounts r.2.reading))) = true := by decide +kernel
  obtain ⟨⟨changes, call⟩, ran, repeated⟩ := (Option.any_eq_true ..).mp paid
  obtain ⟨sends, repeated⟩ := of_decide_eq_true repeated
  apply repeated
  apply claim (Regtest.owed Regtest.lowerCase Regtest.upperCase) (by decide +kernel) changes
  rw [← sends]
  exact ran

end ElektronPool.Pplns
