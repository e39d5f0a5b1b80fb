import ElektronPool.Stratum.Coinbase

/-!
# Where the reward goes

The one payout of every job is the configured pool wallet, with the whole coinbase value. The
address is only checked for being there; one that does not decode on the configured network
is paid to the empty script (`paysPoolWallet_iff`).
-/

namespace ElektronPool.Stratum
set_option autoImplicit false
open Js Bitcoin

section
variable (P : Packages) (config : StratumConfig)

/-- The output script of the configured address on the configured network. -/
def poolWalletScript : Option Buffer := do
  let address ← config.getPoolWalletAddress
  let network ← config.networkOf
  P.toOutputScript network address

/-- The first output of the coinbase pays the whole value to the configured address. -/
def PaysPoolWallet (t : JobTemplate) (job : MiningJob P) : Prop :=
  ∃ script, poolWalletScript P config = some script ∧
    job.coinbaseTransaction.outs.head? = some ⟨script, t.blockData.coinbasevalue⟩

variable {P config}

/-- A single payout of 100 percent is the whole reward. -/
theorem createCoinbaseTransaction_single (network : Network) (address : String) (reward : ℕ) :
    createCoinbaseTransaction P network [⟨address, 100⟩] reward = some {
      version := 2
      ins := [⟨.zero, 0xffffffff, [], 0xfffffffe, [Hash.zero.bytes]⟩]
      outs := [⟨getPaymentScript P network address, reward⟩]
      locktime := 0 } := by
  have whole : payoutAmount reward ⟨address, 100⟩ = reward := by
    have exact_share : (100 : ℚ) / 100 * reward = (reward : ℤ) := by
      rw [div_self (by norm_num), one_mul, Int.cast_natCast]
    rw [payoutAmount, exact_share, Int.floor_intCast]
  simp only [createCoinbaseTransaction, List.map_cons, List.map_nil, List.sum_cons, List.sum_nil, whole, add_zero,
    sub_self]

/-- The first output of a job goes to the script of the pool wallet, or to the empty one. -/
theorem outs_of_newJob {service : JobsService P} {t : JobTemplate} {nowMs : ℤ} {job : MiningJob P}
    (made : Client.newJob P config service t nowMs = some job) :
    job.coinbaseTransaction.outs.head? = some ⟨(poolWalletScript P config).getD [], t.blockData.coinbasevalue⟩ := by
  obtain ⟨address, addressed, made⟩ := Option.bind_eq_some_iff.mp made
  obtain ⟨network, networked, made⟩ := Option.bind_eq_some_iff.mp made
  have script : (poolWalletScript P config).getD [] = getPaymentScript P network address := by
    rw [poolWalletScript, addressed, networked]
    rfl
  have coinbase : coinbaseTransaction P network [⟨address, 100⟩] t = some {
      version := 2
      ins := [⟨.zero, 0xffffffff, scriptSig P t, 0xfffffffe, [Hash.zero.bytes]⟩]
      outs := ⟨getPaymentScript P network address, t.blockData.coinbasevalue⟩ :: requiredOutputs P t
      locktime := (t.blockData.height : ℤ) - 1 } := by
    rw [coinbaseTransaction, createCoinbaseTransaction_single, Option.map_some]
    rfl
  rw [(parts_of_coinbase coinbase made).1, script]
  rfl

end

/-- **Whether the reward goes to the pool wallet**: a session sends no job, or one that pays the
configured address exactly when this decodes on the configured network. -/
theorem paysPoolWallet_iff (P : Packages) (config : StratumConfig) (service : JobsService P) (c : Client)
    (t : JobTemplate) (nowMs : ℤ) :
    let r := Client.sendNewMiningJob P config service c t nowMs
    ((r.2.2 = .closed ∨ r.2.2 = .threw) ∧ r.1 = service ∧ r.2.1.notified = c.notified) ∨
    ∃ job, Client.newJob P config service (c.versioned t) nowMs = some job ∧ r.2.2 = .writing t.block.timestamp ∧
      r.1 = service.addJob job ∧ r.2.1.notified = c.notified ++ [job.response (c.versioned t)] ∧
      (PaysPoolWallet P config t job ↔ (poolWalletScript P config).isSome) := by
  intro r
  obtain ⟨-, same⟩ | ⟨-, threw⟩ | ⟨job, -, made, sent⟩ := c.sendNewMiningJob_cases P config service t nowMs
  · have here : r = _ := same
    rw [here]
    exact .inl ⟨.inl rfl, rfl, rfl⟩
  · have here : r = _ := threw
    rw [here]
    exact .inl ⟨.inr rfl, rfl, rfl⟩
  · have here : r = _ := sent
    rw [here]
    refine .inr ⟨job, made, rfl, rfl, rfl, ?_⟩
    have first := outs_of_newJob made
    constructor
    · rintro ⟨script, decoded, -⟩
      rw [decoded, Option.isSome_some]
    · intro decodes
      obtain ⟨script, decoded⟩ := Option.isSome_iff_exists.mp decodes
      rw [decoded, Option.getD_some] at first
      exact ⟨script, decoded, first⟩

/-- The address of the pool wallet with a letter missing. -/
def Regtest.mistyped : StratumConfig := { config with poolWalletAddress := some "bcrt1qqypqxpq9qcrsszg2pvxq6rs0zqg3yyc5phstw" }

/-- A mistyped address: the session makes a job that pays the reward to the empty script. -/
theorem not_paysPoolWallet_mistyped : ¬ ∀ (P : Packages) (config : StratumConfig) (service : JobsService P)
    (t : JobTemplate) (nowMs : ℤ) (job : MiningJob P), Client.newJob P config service t nowMs = some job →
      PaysPoolWallet P config t job := by
  intro claim
  have evaluated : ((JobsService.empty (P := Regtest.packages)).buildTemplateFor "" (Regtest.template 101) 0).2.any (fun t =>
      (Client.newJob Regtest.packages Regtest.mistyped .empty t 0).any fun job =>
        decide (job.coinbaseTransaction.outs.head? = some ⟨[], 5000000000⟩)) = true := by decide +kernel
  obtain ⟨t, -, rest⟩ := (Option.any_eq_true ..).mp evaluated
  obtain ⟨job, made, -⟩ := (Option.any_eq_true ..).mp rest
  obtain ⟨script, decoded, -⟩ := claim _ _ _ t 0 job made
  have undecoded : poolWalletScript Regtest.packages Regtest.mistyped = none := by decide +kernel
  rw [undecoded] at decoded
  cases decoded

end ElektronPool.Stratum
