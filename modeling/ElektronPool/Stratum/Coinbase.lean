import Mathlib.Algebra.Order.BigOperators.Group.List
import ElektronPool.Stratum.Regtest

/-!
# The coinbase of a job

For a template with a scriptSig prefix and required outputs the coinbase is determined byte by
byte, except for how the reward is divided. The two parts that a miner is sent are cut behind
the scriptSig, because a prefix of at most 252 bytes has a length of one byte.
-/

namespace ElektronPool.Stratum
set_option autoImplicit false
open Js Bitcoin

/-- What `__toBuffer()` writes, where it does not throw, is the standard serialisation. The numbers
then fit their fields. -/
def Packages.SerializesStandard (P : Packages) : Prop :=
  ∀ tx bytes, P.serialize tx = some bytes → tx.InRange ∧ bytes = tx.baseBytes

section
variable {P : Packages} {network : Network} {addresses : List AddressObject} (reward : ℕ)

/-! ## How the reward is divided -/

/-- The shares, rounded down, take at most the whole. -/
theorem sum_payoutAmount_le (shares : (addresses.map (·.percent)).sum ≤ 100) :
    (addresses.map (payoutAmount reward)).sum ≤ reward := by
  have floors : ((addresses.map (payoutAmount reward)).sum : ℚ) ≤ (addresses.map (·.percent)).sum / 100 * reward := by
    clear shares
    induction addresses with
    | nil => simp
    | cons r rest ih =>
      have first : (payoutAmount reward r : ℚ) ≤ r.percent / 100 * reward := Int.floor_le _
      simp only [List.map_cons, List.sum_cons, Int.cast_add]
      linarith
  have whole : (addresses.map (·.percent)).sum / 100 * reward ≤ (reward : ℚ) := by
    have nonneg : (0 : ℚ) ≤ reward := Nat.cast_nonneg reward
    nlinarith
  exact_mod_cast floors.trans whole

theorem payoutAmount_nonneg {r : AddressObject} (share : 0 ≤ r.percent) : 0 ≤ payoutAmount reward r :=
  Int.floor_nonneg.mpr (by positivity)

/-- The payouts: one for each address, to its script, and together the reward. -/
structure Payouts (P : Packages) (network : Network) (addresses : List AddressObject) (reward : ℕ)
    (payouts : List TxOut) : Prop where
  scripts : payouts.map (fun out => some out.script) = addresses.map fun r => P.toOutputScript network r.address
  sum : (payouts.map (·.value)).sum = reward
  nonneg : (∀ r ∈ addresses, 0 ≤ r.percent) → ∀ out ∈ payouts, 0 ≤ out.value

/-- What `createCoinbaseTransaction` returns for addresses that decode. -/
theorem createCoinbaseTransaction_eq (addressed : addresses ≠ [])
    (valid : ∀ r ∈ addresses, (P.toOutputScript network r.address).isSome)
    (shares : (addresses.map (·.percent)).sum ≤ 100) :
    ∃ payouts, Payouts P network addresses reward payouts ∧ createCoinbaseTransaction P network addresses reward = some {
      version := 2
      ins := [⟨.zero, 0xffffffff, [], 0xfffffffe, [Hash.zero.bytes]⟩]
      outs := payouts
      locktime := 0 } := by
  have decoded : ∀ r ∈ addresses, some (getPaymentScript P network r.address) = P.toOutputScript network r.address := by
    intro r member
    obtain ⟨script, found⟩ := Option.isSome_iff_exists.mp (valid r member)
    rw [getPaymentScript, found, Option.getD_some]
  have most := sum_payoutAmount_le reward shares
  cases addresses with
  | nil => exact absurd rfl addressed
  | cons r rest =>
    refine ⟨_, ⟨?_, ?_, ?_⟩, rfl⟩
    · rw [List.map_cons, List.map_cons, List.map_map, decoded r List.mem_cons_self]
      exact congrArg _ (List.map_congr_left fun r' member => decoded r' (List.mem_cons_of_mem _ member))
    · simp only [List.map_cons, List.map_map, List.sum_cons, Function.comp_def]
      change payoutAmount reward r + _ + (rest.map (payoutAmount reward)).sum = _
      omega
    · intro share out member
      obtain rfl | member := List.mem_cons.mp member
      · have first := payoutAmount_nonneg reward (share r List.mem_cons_self)
        dsimp only
        omega
      · obtain ⟨r', member', rfl⟩ := List.mem_map.mp member
        exact payoutAmount_nonneg reward (share r' (List.mem_cons_of_mem _ member'))

end

/-! ## The coinbase and its two parts -/

/-- The bytes of a coinbase up to the end of its scriptSig. -/
def coinbaseHead (script : Buffer) : Buffer :=
  wordBytes 2 ++ [1] ++ Hash.zero.bytes ++ wordBytes 0xffffffff ++ [BitVec.ofNat 8 script.length] ++ script

/-- The bytes behind the scriptSig. -/
def coinbaseTail (outs : List TxOut) (locktime : ℤ) : Buffer :=
  wordBytes 0xfffffffe ++ compactSize outs.length ++
    outs.flatMap (fun o => leBytes 8 o.value.toNat ++ varSlice o.script) ++ leBytes 4 locktime.toNat

theorem compactSize_of_lt {n : ℕ} (short : n < 0xfd) : compactSize n = [BitVec.ofNat 8 n] := by
  rw [compactSize, if_pos short]
  simp [leBytes]

theorem length_coinbaseHead (script : Buffer) : (coinbaseHead script).length = 42 + script.length := by
  simp only [coinbaseHead, List.length_append, wordBytes, length_leBytes, Hash.length_eq, List.length_singleton]

/-- The serialisation of a coinbase whose scriptSig has a length of one byte. -/
theorem baseBytes_coinbase {script : Buffer} (short : script.length < 0xfd) (outs : List TxOut) (locktime : ℤ)
    (witness : List Buffer) :
    Transaction.baseBytes ⟨2, [⟨.zero, 0xffffffff, script, 0xfffffffe, witness⟩], outs, locktime⟩ =
      coinbaseHead script ++ coinbaseTail outs locktime := by
  simp [Transaction.baseBytes, Transaction.body, varSlice, compactSize_of_lt short, compactSize_of_lt (n := 1),
    coinbaseHead, coinbaseTail]

/-- The stored coinbase of a job is that of its template, and its parts are the bytes of it. -/
theorem parts_of_coinbase {P : Packages} {network : Network} {jobId : String} {payoutInformation : List AddressObject}
    {t : JobTemplate} {nowMs : ℤ} {job : MiningJob P} {tx : Transaction}
    (made : coinbaseTransaction P network payoutInformation t = some tx)
    (built : MiningJob.new P network jobId payoutInformation t nowMs = some job) :
    job.coinbaseTransaction = tx ∧ ∃ full, P.serialize tx = some full ∧
      job.coinbasePart1 = full.take (41 + 1 + (scriptSig P t).length) ∧
      job.coinbasePart2 = full.drop (41 + 1 + (scriptSig P t).length) := by
  rw [MiningJob.new, made, Option.bind_some] at built
  split at built
  · cases built
  · dsimp only at built
    split at built
    · cases built
    · rename_i full serialized
      cases built
      exact ⟨rfl, full, serialized, rfl, rfl⟩

/-- **What the coinbase of a job is**, for a template with a scriptSig prefix and required
outputs: the transaction can always be put together, the constructor only rejects its weight
or a number that does not fit, and the two parts of the job are its bytes up to the end of the
scriptSig and those behind. -/
theorem coinbase_of_scriptSigPrefix {P : Packages} (standard : P.SerializesStandard) (network : Network) (jobId : String)
    (nowMs : ℤ) {payoutInformation : List AddressObject} {t : JobTemplate} {prefixBytes : Buffer}
    (prefixed : t.coinbaseScriptSigPrefix = some prefixBytes) (nonempty : 1 ≤ prefixBytes.length)
    (short : prefixBytes.length ≤ 252) (required : t.coinbaseRequiredOutputs ≠ [])
    (addressed : payoutInformation ≠ [])
    (valid : ∀ r ∈ payoutInformation, (P.toOutputScript network r.address).isSome)
    (shares : (payoutInformation.map (·.percent)).sum ≤ 100) :
    ∃ payouts tx, Payouts P network payoutInformation t.blockData.coinbasevalue payouts ∧
      coinbaseTransaction P network payoutInformation t = some tx ∧
      tx = {
        version := 2
        ins := [⟨.zero, 0xffffffff, prefixBytes, 0xfffffffe, [List.replicate 32 0]⟩]
        outs := payouts ++ t.coinbaseRequiredOutputs
        locktime := (t.blockData.height : ℤ) - 1 } ∧
      ((MiningJob.new P network jobId payoutInformation t nowMs).isSome ↔
        P.weight tx + P.blockWeight t.block.transactions ≤ maxBlockWeight ∧ (P.serialize tx).isSome) ∧
      ∀ job, MiningJob.new P network jobId payoutInformation t nowMs = some job →
        (∀ out ∈ payouts, 0 ≤ out.value) ∧
        job.coinbaseTransaction = tx ∧ job.coinbasePart1 ++ job.coinbasePart2 = tx.baseBytes ∧
        job.coinbasePart1 = coinbaseHead prefixBytes ∧
        job.coinbasePart2 = coinbaseTail (payouts ++ t.coinbaseRequiredOutputs) ((t.blockData.height : ℤ) - 1) := by
  obtain ⟨payouts, divided, created⟩ :=
    createCoinbaseTransaction_eq t.blockData.coinbasevalue addressed valid shares
  have script : scriptSig P t = prefixBytes := by
    obtain ⟨b, rest, rfl⟩ := List.exists_cons_of_length_pos nonempty
    rw [scriptSig, prefixed]
  have outputs : requiredOutputs P t = t.coinbaseRequiredOutputs := by
    obtain ⟨out, rest, outs⟩ := List.exists_cons_of_ne_nil required
    rw [requiredOutputs, outs]
  have made : coinbaseTransaction P network payoutInformation t = some {
      version := 2
      ins := [⟨.zero, 0xffffffff, prefixBytes, 0xfffffffe, [Hash.zero.bytes]⟩]
      outs := payouts ++ t.coinbaseRequiredOutputs
      locktime := (t.blockData.height : ℤ) - 1 } := by
    rw [coinbaseTransaction, created, Option.map_some, script, outputs]
    rfl
  refine ⟨payouts, _, divided, made, rfl, ?_, fun job built => ?_⟩
  · rw [MiningJob.isSome_new, made, Option.any_some]
    simp only [Bool.and_eq_true, Bool.not_eq_true', decide_eq_false_iff_not, not_lt]
  · obtain ⟨stored, full, serialized, first, second⟩ := parts_of_coinbase made built
    obtain ⟨fits, bytes⟩ := standard _ full serialized
    have cut : full = coinbaseHead prefixBytes ++
        coinbaseTail (payouts ++ t.coinbaseRequiredOutputs) ((t.blockData.height : ℤ) - 1) := by
      rw [bytes, baseBytes_coinbase (by omega)]
    have boundary : 41 + 1 + (scriptSig P t).length = (coinbaseHead prefixBytes).length := by
      rw [script, length_coinbaseHead]
    refine ⟨fun out member => (fits.1 out (List.mem_append_left _ member)).1, stored, ?_, ?_, ?_⟩
    · rw [first, second, List.take_append_drop, bytes]
    · rw [first, boundary, cut, List.take_left]
    · rw [second, boundary, cut, List.drop_left]

/-- A third of the reward twice to the pool wallet. -/
def Regtest.thirds : List AddressObject :=
  List.replicate 2 ⟨"bcrt1qqypqxpq9qcrsszg2pvxq6rs0zqg3yyc5phstwt", 100 / 3⟩

/-- At height 101 what the thirds leave goes to the first output. -/
theorem coinbase_of_scriptSigPrefix_thirds :
    ∃ (t : JobTemplate) (job : MiningJob Regtest.packages),
      (∃ payouts, Payouts Regtest.packages .elektronRegtest Regtest.thirds 5000000000 payouts ∧
        job.coinbasePart2 = coinbaseTail (payouts ++ t.coinbaseRequiredOutputs) 100) ∧
      job.coinbasePart1 = coinbaseHead [1, 101] := by
  have evaluated : ((JobsService.empty (P := Regtest.packages)).buildTemplateFor "" (Regtest.template 101) 0).2.any (fun t =>
      decide (t.coinbaseScriptSigPrefix = some [1, 101] ∧ t.coinbaseRequiredOutputs ≠ [] ∧
        t.blockData.coinbasevalue = 5000000000 ∧ t.blockData.height = 101) &&
      (MiningJob.new Regtest.packages .elektronRegtest "1" Regtest.thirds t 0).isSome) = true := by decide +kernel
  obtain ⟨t, -, checks⟩ := (Option.any_eq_true ..).mp evaluated
  obtain ⟨template, built⟩ := Bool.and_eq_true_iff.mp checks
  obtain ⟨prefixed, required, value, height⟩ := of_decide_eq_true template
  obtain ⟨job, built⟩ := Option.isSome_iff_exists.mp built
  have standard : Regtest.packages.SerializesStandard := by
    intro tx bytes written
    change (if tx.InRange then some tx.baseBytes else none) = some bytes at written
    split at written
    · rename_i fits
      exact ⟨fits, (Option.some.inj written).symm⟩
    · cases written
  obtain ⟨payouts, tx, divided, -, -, -, parts⟩ := coinbase_of_scriptSigPrefix standard .elektronRegtest "1" 0 prefixed
    (by decide) (by decide) required (show Regtest.thirds ≠ [] from List.cons_ne_nil _ _) (by decide +kernel)
    (by norm_num [Regtest.thirds, List.replicate])
  obtain ⟨-, -, -, part1, part2⟩ := parts job built
  rw [value] at divided
  rw [height] at part2
  exact ⟨t, job, ⟨payouts, divided, part2⟩, part1⟩

end ElektronPool.Stratum
