import ElektronPool.Bitcoin.Script
import ElektronPool.Stratum.Regtest

/-!
# The scriptSig of a template without a prefix

The UTXO attestation of a block is for the coinbase that the node itself would make, whose
scriptSig is `CScript() << height`. For a template that brings no prefix the job puts the height
together on its own, always as a length and the bytes of the number: the opcodes of the heights 1
to 16 are never written.
-/

namespace ElektronPool.Stratum
set_option autoImplicit false
open Js Bitcoin

section
variable {P : Packages} {t : JobTemplate}

/-- The coinbase of a job has one input, with the scriptSig of its template. -/
theorem MiningJob.scripts_of_new {network : Network} {jobId : String} {payoutInformation : List AddressObject}
    {nowMs : ℤ} {job : MiningJob P} (built : MiningJob.new P network jobId payoutInformation t nowMs = some job) :
    job.coinbaseTransaction.ins.map (·.script) = [scriptSig P t] := by
  obtain ⟨tx, made, rest⟩ := Option.bind_eq_some_iff.mp built
  split at rest
  · cases rest
  · dsimp only at rest
    split at rest
    · cases rest
    · cases rest
      obtain ⟨created, creation, rfl⟩ := Option.map_eq_some_iff.mp made
      rw [createCoinbaseTransaction] at creation
      split at creation
      · cases creation
      · cases creation
        rfl

/-- The length of the encoded height is in front of it, except at height 0. -/
theorem scriptSig_of_unset (encodes : P.encodeNumber t.blockData.height = scriptNum t.blockData.height)
    (unset : t.coinbaseScriptSigPrefix.getD [] = []) :
    scriptSig P t = if t.blockData.height = 0 then [0, 0] else
      BitVec.ofNat 8 (scriptNum t.blockData.height).length :: scriptNum t.blockData.height := by
  have own : scriptSig P t =
      let fallback := BitVec.ofNat 8 (scriptNum t.blockData.height).length :: scriptNum t.blockData.height
      if fallback.length < 2 then fallback ++ [0] else fallback := by
    rw [scriptSig, encodes]
    cases set : t.coinbaseScriptSigPrefix with
    | none => rfl
    | some bytes =>
      rw [set, Option.getD_some] at unset
      rw [unset]
  rw [own]
  split
  · rename_i zero
    rw [zero]
    rfl
  · rename_i nonzero
    have bytes := List.length_pos_iff.mpr (scriptNum_ne_nil (Nat.pos_of_ne_zero nonzero))
    rw [if_neg (by rw [List.length_cons]; omega)]

/-- Two heights never get the same scriptSig. -/
theorem height_eq_of_scriptSig_eq {t' : JobTemplate} (minimal : ∀ n, P.encodeNumber n = scriptNum n)
    (unset : t.coinbaseScriptSigPrefix.getD [] = []) (unset' : t'.coinbaseScriptSigPrefix.getD [] = [])
    (same : scriptSig P t = scriptSig P t') : t.blockData.height = t'.blockData.height := by
  rw [scriptSig_of_unset (minimal _) unset, scriptSig_of_unset (minimal _) unset'] at same
  split at same <;> split at same
  · omega
  · rename_i nonzero
    exact absurd (List.cons.inj same).2.symm (scriptNum_ne_zero nonzero)
  · rename_i nonzero _
    exact absurd (List.cons.inj same).2 (scriptNum_ne_zero nonzero)
  · exact scriptNum_injective (List.cons.inj same).2

/-- **The scriptSig of a template without a prefix is the node's own** exactly at height 0 and from
height 17 on, as long as the number fits a direct push. -/
theorem scripts_eq_heightScript_iff {network : Network} {jobId : String} {payoutInformation : List AddressObject}
    {nowMs : ℤ} {job : MiningJob P} (minimal : ∀ n, P.encodeNumber n = scriptNum n)
    (unset : t.coinbaseScriptSigPrefix.getD [] = [])
    (built : MiningJob.new P network jobId payoutInformation t nowMs = some job) :
    job.coinbaseTransaction.ins.map (·.script) = [heightScript t.blockData.height] ↔
      t.blockData.height = 0 ∨ 16 < t.blockData.height ∧ 2 * t.blockData.height < 256 ^ 75 := by
  rw [MiningJob.scripts_of_new built, List.singleton_inj, scriptSig_of_unset (minimal _) unset]
  split
  · rename_i zero
    rw [zero]
    decide
  · rename_i nonzero
    have positive : 0 < t.blockData.height := Nat.pos_of_ne_zero nonzero
    rw [or_iff_right nonzero]
    by_cases above : 16 < t.blockData.height
    · rw [heightScript_of_lt above, eq_comm, pushNumber_eq_iff positive]
    · have other := scriptNum_ne_zero nonzero
      rw [heightScript_of_le positive (by omega)]
      constructor
      · intro same
        exact absurd (List.cons.inj same).2 other
      · intro pushed
        exact absurd pushed.1 above

end

namespace Regtest

/-- The packages with the minimal encoding of every height. -/
def encoding : Packages := { packages with encodeNumber := scriptNum }

/-- The template at a height for which the node gives no prefix. -/
def unprefixed (height : ℕ) : Option JobTemplate :=
  ((JobsService.empty (P := encoding)).buildTemplateFor ""
    { template height with coinbaseScriptSigPrefix := none } 0).2

def wallet : List AddressObject := [⟨"bcrt1qqypqxpq9qcrsszg2pvxq6rs0zqg3yyc5phstwt", 100⟩]

/-- The job of that template. -/
theorem exists_new_unprefixed {height : ℕ} (evaluated : (unprefixed height).any (fun t =>
      decide (t.coinbaseScriptSigPrefix = none ∧ t.blockData.height = height) &&
      (MiningJob.new encoding .elektronRegtest "1" wallet t 0).isSome) = true) :
    ∃ (t : JobTemplate) (job : MiningJob encoding), t.coinbaseScriptSigPrefix.getD [] = [] ∧
      t.blockData.height = height ∧ MiningJob.new encoding .elektronRegtest "1" wallet t 0 = some job := by
  obtain ⟨t, -, checks⟩ := (Option.any_eq_true ..).mp evaluated
  obtain ⟨template, built⟩ := Bool.and_eq_true_iff.mp checks
  obtain ⟨unset, is_height⟩ := of_decide_eq_true template
  obtain ⟨job, built⟩ := Option.isSome_iff_exists.mp built
  exact ⟨t, job, by rw [unset, Option.getD_none], is_height, built⟩

end Regtest

/-- A job at height 101. -/
theorem scripts_eq_heightScript_iff_101 : ∃ (t : JobTemplate) (job : MiningJob Regtest.encoding),
    t.blockData.height = 101 ∧ job.coinbaseTransaction.ins.map (·.script) = [heightScript 101] := by
  obtain ⟨t, job, unset, height, built⟩ := Regtest.exists_new_unprefixed (by decide +kernel : (Regtest.unprefixed 101).any _ = true)
  have same := (scripts_eq_heightScript_iff (fun _ => rfl) unset built).mpr (.inr (by rw [height]; decide))
  rw [height] at same
  exact ⟨t, job, height, same⟩

/-- At height 1 the node pushes `OP_1`. -/
theorem scripts_ne_heightScript_1 : ¬ ∀ (P : Packages) (network : Network) (jobId : String)
    (payoutInformation : List AddressObject) (t : JobTemplate) (nowMs : ℤ) (job : MiningJob P),
    (∀ n, P.encodeNumber n = scriptNum n) → t.coinbaseScriptSigPrefix.getD [] = [] →
    MiningJob.new P network jobId payoutInformation t nowMs = some job →
    job.coinbaseTransaction.ins.map (·.script) = [heightScript t.blockData.height] := by
  intro claim
  obtain ⟨t, job, unset, height, built⟩ := Regtest.exists_new_unprefixed (by decide +kernel : (Regtest.unprefixed 1).any _ = true)
  have same := claim Regtest.encoding _ _ _ t _ job (fun _ => rfl) unset built
  rw [MiningJob.scripts_of_new built, scriptSig_of_unset rfl unset, height] at same
  exact absurd same (by decide +kernel)

end ElektronPool.Stratum
