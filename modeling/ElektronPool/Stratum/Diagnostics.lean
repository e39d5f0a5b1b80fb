import ElektronPool.Stratum.Coinbase
import ElektronPool.Stratum.SubmittedBlock

/-!
# The diagnostic headers

The builders that `DIAGNOSTIC_SHARE_LOGGING_MODES` uses recompute a header for a coinbase with
spliced bytes. Two of them still take the first coinbase part for the whole coinbase, which it
was before the coinbase was cut in two; the third one starts from the transaction.
-/

namespace ElektronPool.Stratum
set_option autoImplicit false
open Js Bitcoin

namespace MiningJob
variable {P : Packages}

def buildHeaderBufferWithCoinbaseSuffix (job : MiningJob P) (t : JobTemplate) (versionMask nonce : Number)
    (coinbaseSuffix : Buffer) (timestamp : Number) : Option Buffer :=
  let splicedCoinbase := if 0 < coinbaseSuffix.length then job.coinbasePart1 ++ coinbaseSuffix else job.coinbasePart1
  job.assembleHeader t versionMask nonce splicedCoinbase timestamp

def buildHeaderBufferWithCoinbasePrefix (job : MiningJob P) (t : JobTemplate) (versionMask nonce : Number)
    (coinbasePrefix : Buffer) (timestamp : Number) : Option Buffer :=
  let splicedCoinbase := if 0 < coinbasePrefix.length then coinbasePrefix ++ job.coinbasePart1 else job.coinbasePart1
  job.assembleHeader t versionMask nonce splicedCoinbase timestamp

def buildHeaderBufferWithScriptSigSplice (job : MiningJob P) (t : JobTemplate) (versionMask nonce : Number)
    (extraBytes : Buffer) (timestamp : Number) : Option Buffer :=
  job.cloneCoinbaseTransaction.bind fun cloned =>
    match cloned.ins with
    | [] => none
    | first :: rest =>
      (P.serialize { cloned with ins := { first with script := first.script ++ extraBytes } :: rest }).bind
        fun splicedCoinbase => job.assembleHeader t versionMask nonce splicedCoinbase timestamp

/-- The numbers of a header fit their fields. -/
def Writable (job : MiningJob P) (versionMask nonce timestamp : Number) : Prop :=
  (writeInt32LE (maskedVersion job.jobVersion versionMask)).isSome ∧ (writeUInt32LE timestamp).isSome ∧
    (writeUInt32LE nonce).isSome

instance (job : MiningJob P) (versionMask nonce timestamp : Number) : Decidable (job.Writable versionMask nonce timestamp) :=
  inferInstanceAs (Decidable (_ ∧ _))

/-- Two coinbases lead to the same Merkle root. -/
def SameRoot (job : MiningJob P) (coinbase coinbase' : Buffer) : Prop :=
  calculateMerkleRootHash P (P.hash256 coinbase) job.merkleBranch =
    calculateMerkleRootHash P (P.hash256 coinbase') job.merkleBranch

section
variable {job : MiningJob P} {t : JobTemplate} {versionMask nonce timestamp : Number}

theorem isSome_assembleHeader (coinbase : Buffer) :
    (job.assembleHeader t versionMask nonce coinbase timestamp).isSome ↔ job.Writable versionMask nonce timestamp := by
  rw [assembleHeader_eq_header, header, writeUInt32LE_toNat, Writable]
  cases writeInt32LE (maskedVersion job.jobVersion versionMask) <;> cases writeUInt32LE timestamp <;>
    cases writeUInt32LE nonce <;> simp

/-- Two coinbases have the same header when their roots are the same, or there is no header. -/
theorem assembleHeader_eq_iff (coinbase coinbase' : Buffer) :
    job.assembleHeader t versionMask nonce coinbase timestamp =
        job.assembleHeader t versionMask nonce coinbase' timestamp ↔
      ¬ job.Writable versionMask nonce timestamp ∨ job.SameRoot coinbase coinbase' := by
  constructor
  · intro same
    by_cases writable : job.Writable versionMask nonce timestamp
    · obtain ⟨h, built⟩ := Option.isSome_iff_exists.mp ((isSome_assembleHeader (t := t) coinbase).mpr writable)
      have built' := same.symm.trans built
      rw [assembleHeader_eq_header] at built built'
      obtain ⟨-, -, root, -⟩ := header_inj built built'
      exact .inr root
    · exact .inl writable
  · rintro (unwritable | root)
    · have none : ∀ c, job.assembleHeader t versionMask nonce c timestamp = none := fun c =>
        Option.not_isSome_iff_eq_none.mp fun some => unwritable ((isSome_assembleHeader c).mp some)
      rw [none, none]
    · rw [assembleHeader_eq_header, assembleHeader_eq_header, root]

theorem buildHeaderBufferWithCoinbaseSuffix_eq (s : Buffer) :
    job.buildHeaderBufferWithCoinbaseSuffix t versionMask nonce s timestamp =
      job.assembleHeader t versionMask nonce (job.coinbasePart1 ++ s) timestamp := by
  unfold buildHeaderBufferWithCoinbaseSuffix
  cases s with
  | nil => rw [List.append_nil]; rfl
  | cons b rest => rfl

theorem buildHeaderBufferWithCoinbasePrefix_eq (s : Buffer) :
    job.buildHeaderBufferWithCoinbasePrefix t versionMask nonce s timestamp =
      job.assembleHeader t versionMask nonce (s ++ job.coinbasePart1) timestamp := by
  unfold buildHeaderBufferWithCoinbasePrefix
  cases s <;> rfl

/-- Splicing nothing into the scriptSig changes nothing. -/
theorem buildHeaderBufferWithScriptSigSplice_nil (clones : job.cloneCoinbaseTransaction = some job.coinbaseTransaction)
    (inputs : job.coinbaseTransaction.ins ≠ []) :
    job.buildHeaderBufferWithScriptSigSplice t versionMask nonce [] timestamp =
      job.buildHeaderBuffer t versionMask nonce timestamp := by
  obtain ⟨first, rest, ins⟩ := List.exists_cons_of_ne_nil inputs
  have same : { job.coinbaseTransaction with ins := { first with script := first.script ++ [] } :: rest } =
      job.coinbaseTransaction := by
    rw [List.append_nil, ← ins]
  simp only [buildHeaderBufferWithScriptSigSplice, clones, Option.bind_some, ins, same, job.parts_eq, assembleHeader_eq]

end

/-- What the modes promise for spliced bytes: nothing spliced is the header that was checked, and
other bytes stand behind, or before, the whole coinbase. -/
structure DiagnosticsAgree (job : MiningJob P) (t : JobTemplate) (versionMask nonce timestamp : Number)
    (spliced : Buffer) : Prop where
  empty : spliced = [] →
    job.buildHeaderBufferWithCoinbaseSuffix t versionMask nonce spliced timestamp =
        job.buildHeaderBuffer t versionMask nonce timestamp ∧
      job.buildHeaderBufferWithCoinbasePrefix t versionMask nonce spliced timestamp =
        job.buildHeaderBuffer t versionMask nonce timestamp ∧
      job.buildHeaderBufferWithScriptSigSplice t versionMask nonce spliced timestamp =
        job.buildHeaderBuffer t versionMask nonce timestamp
  suffix : spliced ≠ [] → job.buildHeaderBufferWithCoinbaseSuffix t versionMask nonce spliced timestamp =
    job.assembleHeader t versionMask nonce (job.coinbasePart1 ++ job.coinbasePart2 ++ spliced) timestamp
  before : spliced ≠ [] → job.buildHeaderBufferWithCoinbasePrefix t versionMask nonce spliced timestamp =
    job.assembleHeader t versionMask nonce (spliced ++ (job.coinbasePart1 ++ job.coinbasePart2)) timestamp

end MiningJob

/-- A job has one input. -/
theorem ins_ne_nil_of_new {P : Packages} {network : Network} {jobId : String} {payoutInformation : List AddressObject}
    {t : JobTemplate} {nowMs : ℤ} {job : MiningJob P}
    (built : MiningJob.new P network jobId payoutInformation t nowMs = some job) :
    job.coinbaseTransaction.ins ≠ [] := by
  obtain ⟨tx, made, -⟩ := Option.bind_eq_some_iff.mp built
  rw [(parts_of_coinbase made built).1]
  obtain ⟨created, creation, rfl⟩ := Option.map_eq_some_iff.mp made
  cases payoutInformation with
  | nil => cases creation
  | cons r rest =>
    cases creation
    exact List.cons_ne_nil _ _

namespace Regtest

/-- The packages with the double SHA-256 of the first coinbase part at height 101. -/
def diagnosed : Packages :=
  .standard (fun bytes => if bytes = coinbaseHead [1, 101] then
      .ofHex 0x70f1c6a864d07c15fdd443621af96e95a414f20974d812f1dd33b23c6453cd6b
    else packages.hash256 bytes) packages.toOutputScript packages.fromBuffer

/-- A template of height 101 and its job have this property, and the coinbase can be copied. -/
def someJob (property : MiningJob diagnosed → JobTemplate → Bool) : Bool :=
  ((JobsService.empty (P := diagnosed)).buildTemplateFor "" (template 101) 0).2.any fun t =>
    (MiningJob.new diagnosed .elektronRegtest "1" [⟨"bcrt1qqypqxpq9qcrsszg2pvxq6rs0zqg3yyc5phstwt", 100⟩] t 0).any
      fun job => decide (job.cloneCoinbaseTransaction = some job.coinbaseTransaction) && property job t

end Regtest

end ElektronPool.Stratum
