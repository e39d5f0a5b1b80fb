import ElektronPool.Stratum.Regtest

/-!
# The block that is submitted

A share is checked on the header that `buildHeaderBuffer` writes byte by byte; the block that
goes to the node is put together by `copyAndUpdateBlock` from a copy of the coinbase, and
bitcoinjs-lib writes its header. Both write the same numbers with the same range checks, and
the copy of the coinbase has the hash of the two coinbase parts.
-/

namespace ElektronPool.Stratum
set_option autoImplicit false
open Js Bitcoin

namespace MiningJob
variable {P : Packages}

/-- The writes of `buildHeaderBuffer`, which `assembleHeader` repeats for any coinbase bytes. -/
def assembleHeader (job : MiningJob P) (t : JobTemplate) (versionMask nonce : Number) (coinbaseSerialized : Buffer)
    (timestamp : Number) : Option Buffer := do
  let coinbaseHash := P.hash256 coinbaseSerialized
  let merkleRoot := calculateMerkleRootHash P coinbaseHash job.merkleBranch
  let version ← writeInt32LE (maskedVersion job.jobVersion versionMask)
  let header := copyTo (alloc 80) 0 (wordBytes version)
  let header := copyTo header 4 t.block.prevHash.bytes
  let header := copyTo header 36 merkleRoot.bytes
  let timestamp ← writeUInt32LE timestamp
  let header := copyTo header 68 (wordBytes timestamp)
  let bits ← writeUInt32LE (.fin t.block.bits.toNat)
  let header := copyTo header 72 (wordBytes bits)
  let nonce ← writeUInt32LE nonce
  return copyTo header 76 (wordBytes nonce)

/-- The writes in order fill the buffer with the fields of the header. -/
theorem assembleHeader_eq_header (job : MiningJob P) (t : JobTemplate) (versionMask nonce : Number)
    (coinbaseSerialized : Buffer) (timestamp : Number) :
    job.assembleHeader t versionMask nonce coinbaseSerialized timestamp =
      header (maskedVersion job.jobVersion versionMask) t.block.prevHash
        (calculateMerkleRootHash P (P.hash256 coinbaseSerialized) job.merkleBranch) timestamp (.fin t.block.bits.toNat)
        nonce := by
  have filled : ∀ v ts b n : BitVec 32, ∀ prev root : Hash,
      copyTo (copyTo (copyTo (copyTo (copyTo (copyTo (alloc 80) 0 (wordBytes v)) 4 prev.bytes) 36 root.bytes) 68
        (wordBytes ts)) 72 (wordBytes b)) 76 (wordBytes n) =
      wordBytes v ++ prev.bytes ++ root.bytes ++ wordBytes ts ++ wordBytes b ++ wordBytes n := by
    intro v ts b n prev root
    have word : ∀ w : BitVec 32, (wordBytes w).length = 4 := fun w => length_leBytes 4 w.toNat
    have start : copyTo (alloc 80) 0 (wordBytes v) = wordBytes v ++ alloc (80 - 4) := by
      have first : copyTo ([] ++ alloc 80) 0 (wordBytes v) = ([] ++ wordBytes v) ++ alloc (80 - (wordBytes v).length) :=
        copyTo_alloc rfl (by rw [word]; omega)
      rwa [word] at first
    rw [start, copyTo_alloc, copyTo_alloc, copyTo_alloc, copyTo_alloc, copyTo_alloc]
    · simp [alloc, word, Hash.length_eq]
    all_goals simp [word, Hash.length_eq]
  simp only [assembleHeader, header, Option.bind_eq_bind, Option.pure_def, filled]

theorem assembleHeader_eq (job : MiningJob P) (t : JobTemplate) (versionMask nonce timestamp : Number) :
    job.assembleHeader t versionMask nonce (job.coinbasePart1 ++ job.coinbasePart2) timestamp =
      job.buildHeaderBuffer t versionMask nonce timestamp :=
  job.assembleHeader_eq_header t versionMask nonce _ timestamp

theorem length_buildHeaderBuffer {job : MiningJob P} {t : JobTemplate} {versionMask nonce timestamp : Number}
    {h : Buffer} (built : job.buildHeaderBuffer t versionMask nonce timestamp = some h) : h.length = 80 := by
  obtain ⟨v, ts, b, n, -, -, -, -, rfl⟩ := header_eq_some built
  simp [wordBytes, Hash.length_eq]

end MiningJob

/-- **The block that is submitted is the one that was checked**: `copyAndUpdateBlock` does not
fail, its block has the stored coinbase and then the transactions of the template, and its
header can be written exactly if `buildHeaderBuffer` returns, which then returns these 80 bytes. -/
theorem submittedBlock_eq {P : Packages} {job : MiningJob P} (t : JobTemplate) (versionMask nonce timestamp : Number)
    (clones : job.cloneCoinbaseTransaction = some job.coinbaseTransaction) :
    ∃ block, job.copyAndUpdateBlock t versionMask nonce timestamp = some block ∧
      block.transactions = job.coinbaseTransaction :: t.block.transactions.tail ∧
      block.header = job.buildHeaderBuffer t versionMask nonce timestamp ∧
      job.buildHeaderBuffer t versionMask nonce timestamp =
        job.assembleHeader t versionMask nonce (job.coinbasePart1 ++ job.coinbasePart2) timestamp ∧
      ∀ h ∈ job.buildHeaderBuffer t versionMask nonce timestamp, h.length = 80 := by
  obtain ⟨block, copied, header⟩ := MiningJob.header_copyAndUpdateBlock t versionMask nonce timestamp clones
  refine ⟨block, copied, ?_, header, (job.assembleHeader_eq t versionMask nonce timestamp).symm, ?_⟩
  · rw [MiningJob.copyAndUpdateBlock, clones, Option.bind_some] at copied
    obtain ⟨coinbaseHash, -, rfl⟩ := Option.map_eq_some_iff.mp copied
    rfl
  · exact fun h built => MiningJob.length_buildHeaderBuffer built

/-- The first template of height 101 and its job, with a nonce that is not a number. -/
theorem submittedBlock_eq_nan_nonce : ∃ (t : JobTemplate) (job : MiningJob Regtest.packages) (block : Block) (h : Buffer),
    job.copyAndUpdateBlock t (.fin 0) .nan (.fin 1700000000) = some block ∧ block.header = some h ∧ h.length = 80 ∧
      block.transactions.head? = some (Regtest.coinbase 101) := by
  have evaluated : ((JobsService.empty (P := Regtest.packages)).buildTemplateFor "" (Regtest.template 101) 0).2.any (fun t =>
      (Client.newJob Regtest.packages Regtest.config .empty t 0).any fun job =>
        decide (job.cloneCoinbaseTransaction = some job.coinbaseTransaction ∧
          job.coinbaseTransaction = Regtest.coinbase 101) &&
          (job.buildHeaderBuffer t (.fin 0) .nan (.fin 1700000000)).isSome) = true := by decide +kernel
  obtain ⟨t, -, rest⟩ := (Option.any_eq_true ..).mp evaluated
  obtain ⟨job, -, checks⟩ := (Option.any_eq_true ..).mp rest
  obtain ⟨same, built⟩ := Bool.and_eq_true_iff.mp checks
  obtain ⟨clones, coinbase⟩ := of_decide_eq_true same
  obtain ⟨h, built⟩ := Option.isSome_iff_exists.mp built
  obtain ⟨block, copied, transactions, header, -, length⟩ := submittedBlock_eq t (.fin 0) .nan (.fin 1700000000) clones
  refine ⟨t, job, block, h, copied, header.trans built, length h built, ?_⟩
  rw [transactions, coinbase]
  rfl

end ElektronPool.Stratum
