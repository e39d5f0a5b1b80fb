import ElektronPool.Stratum.SearchSpace

/-!
# The version bits of a submission

The pool tells a miner which version bits it may roll, and counts its own jobs in four bits
outside of these. What a miner submits as its version bits is read as a number and flipped
into the version of the job, whatever bits these are (`staysWithinMask_iff`).
-/

namespace ElektronPool.Stratum
set_option autoImplicit false
open Js Bitcoin

/-- The version in the bytes of a header. -/
def headerVersion (header : Buffer) : BitVec 32 := BitVec.ofNat 32 (leValue (header.take 4))

/-- A header that differs from the version only in bits a miner may roll. -/
def RollsOnly (version : BitVec 32) (header : Buffer) : Prop :=
  (headerVersion header ^^^ version) &&& ~~~minerVersionBitsMask = 0

instance (version : BitVec 32) (header : Buffer) : Decidable (RollsOnly version header) :=
  inferInstanceAs (Decidable (_ = _))

/-- The version bits that are submitted are among those a miner may roll. -/
def MiningSubmitMessage.WithinMask (m : MiningSubmitMessage) : Prop :=
  m.versionMaskNumber.toInt32 &&& ~~~minerVersionBitsMask = 0

instance (m : MiningSubmitMessage) : Decidable m.WithinMask := inferInstanceAs (Decidable (_ = _))

/-- The header of a submission, the block that would be made of it, and the bits of the pool. -/
structure StaysWithinMask {P : Packages} (job : MiningJob P) (t : JobTemplate) (m : MiningSubmitMessage)
    (header : Buffer) : Prop where
  rolls : RollsOnly job.jobVersion header
  block : ∀ block ∈ job.copyAndUpdateBlock t m.versionMaskNumber m.nonceNumber m.timestampNumber,
    ∀ bytes ∈ block.header, RollsOnly job.jobVersion bytes
  reserved : headerVersion header &&& elektronPoolVersionBitsMask = job.jobVersion &&& elektronPoolVersionBitsMask

/-- The submitted numbers make a header for the job. -/
def MiningJob.Heads {P : Packages} (job : MiningJob P) (t : JobTemplate) (m : MiningSubmitMessage)
    (header : Buffer) : Prop :=
  job.buildHeaderBuffer t m.versionMaskNumber m.nonceNumber m.timestampNumber = some header

section
variable {P : Packages} {job : MiningJob P} {t : JobTemplate} {m : MiningSubmitMessage} {header : Buffer}

theorem headerVersion_of_header {version timestamp bits nonce : Number} {prevHash merkleRoot : Hash}
    (written : Bitcoin.header version prevHash merkleRoot timestamp bits nonce = some header) :
    writeInt32LE version = some (headerVersion header) := by
  obtain ⟨v, ts, b, n, version_eq, -, -, -, rfl⟩ := header_eq_some written
  have first : (wordBytes v ++ prevHash.bytes ++ merkleRoot.bytes ++ wordBytes ts ++ wordBytes b ++
      wordBytes n).take 4 = wordBytes v := by
    simp only [List.append_assoc]
    exact List.take_left' (length_leBytes 4 v.toNat)
  have value : leValue (wordBytes v) = v.toNat := (leValue_leBytes 4 v.toNat).trans (Nat.mod_eq_of_lt v.isLt)
  rw [version_eq, headerVersion, first, value, BitVec.ofNat_toNat, BitVec.setWidth_eq]

/-- The submitted bits are flipped. -/
theorem headerVersion_eq (built : job.Heads t m header) :
    headerVersion header = job.jobVersion ^^^ m.versionMaskNumber.toInt32 :=
  MiningJob.eq_xor_of_writeInt32LE (headerVersion_of_header built)

theorem headerVersion_copyAndUpdateBlock {block : Block} {bytes : Buffer}
    (copied : job.copyAndUpdateBlock t m.versionMaskNumber m.nonceNumber m.timestampNumber = some block)
    (written : block.header = some bytes) :
    headerVersion bytes = job.jobVersion ^^^ m.versionMaskNumber.toInt32 := by
  obtain ⟨coinbase, -, copied⟩ := Option.bind_eq_some_iff.mp copied
  obtain ⟨coinbaseHash, -, rfl⟩ := Option.map_eq_some_iff.mp copied
  exact MiningJob.eq_xor_of_writeInt32LE (headerVersion_of_header written)

theorem xor_xor_self (v w : BitVec 32) : v ^^^ w ^^^ v = w := by
  rw [BitVec.xor_comm v w, BitVec.xor_assoc, BitVec.xor_self, BitVec.xor_zero]

theorem xor_and_eq (v w mask : BitVec 32) : (v ^^^ w) &&& mask = v &&& mask ^^^ w &&& mask := by
  apply BitVec.eq_of_getElem_eq
  intro i below
  simp only [BitVec.getElem_and, BitVec.getElem_xor]
  exact Bool.and_xor_distrib_right ..

/-- The pool's bits are outside of the miner's. -/
theorem and_poolMask_of_withinMask (within : m.WithinMask) (v : BitVec 32) :
    (v ^^^ m.versionMaskNumber.toInt32) &&& elektronPoolVersionBitsMask = v &&& elektronPoolVersionBitsMask := by
  have inside : ~~~minerVersionBitsMask &&& elektronPoolVersionBitsMask = elektronPoolVersionBitsMask := by decide
  have none : m.versionMaskNumber.toInt32 &&& elektronPoolVersionBitsMask = 0#32 := by
    rw [← inside, ← BitVec.and_assoc, show _ &&& _ = 0#32 from within, BitVec.zero_and]
  rw [xor_and_eq, none, BitVec.xor_zero]

end

/-- **The version of a submission stays within the negotiated mask** exactly when its version bits
do; only then are its reserved bits those of its job, and its header is none of a job with
another rotation state. -/
theorem staysWithinMask_iff {P : Packages} {job : MiningJob P} {t : JobTemplate} {m : MiningSubmitMessage}
    {header : Buffer} (built : job.Heads t m header) :
    (StaysWithinMask job t m header ∧
      ∀ (job' : MiningJob P) (t' : JobTemplate) (m' : MiningSubmitMessage) (version version' : BitVec 32)
        (counter counter' : ℕ), m'.WithinMask → job.jobVersion = jobVersion version counter →
        job'.jobVersion = jobVersion version' counter' → poolVersionBits counter ≠ poolVersionBits counter' →
        ¬ job'.Heads t' m' header) ↔ m.WithinMask := by
  have bits : headerVersion header ^^^ job.jobVersion = m.versionMaskNumber.toInt32 := by
    rw [headerVersion_eq built, xor_xor_self]
  constructor
  · rintro ⟨stays, -⟩
    have rolls := stays.rolls
    rwa [RollsOnly, bits] at rolls
  · intro within
    have reserved : headerVersion header &&& elektronPoolVersionBitsMask =
        job.jobVersion &&& elektronPoolVersionBitsMask := by
      rw [headerVersion_eq built, and_poolMask_of_withinMask within]
    refine ⟨⟨?_, ?_, reserved⟩, ?_⟩
    · rw [RollsOnly, bits]
      exact within
    · intro block copied bytes written
      rw [RollsOnly, headerVersion_copyAndUpdateBlock copied written, xor_xor_self]
      exact within
    · intro job' t' m' version version' counter counter' within' made made' apart built'
      apply apart
      calc poolVersionBits counter = headerVersion header &&& elektronPoolVersionBitsMask := by
            rw [reserved, made, jobVersion_and_poolMask]
        _ = poolVersionBits counter' := by
            rw [headerVersion_eq built', and_poolMask_of_withinMask within', made', jobVersion_and_poolMask]

namespace Regtest

/-- A submission that flips the lowest of the pool's bits. -/
def flipped : MiningSubmitMessage := { submission "00000004" with versionMask := "2000" }

/-- Two jobs of one template, with the rotation states 0 and 1. -/
def rotated (property : MiningJob packages → MiningJob packages → JobTemplate → Bool) : Bool :=
  ((JobsService.empty (P := packages)).buildTemplateFor "" (template 101) 0).2.any fun t =>
    (Client.newJob packages config .empty (t.withVersion (jobVersion t.block.version 0)) 0).any fun job =>
      (Client.newJob packages config .empty (t.withVersion (jobVersion t.block.version 1)) 0).any fun job' =>
        property job job' t

theorem exists_of_rotated {property : MiningJob packages → MiningJob packages → JobTemplate → Bool}
    (evaluated : rotated property = true) : ∃ job job' t, property job job' t = true := by
  obtain ⟨t, -, rest⟩ := (Option.any_eq_true ..).mp evaluated
  obtain ⟨job, -, rest⟩ := (Option.any_eq_true ..).mp rest
  obtain ⟨job', -, checks⟩ := (Option.any_eq_true ..).mp rest
  exact ⟨job, job', t, checks⟩

end Regtest

/-- A submission within the mask, for the first of two jobs. -/
theorem staysWithinMask_iff_rolled : ∃ (job : MiningJob Regtest.packages) (t : JobTemplate) (header : Buffer),
    job.Heads t Regtest.rolled header ∧ headerVersion header = 0x20020000 ∧ StaysWithinMask job t Regtest.rolled header := by
  have evaluated : Regtest.rotated (fun job _ t => decide ((job.buildHeaderBuffer t Regtest.rolled.versionMaskNumber
      Regtest.rolled.nonceNumber Regtest.rolled.timestampNumber).map headerVersion = some 0x20020000)) = true := by
    decide +kernel
  obtain ⟨job, -, t, checks⟩ := Regtest.exists_of_rotated evaluated
  obtain ⟨header, built, version⟩ := Option.map_eq_some_iff.mp (of_decide_eq_true checks)
  exact ⟨job, t, header, built, version, ((staysWithinMask_iff built).mpr (by decide +kernel)).1⟩

/-- A miner flips the pool's lowest bit in the first of two jobs of one template: that bit is no
longer the job's, and the header is one of the second job. -/
theorem not_staysWithinMask_flipped :
    ∃ (job job' : MiningJob Regtest.packages) (t : JobTemplate) (header : Buffer),
      (job.jobVersion = jobVersion 0x20000000 0 ∧ job'.jobVersion = jobVersion 0x20000000 1) ∧
      job.Heads t Regtest.flipped header ∧ job'.Heads t (Regtest.submission "00000004") header ∧
      ¬ StaysWithinMask job t Regtest.flipped header := by
  have evaluated : Regtest.rotated (fun job job' t => decide (
      (job.jobVersion = jobVersion 0x20000000 0 ∧ job'.jobVersion = jobVersion 0x20000000 1) ∧
      ∃ header ∈ job.buildHeaderBuffer t Regtest.flipped.versionMaskNumber Regtest.flipped.nonceNumber
        Regtest.flipped.timestampNumber, ¬ RollsOnly job.jobVersion header ∧
        job'.buildHeaderBuffer t (Regtest.submission "00000004").versionMaskNumber Regtest.flipped.nonceNumber
          Regtest.flipped.timestampNumber = some header)) = true := by decide +kernel
  obtain ⟨job, job', t, checks⟩ := Regtest.exists_of_rotated evaluated
  obtain ⟨versions, header, built, outside, built'⟩ := of_decide_eq_true checks
  exact ⟨job, job', t, header, versions, built, built', fun stays => outside stays.rolls⟩

end ElektronPool.Stratum
