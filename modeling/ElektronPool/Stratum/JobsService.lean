import ElektronPool.Js.OrderedMap
import ElektronPool.Stratum.MiningJob

/-!
# StratumV1JobsService

The store of jobs and templates that all sessions share. `buildTemplateFor` is the part
behind the awaited `getblocktemplate`: from the reply on it runs without a pause. Job ids
are counted up, so no job ever replaces another one (`Numbered`).
-/

namespace ElektronPool.Stratum
set_option autoImplicit false
open Js Bitcoin

/-- `IBlockTemplate`, the reply of the node. The previous block hash is in display order. -/
structure BlockTemplate where
  version : BitVec 32
  previousblockhash : Hash
  mintime : ℤ
  bits : BitVec 32
  height : ℕ
  coinbasevalue : ℕ
  transactions : List Buffer
  coinbaseRequiredOutputs : List TxOut
  coinbaseScriptSigPrefix : Option Buffer
  deriving DecidableEq

/-- A reply of `getblocktemplate`. -/
structure Reply where
  coinbaseAddress : String
  blockTemplate : BlockTemplate
  nowMs : ℤ

structure JobsService (P : Packages) where
  latestJobId : ℕ
  latestJobTemplateId : ℕ
  jobs : OrderedMap String (MiningJob P)
  blocks : OrderedMap String JobTemplate
  lastTemplateHeightByAddress : OrderedMap String ℕ

/-- The coinbase that stands in the place of the real one. -/
def placeholderCoinbase : Transaction where
  version := 2
  ins := [⟨.zero, 0xffffffff, [], 0xffffffff, [Hash.zero.bytes]⟩]
  outs := []
  locktime := 0

/-- Five minutes. -/
def maxAgeMs : ℤ := 1000 * 60 * 5

/-- The transactions and the Merkle branch of a template, `none` where a transaction cannot be
read. -/
def templateTransactions (P : Packages) (blockTemplate : BlockTemplate) : Option (List Transaction × List Hash) := do
  let parsed ← blockTemplate.transactions.mapM P.fromBuffer
  let transactions := placeholderCoinbase :: parsed
  let transactionBuffers ← transactions.mapM (MiningJob.getHash P)
  let first ← transactionBuffers.head?
  let merkleBranches := (P.merkleProof (P.merkle transactionBuffers) first).filterMap id
  return (transactions, merkleBranches.dropLast.drop 1)

namespace JobsService
variable {P : Packages}

def empty : JobsService P := ⟨1, 1, [], [], []⟩

/-- Is the template for another height than the last one for this address? -/
def clearsJobs (s : JobsService P) (coinbaseAddress : String) (height : ℕ) : Bool :=
  decide ((s.lastTemplateHeightByAddress.get coinbaseAddress).getD 0 ≠ height)

/-- A new tip empties the store, another template of the same tip only drops what is old. -/
def evict (s : JobsService P) (clearJobs : Bool) (now : ℤ) : JobsService P :=
  if clearJobs then { s with jobs := [], blocks := [] }
  else { s with
    jobs := s.jobs.filter fun e => ¬ maxAgeMs < now - e.2.creation
    blocks := s.blocks.filter fun e => ¬ maxAgeMs < now - e.2.blockData.creation }

/-- `buildTemplateFor`, from the reply of the node on. The height is remembered even if the
template cannot be built. -/
def buildTemplateFor (s : JobsService P) (coinbaseAddress : String) (blockTemplate : BlockTemplate) (nowMs : ℤ) :
    JobsService P × Option JobTemplate :=
  let currentTime := nowMs / 1000
  let timestamp := if currentTime < blockTemplate.mintime then blockTemplate.mintime else currentTime
  let clearJobs := s.clearsJobs coinbaseAddress blockTemplate.height
  let s := { s with
    lastTemplateHeightByAddress := s.lastTemplateHeightByAddress.set coinbaseAddress blockTemplate.height }
  match templateTransactions P blockTemplate with
  | none => (s, none)
  | some (transactions, merkleBranch) =>
    let id := toHex s.latestJobTemplateId
    let jobTemplate : JobTemplate := {
      block := {
        version := blockTemplate.version
        prevHash := blockTemplate.previousblockhash.reverse
        timestamp := timestamp
        bits := blockTemplate.bits
        transactions := transactions
        witnessCommit := some (P.witnessMerkleRoot transactions) }
      merkleBranch := merkleBranch
      coinbaseRequiredOutputs := blockTemplate.coinbaseRequiredOutputs
      coinbaseScriptSigPrefix := blockTemplate.coinbaseScriptSigPrefix
      blockData := {
        id := id
        creation := nowMs
        coinbasevalue := blockTemplate.coinbasevalue
        networkDifficulty := calculateNetworkDifficulty blockTemplate.bits
        height := blockTemplate.height
        clearJobs := clearJobs }
      networkDifficulty_eq := rfl }
    let s := { s with latestJobTemplateId := s.latestJobTemplateId + 1 }.evict clearJobs nowMs
    ({ s with blocks := s.blocks.set id jobTemplate }, some jobTemplate)

def getJobTemplateById (s : JobsService P) (jobTemplateId : String) : Option JobTemplate :=
  s.blocks.get jobTemplateId

def addJob (s : JobsService P) (job : MiningJob P) : JobsService P :=
  { s with jobs := s.jobs.set job.jobId job, latestJobId := s.latestJobId + 1 }

def getJobById (s : JobsService P) (jobId : String) : Option (MiningJob P) := s.jobs.get jobId

def getNextId (s : JobsService P) : String := toHex s.latestJobId

/-! ## What a built template looks like, and what is left in the store -/

/-- What a template that was built is, and what is left in the store. -/
structure Built (s : JobsService P) (r : Reply) (s' : JobsService P) (t : JobTemplate) : Prop where
  id : t.blockData.id = toHex s.latestJobTemplateId
  version : t.block.version = r.blockTemplate.version
  prevHash : t.block.prevHash = r.blockTemplate.previousblockhash.reverse
  creation : t.blockData.creation = r.nowMs
  height : t.blockData.height = r.blockTemplate.height
  clearJobs : t.blockData.clearJobs = s.clearsJobs r.coinbaseAddress r.blockTemplate.height
  latestJobId : s'.latestJobId = s.latestJobId
  latestJobTemplateId : s'.latestJobTemplateId = s.latestJobTemplateId + 1
  jobs : s'.jobs = (s.evict t.blockData.clearJobs r.nowMs).jobs
  blocks : s'.blocks = (s.evict t.blockData.clearJobs r.nowMs).blocks.set t.blockData.id t

/-- A template that could not be built changes nothing but the height that is remembered. -/
structure Unbuilt (s s' : JobsService P) : Prop where
  latestJobId : s'.latestJobId = s.latestJobId
  latestJobTemplateId : s'.latestJobTemplateId = s.latestJobTemplateId
  jobs : s'.jobs = s.jobs
  blocks : s'.blocks = s.blocks

theorem buildTemplateFor_cases (s : JobsService P) (r : Reply) :
    ((s.buildTemplateFor r.coinbaseAddress r.blockTemplate r.nowMs).2 = none ∧
      s.Unbuilt (s.buildTemplateFor r.coinbaseAddress r.blockTemplate r.nowMs).1) ∨
    ∃ t, (s.buildTemplateFor r.coinbaseAddress r.blockTemplate r.nowMs).2 = some t ∧
      s.Built r (s.buildTemplateFor r.coinbaseAddress r.blockTemplate r.nowMs).1 t := by
  unfold buildTemplateFor
  dsimp only
  split
  · exact .inl ⟨rfl, rfl, rfl, rfl, rfl⟩
  · refine .inr ⟨_, rfl, rfl, rfl, rfl, rfl, rfl, rfl, ?_, ?_, ?_, ?_⟩
    all_goals
      unfold evict
      cases s.clearsJobs r.coinbaseAddress r.blockTemplate.height <;> rfl

/-- Either way the height of the reply is remembered. -/
theorem lastTemplateHeightByAddress_buildTemplateFor (s : JobsService P) (coinbaseAddress : String)
    (blockTemplate : BlockTemplate) (nowMs : ℤ) :
    (s.buildTemplateFor coinbaseAddress blockTemplate nowMs).1.lastTemplateHeightByAddress =
      s.lastTemplateHeightByAddress.set coinbaseAddress blockTemplate.height := by
  unfold buildTemplateFor
  dsimp only
  split
  · rfl
  · unfold evict
    cases s.clearsJobs coinbaseAddress blockTemplate.height <;> rfl

section
variable {s : JobsService P} {coinbaseAddress : String} {blockTemplate : BlockTemplate} {nowMs : ℤ} {t : JobTemplate}

theorem built_of_eq_some {r : Reply}
    (found : (s.buildTemplateFor r.coinbaseAddress r.blockTemplate r.nowMs).2 = some t) :
    s.Built r (s.buildTemplateFor r.coinbaseAddress r.blockTemplate r.nowMs).1 t := by
  obtain ⟨failed, -⟩ | ⟨t', found', built⟩ := s.buildTemplateFor_cases r
  · rw [failed] at found
    cases found
  · rw [found'] at found
    cases found
    exact built

theorem height_buildTemplateFor (found : (s.buildTemplateFor coinbaseAddress blockTemplate nowMs).2 = some t) :
    t.blockData.height = blockTemplate.height :=
  (built_of_eq_some (r := ⟨coinbaseAddress, blockTemplate, nowMs⟩) found).height

theorem clearJobs_buildTemplateFor (found : (s.buildTemplateFor coinbaseAddress blockTemplate nowMs).2 = some t) :
    t.blockData.clearJobs = s.clearsJobs coinbaseAddress blockTemplate.height :=
  (built_of_eq_some (r := ⟨coinbaseAddress, blockTemplate, nowMs⟩) found).clearJobs

theorem jobs_evict_sublist (clearJobs : Bool) (now : ℤ) : (s.evict clearJobs now).jobs.Sublist s.jobs := by
  unfold evict
  split
  · exact List.nil_sublist _
  · exact List.filter_sublist

theorem blocks_evict_sublist (clearJobs : Bool) (now : ℤ) : (s.evict clearJobs now).blocks.Sublist s.blocks := by
  unfold evict
  split
  · exact List.nil_sublist _
  · exact List.filter_sublist

/-- Building a template adds no job, and counts none. -/
theorem jobs_buildTemplateFor (s : JobsService P) (coinbaseAddress : String) (blockTemplate : BlockTemplate)
    (nowMs : ℤ) :
    (s.buildTemplateFor coinbaseAddress blockTemplate nowMs).1.jobs ⊆ s.jobs ∧
      (s.buildTemplateFor coinbaseAddress blockTemplate nowMs).1.latestJobId = s.latestJobId := by
  obtain ⟨-, unbuilt⟩ | ⟨t, -, built⟩ := s.buildTemplateFor_cases ⟨coinbaseAddress, blockTemplate, nowMs⟩
  · exact ⟨fun e member => unbuilt.jobs ▸ member, unbuilt.latestJobId⟩
  · refine ⟨?_, built.latestJobId⟩
    rw [built.jobs]
    exact (jobs_evict_sublist ..).subset

/-- A template that clears the jobs leaves none. -/
theorem jobs_eq_nil_of_clearJobs (found : (s.buildTemplateFor coinbaseAddress blockTemplate nowMs).2 = some t)
    (clears : t.blockData.clearJobs = true) :
    (s.buildTemplateFor coinbaseAddress blockTemplate nowMs).1.jobs = [] := by
  rw [(built_of_eq_some (r := ⟨coinbaseAddress, blockTemplate, nowMs⟩) found).jobs, clears]
  rfl

/-- An id that was given to a job before. -/
def Given (s : JobsService P) (jobId : String) : Prop := ∃ n < s.latestJobId, jobId = toHex n

/-- Every job of the store has an id that was given. -/
def Numbered (s : JobsService P) : Prop := ∀ e ∈ s.jobs, s.Given e.1

theorem not_given_getNextId : ¬ s.Given s.getNextId := by
  rintro ⟨n, below, same⟩
  have := toHex_injective same
  omega

theorem Given.mono {s' : JobsService P} {jobId : String} (given : s.Given jobId)
    (counts : s.latestJobId ≤ s'.latestJobId) : s'.Given jobId := by
  obtain ⟨n, below, same⟩ := given
  exact ⟨n, by omega, same⟩

/-- What is in the store after a job was added. -/
theorem mem_jobs_addJob {job : MiningJob P} {e : String × MiningJob P} (member : e ∈ (s.addJob job).jobs) :
    e ∈ s.jobs ∨ e = (job.jobId, job) := by
  obtain old | ⟨-, -, new⟩ := OrderedMap.mem_setWith member
  · exact .inl old
  · exact .inr new

theorem mem_of_getJobById {jobId : String} {job : MiningJob P} (found : s.getJobById jobId = some job) :
    (jobId, job) ∈ s.jobs :=
  OrderedMap.mem_of_get found

end

end JobsService

end ElektronPool.Stratum
