import ElektronPool.Stratum.Dispatch
import ElektronPool.Stratum.Duplicates
import ElektronPool.Stratum.Regtest

/-!
# The header a miner assembles

A miner puts its header together from the texts of a `mining.notify`; the pool checks the
header it makes of the stored job and of the template found by the job's id, which is not the
copy the message was made from. The two headers are the same bytes: a job and its template id
are frozen in the store, and whatever carries a template id, here or in a session, has the
previous block hash and the bits that were built under it (`Filed`).
-/

namespace ElektronPool.Stratum
set_option autoImplicit false
open Js Bitcoin Async

/-! ## The miner's side -/

namespace Notify

/-- The 32-bit word that hex digits denote. -/
def wordOfHex (text : String) : BitVec 32 := BitVec.ofNat 32 (digitsValue 16 text.toList)

/-- The Merkle root of the coinbase in the message. -/
def merkleRoot (n : Notify) (hash256 : Buffer → Hash) : Hash :=
  n.merkleBranch.foldl (fun root branch => hash256 (root.bytes ++ branch.bytes))
    (hash256 (n.coinbasePart1 ++ n.coinbasePart2))

/-- The header a Stratum client hashes. -/
def assembledHeader (n : Notify) (hash256 : Buffer → Hash) (ntime nonce versionBits : BitVec 32) : Buffer :=
  wordBytes (wordOfHex n.version ^^^ versionBits) ++ MiningJob.swapEndianWords n.prevHash ++
    (n.merkleRoot hash256).bytes ++ wordBytes ntime ++ wordBytes (wordOfHex n.bits) ++ wordBytes nonce

theorem wordOfHex_toHex (word : BitVec 32) : wordOfHex (toHex word.toNat) = word := by
  rw [wordOfHex, toHex, String.toList_ofList, (digitsValue_toDigits word.toNat).1, BitVec.ofNat_toNat,
    BitVec.setWidth_eq]

end Notify

/-- Swapping the words twice changes nothing. -/
theorem MiningJob.swapEndianWords_swapEndianWords (bytes : Buffer) :
    swapEndianWords (swapEndianWords bytes) = bytes := by
  fun_induction swapEndianWords bytes with
  | case1 a b c d rest ih => rw [swapEndianWords, ih]
  | case2 rest short =>
    unfold swapEndianWords
    split
    · rename_i a b c d rest
      exact absurd rfl (short a b c d rest)
    · rfl

/-- A version below `2^31` fits the field whatever bits are rolled. -/
theorem MiningJob.writeInt32LE_maskedVersion {jobVersion : BitVec 32} (small : jobVersion.toNat < 2 ^ 31)
    (versionBits : BitVec 32) :
    writeInt32LE (maskedVersion jobVersion (.fin versionBits.toNat)) = some (jobVersion ^^^ versionBits) := by
  unfold maskedVersion writeInt32LE
  split
  · rename_i none
    have zero : versionBits = 0 := by
      apply BitVec.eq_of_toNat_eq
      have value : (versionBits.toNat : ℚ) = 0 := Number.fin.inj none
      exact_mod_cast value
    have below : (jobVersion.toNat : ℚ) ≤ 2147483647 := by exact_mod_cast (by omega : jobVersion.toNat ≤ 2147483647)
    have above : (-2147483648 : ℚ) ≤ jobVersion.toNat := le_trans (by norm_num) (Nat.cast_nonneg _)
    rw [writtenWord, if_pos ⟨above, below⟩, Number.toInt32_natCast, BitVec.ofNat_toNat, BitVec.setWidth_eq, zero]
    exact congrArg some BitVec.xor_zero.symm
  · rw [Number.toInt32_natCast, BitVec.ofNat_toNat, BitVec.setWidth_eq]
    generalize jobVersion ^^^ versionBits = word
    have range := word.toInt_lt
    have range' := word.le_toInt
    have below : (word.toInt : ℚ) ≤ 2147483647 := by exact_mod_cast (by omega : word.toInt ≤ 2147483647)
    have above : (-2147483648 : ℚ) ≤ word.toInt := by exact_mod_cast (by omega : (-2147483648 : ℤ) ≤ word.toInt)
    rw [writtenWord, if_pos ⟨above, below⟩, Number.toInt32_intCast, BitVec.ofInt_toInt]

/-- The version of a job keeps the sign bit of its template's. -/
theorem toNat_jobVersion_lt {version : BitVec 32} (small : version.toNat < 2 ^ 31) (counter : ℕ) :
    (jobVersion version counter).toNat < 2 ^ 31 := by
  have unsigned : version.msb = false := by
    rw [BitVec.msb_eq_decide]
    exact decide_eq_false (by omega)
  have same : (jobVersion version counter).msb = false := by
    simp only [jobVersion, BitVec.msb_or, BitVec.msb_and, unsigned, show elektronPoolVersionBitsMask.msb = false from rfl,
      Bool.false_and, Bool.and_false, Bool.or_false]
  rw [BitVec.msb_eq_decide] at same
  have := of_decide_eq_false same
  omega

/-! ## What is on file -/

/-- What a header takes from the template that the node has sent. -/
def JobTemplate.tip (t : JobTemplate) : Hash × BitVec 32 := (t.block.prevHash, t.block.bits)

section
variable {P : Packages}

/-- An id that was given to a template before. -/
def JobsService.GivenTemplate (service : JobsService P) (id : String) : Prop :=
  ∃ n < service.latestJobTemplateId, id = toHex n

theorem JobsService.GivenTemplate.mono {service service' : JobsService P} {id : String}
    (given : service.GivenTemplate id) (counts : service.latestJobTemplateId ≤ service'.latestJobTemplateId) :
    service'.GivenTemplate id := by
  obtain ⟨n, below, same⟩ := given
  exact ⟨n, by omega, same⟩

theorem JobsService.GivenTemplate.ne_next {service : JobsService P} {id : String} (given : service.GivenTemplate id) :
    id ≠ toHex service.latestJobTemplateId := by
  obtain ⟨n, below, rfl⟩ := given
  intro same
  have := toHex_injective same
  omega

/-- A template with an id that was given, and with what was built under this id. -/
structure OnFile (service : JobsService P) (tips : String → Hash × BitVec 32) (t : JobTemplate) : Prop where
  given : service.GivenTemplate t.blockData.id
  tip : t.tip = tips t.blockData.id
  version : t.block.version.toNat < 2 ^ 31

/-- A message says of a job what its header is made of. -/
structure Notify.Describes (n : Notify) (job : MiningJob P) (tip : Hash × BitVec 32) : Prop where
  coinbasePart1 : n.coinbasePart1 = job.coinbasePart1
  coinbasePart2 : n.coinbasePart2 = job.coinbasePart2
  merkleBranch : n.merkleBranch = job.merkleBranch
  version : n.version = toHex job.jobVersion.toNat
  prevHash : n.prevHash = MiningJob.swapEndianWords tip.1.bytes
  bits : n.bits = toHex tip.2.toNat

/-- Everything in the store, in the sessions and in the messages belongs to one file: `tips` has
what was built under each template id. -/
structure Filed (s : World P) (tips : String → Hash × BitVec 32) : Prop where
  numbered : s.service.Numbered
  keys : (s.service.jobs.map Prod.fst).Nodup
  jobs : ∀ e ∈ s.service.jobs, s.service.GivenTemplate e.2.jobTemplateId ∧ e.2.jobVersion.toNat < 2 ^ 31
  blocks : ∀ e ∈ s.service.blocks, s.service.GivenTemplate e.1 ∧ e.2.tip = tips e.1
  sessions : ∀ t, s.Current t → OnFile s.service tips t
  notifies : ∀ n ∈ s.notifies, s.service.Given n.jobId ∧
    ∀ job, (n.jobId, job) ∈ s.service.jobs → n.Describes job (tips job.jobTemplateId)

theorem filed_empty (P : Packages) : Filed (P := P) .empty fun _ => (.zero, 0) where
  numbered := nofun
  keys := List.nodup_nil
  jobs := nofun
  blocks := nofun
  sessions := by
    rintro t ⟨c, member, -⟩
    cases member
  notifies := nofun

/-! ## A reply of the node -/

section
variable {s s' : World P} {tips : String → Hash × BitVec 32} {r : Option Reply} {d : Dispatch}

/-- The template ids count up, and fewer jobs are left. -/
theorem Filed.drop {service : JobsService P} (filed : Filed s tips) (latestJobId : service.latestJobId = s.service.latestJobId)
    (counts : s.service.latestJobTemplateId ≤ service.latestJobTemplateId) (jobs : service.jobs.Sublist s.service.jobs)
    (tips' : String → Hash × BitVec 32) (agrees : ∀ id, s.service.GivenTemplate id → tips' id = tips id)
    (blocks : ∀ e ∈ service.blocks, service.GivenTemplate e.1 ∧ e.2.tip = tips' e.1) :
    Filed { s with service := service } tips' where
  numbered e member := (filed.numbered e (jobs.subset member)).mono latestJobId.ge
  keys := (jobs.map Prod.fst).nodup filed.keys
  jobs e member := ⟨(filed.jobs e (jobs.subset member)).1.mono counts, (filed.jobs e (jobs.subset member)).2⟩
  blocks := blocks
  sessions t current := by
    have here := filed.sessions t current
    exact ⟨here.given.mono counts, here.tip.trans (agrees _ here.given).symm, here.version⟩
  notifies n member := by
    obtain ⟨given, describes⟩ := filed.notifies n member
    refine ⟨given.mono latestJobId.ge, fun job stored => ?_⟩
    have old := jobs.subset stored
    rw [agrees _ (filed.jobs _ old).1]
    exact describes job old

/-- A template that is built is put on file under an id of its own. -/
theorem Filed.reply (filed : Filed s tips) (versions : ∀ x ∈ r, x.blockTemplate.version.toNat < 2 ^ 31) :
    ∃ tips', Filed { s with service := s.service.afterReply r } tips' ∧
      ∀ d : Dispatch, d.Origin s r → OnFile (s.service.afterReply r) tips' d.base := by
  cases r with
  | none =>
    refine ⟨tips, filed, fun d origin => ?_⟩
    cases origin with
    | current at_i current => exact filed.sessions _ ⟨_, List.mem_of_getElem? at_i, current⟩
  | some x =>
    obtain ⟨failed, unbuilt⟩ | ⟨t, found, built⟩ := s.service.buildTemplateFor_cases x
    · refine ⟨tips, filed.drop unbuilt.latestJobId unbuilt.latestJobTemplateId.ge ?_ tips (fun _ _ => rfl) ?_, ?_⟩
      · rw [unbuilt.jobs]
      · rw [unbuilt.blocks]
        exact fun e member => ⟨(filed.blocks e member).1.mono unbuilt.latestJobTemplateId.ge, (filed.blocks e member).2⟩
      · intro d origin
        cases origin with
        | built made =>
          rw [failed] at made
          cases made
    · have counts : s.service.latestJobTemplateId ≤ (s.service.afterReply (some x)).latestJobTemplateId := by
        rw [JobsService.afterReply, built.latestJobTemplateId]
        omega
      have given : (s.service.afterReply (some x)).GivenTemplate t.blockData.id := by
        refine ⟨s.service.latestJobTemplateId, ?_, built.id⟩
        rw [JobsService.afterReply, built.latestJobTemplateId]
        omega
      refine ⟨Function.update tips t.blockData.id t.tip, filed.drop built.latestJobId counts ?_ _ ?_ ?_, ?_⟩
      · rw [built.jobs]
        exact JobsService.jobs_evict_sublist ..
      · intro id old
        rw [built.id]
        exact Function.update_of_ne old.ne_next _ _
      · rw [built.blocks]
        intro e member
        obtain old | ⟨-, -, rfl⟩ := OrderedMap.mem_setWith member
        · obtain ⟨before, tip⟩ := filed.blocks e ((JobsService.blocks_evict_sublist ..).subset old)
          refine ⟨before.mono counts, ?_⟩
          rw [built.id, Function.update_of_ne before.ne_next, tip]
        · exact ⟨given, (Function.update_self t.blockData.id t.tip tips).symm⟩
      · intro d origin
        cases origin with
        | built made =>
          rw [found] at made
          cases made
          refine ⟨given, (Function.update_self d.base.blockData.id d.base.tip tips).symm, ?_⟩
          rw [built.version]
          exact versions x rfl

/-! ## Every step -/

variable {config : StratumConfig} {t : Call P} {a : Answer} {q : World P × Call P}

/-- The job of a message that is sent is described by it. -/
theorem describes_of_newJob {service : JobsService P} {c : Client} {base template : JobTemplate} {nowMs : ℤ}
    {job : MiningJob P} (made : Client.newJob P config service (c.versioned template) nowMs = some job)
    (copy : ∃ timestamp clearJobs, template = base.retimed timestamp clearJobs) :
    job.jobTemplateId = base.blockData.id ∧ job.jobVersion = jobVersion base.block.version (c.counterFor template) ∧
      (job.response (c.versioned template)).Describes job base.tip := by
  obtain ⟨address, -, rest⟩ := Option.bind_eq_some_iff.mp made
  obtain ⟨network, -, built⟩ := Option.bind_eq_some_iff.mp rest
  obtain ⟨-, templateId, version, -, branch⟩ := MiningJob.new_eq_some built
  obtain ⟨timestamp, clearJobs, rfl⟩ := copy
  exact ⟨templateId, version, rfl, rfl, branch.symm, rfl, rfl, rfl⟩

theorem Filed.work (filed : Filed s tips) (versions : ∀ x ∈ t.reply a, x.blockTemplate.version.toNat < 2 ^ 31)
    (work : Call.Work config s t a q) : ∃ tips', Filed q.1 tips' := by
  obtain ⟨tips', after, onFile⟩ := filed.reply versions
  refine ⟨tips', ?_⟩
  have sessions : ∀ template, q.1.Current template → OnFile (s.service.afterReply (t.reply a)) tips' template := by
    intro template current
    obtain old | ⟨d, dispatched, rfl⟩ := current_of_work work current
    · exact after.sessions template old
    · exact onFile d (Call.copies_of_dispatch dispatched).origin
  cases outcome_of_work work with
  | unsent service notifies =>
    refine ⟨?_, ?_, ?_, ?_, ?_, ?_⟩
    all_goals rw [service]
    · exact after.numbered
    · exact after.keys
    · exact after.jobs
    · exact after.blocks
    · exact sessions
    · rw [notifies]
      exact after.notifies
  | @sent d job dispatched isOpen made service notifies =>
    have copies := Call.copies_of_dispatch dispatched
    obtain ⟨templateId, version, describes⟩ := describes_of_newJob made copies.template
    have base := onFile d copies.origin
    have fresh : ¬ (s.service.afterReply (t.reply a)).Given job.jobId :=
      jobId_of_newJob made ▸ JobsService.not_given_getNextId
    have given : ((s.service.afterReply (t.reply a)).addJob job).Given job.jobId :=
      ⟨_, Nat.lt_succ_self _, jobId_of_newJob made⟩
    refine ⟨?_, ?_, ?_, ?_, ?_, ?_⟩
    all_goals rw [service]
    · intro e member
      obtain old | rfl := JobsService.mem_jobs_addJob member
      · exact (after.numbered e old).mono (Nat.le_succ _)
      · exact given
    · exact OrderedMap.nodup_keys_setWith after.keys
    · intro e member
      obtain old | rfl := JobsService.mem_jobs_addJob member
      · exact after.jobs e old
      · constructor
        · rw [templateId]
          exact base.given
        · rw [version]
          exact toNat_jobVersion_lt base.version _
    · exact after.blocks
    · exact fun template current => ⟨(sessions template current).given, (sessions template current).tip,
        (sessions template current).version⟩
    · intro n member
      obtain rfl | old := List.mem_cons.mp (notifies.mem_iff.mp member)
      · refine ⟨given, fun job' stored => ?_⟩
        obtain old | same := JobsService.mem_jobs_addJob stored
        · exact absurd (after.numbered _ old) fresh
        · cases same
          rw [templateId, ← base.tip]
          exact describes
      · obtain ⟨before, described⟩ := after.notifies n old
        refine ⟨before.mono (Nat.le_succ _), fun job' stored => ?_⟩
        obtain old | same := JobsService.mem_jobs_addJob stored
        · exact described job' old
        · exact absurd ((Prod.mk.inj same).1 ▸ before) fresh

/-- The node's templates have versions that are not negative as 32-bit numbers. -/
def NodeVersions (p : Server P) (e : Event (Call P) Answer) : Prop :=
  Pool.Allowed (fun _ _ => True) (fun _ _ t a => ∀ r ∈ t.reply a, r.blockTemplate.version.toNat < 2 ^ 31) p e

instance (p : Server P) (e : Event (Call P) Answer) : Decidable (NodeVersions p e) :=
  inferInstanceAs (Decidable (Pool.Allowed (fun _ _ => True)
    (fun _ _ t a => ∀ r ∈ t.reply a, r.blockTemplate.version.toNat < 2 ^ 31) p e))

theorem filed_step {p p' : Server P} {e : Event (Call P) Answer} (filed : Filed p.shared tips) (versions : NodeVersions p e)
    (moved : Server.step config p e = some p') : ∃ tips', Filed p'.shared tips' := by
  obtain ⟨call, rfl, start, rfl⟩ | ⟨before, call, after, a, s', call', rfl, calls, resumed, rfl⟩ :=
    Pool.step_cases moved
  · exact ⟨tips, filed⟩
  · exact filed.work (versions.continues calls) (Call.work_of_resume resumed)

theorem filed_run {p : Server P} (run : Reaches (Server.step config) NodeVersions (.initial P) p) :
    ∃ tips, Filed p.shared tips := by
  apply run.invariant
  · exact ⟨_, filed_empty P⟩
  · rintro p e p' ⟨tips, filed⟩ versions moved
    exact filed_step filed versions moved

/-- A step adds no job under an id that was given before. -/
theorem jobs_of_work (work : Call.Work config s t a q) : s.service.latestJobId ≤ q.1.service.latestJobId ∧
    ∀ e ∈ q.1.service.jobs, s.service.Given e.1 → e ∈ s.service.jobs := by
  obtain ⟨jobs, latest⟩ : (s.service.afterReply (t.reply a)).jobs ⊆ s.service.jobs ∧
      (s.service.afterReply (t.reply a)).latestJobId = s.service.latestJobId := by
    cases t.reply a with
    | none => exact ⟨List.Subset.refl _, rfl⟩
    | some r => exact JobsService.jobs_buildTemplateFor ..
  cases outcome_of_work work with
  | unsent service notifies =>
    rw [service]
    exact ⟨latest.ge, fun e member _ => jobs member⟩
  | @sent d job dispatched isOpen made service notifies =>
    rw [service]
    refine ⟨latest.symm.le.trans (Nat.le_succ _), fun e member given => ?_⟩
    obtain old | rfl := JobsService.mem_jobs_addJob member
    · exact jobs old
    · have fresh : ¬ (s.service.afterReply (t.reply a)).Given job.jobId :=
        jobId_of_newJob made ▸ JobsService.not_given_getNextId
      exact absurd (given.mono latest.ge) fresh

theorem jobs_step {p p' : Server P} {e : Event (Call P) Answer} (moved : Server.step config p e = some p') :
    p.shared.service.latestJobId ≤ p'.shared.service.latestJobId ∧
      ∀ e ∈ p'.shared.service.jobs, p.shared.service.Given e.1 → e ∈ p.shared.service.jobs := by
  obtain ⟨call, rfl, start, rfl⟩ | ⟨before, call, after, a, s', call', rfl, calls, resumed, rfl⟩ :=
    Pool.step_cases moved
  · exact ⟨Nat.le_refl _, fun e member _ => member⟩
  · exact jobs_of_work (Call.work_of_resume resumed)

/-- From a state on, a job id that was given only ever denotes the job it denotes there. -/
theorem getJobById_eq_of_reaches {p p' : Server P} {ok : Server P → Event (Call P) Answer → Prop} {jobId : String}
    {job job' : MiningJob P} (filed : Filed p.shared tips) (run : Reaches (Server.step config) ok p p')
    (found : p.shared.service.getJobById jobId = some job) (later : p'.shared.service.getJobById jobId = some job') :
    job' = job := by
  have stored := JobsService.mem_of_getJobById found
  have kept : p'.shared.service.Given jobId ∧ ∀ e ∈ p'.shared.service.jobs, e.1 = jobId → e ∈ p.shared.service.jobs := by
    apply run.invariant
    · exact ⟨filed.numbered _ stored, fun _ member _ => member⟩
    · rintro q e q' ⟨given, old⟩ - moved
      obtain ⟨counts, jobs⟩ := jobs_step moved
      refine ⟨given.mono counts, fun e member same => ?_⟩
      exact old e (jobs e member (same ▸ given)) same
  have same := OrderedMap.get_of_mem filed.keys (kept.2 _ (JobsService.mem_of_getJobById later) rfl)
  exact Option.some.inj (same.symm.trans found)

end

end

/-- **The pool checks the header the miner has assembled**: for each message that was sent, in
whatever state of the run a submission for its job is looked up, the header made from the
store is the one made from the message, byte for byte. The id never comes to denote another
job. -/
theorem buildHeaderBuffer_eq_assembledHeader {P : Packages} {config : StratumConfig} {p : Server P}
    (run : Reaches (Server.step config) NodeVersions (.initial P) p) {n : Notify} (sent : n ∈ p.shared.notifies)
    {job : MiningJob P} {t : JobTemplate} (found : p.shared.service.getJobById n.jobId = some job)
    (foundTemplate : p.shared.service.getJobTemplateById job.jobTemplateId = some t) {m : MiningSubmitMessage}
    {ntime nonce versionBits : BitVec 32} (versionMask : m.versionMaskNumber = .fin versionBits.toNat)
    (nonceText : m.nonceNumber = .fin nonce.toNat) (ntimeText : m.timestampNumber = .fin ntime.toNat) :
    job.buildHeaderBuffer t m.versionMaskNumber m.nonceNumber m.timestampNumber =
      some (n.assembledHeader P.hash256 ntime nonce versionBits) ∧
    ∀ p' : Server P, Reaches (Server.step config) Always p p' → ∀ job' : MiningJob P,
      p'.shared.service.getJobById n.jobId = some job' → job' = job := by
  obtain ⟨tips, filed⟩ := filed_run run
  refine ⟨?_, fun p' later job' found' => getJobById_eq_of_reaches filed later found found'⟩
  have stored := JobsService.mem_of_getJobById found
  have describes := (filed.notifies n sent).2 job stored
  have tip : t.tip = tips job.jobTemplateId := (filed.blocks _ (OrderedMap.mem_of_get foundTemplate)).2
  have small := (filed.jobs _ stored).2
  rw [← tip] at describes
  have version : Notify.wordOfHex n.version = job.jobVersion := by rw [describes.version, Notify.wordOfHex_toHex]
  have bits : Notify.wordOfHex n.bits = t.block.bits := by
    rw [describes.bits]
    exact Notify.wordOfHex_toHex _
  have prevHash : MiningJob.swapEndianWords n.prevHash = t.block.prevHash.bytes := by
    rw [describes.prevHash]
    exact MiningJob.swapEndianWords_swapEndianWords _
  have root : n.merkleRoot P.hash256 = job.merkleRoot := by
    rw [Notify.merkleRoot, describes.merkleBranch, describes.coinbasePart1, describes.coinbasePart2]
    rfl
  rw [MiningJob.buildHeaderBuffer, header, versionMask, nonceText, ntimeText,
    MiningJob.writeInt32LE_maskedVersion small, writeUInt32LE_toNat, writeUInt32LE_toNat, writeUInt32LE_toNat,
    Notify.assembledHeader, version, bits, prevHash, root]
  rfl

/-- A submission that rolls a version bit. -/
def Regtest.rolled : MiningSubmitMessage := { submission "00000004" with jobId := "2", versionMask := "20000" }

/-- A session is sent a job and then, with another difficulty, a second one. -/
theorem buildHeaderBuffer_eq_assembledHeader_rolled : ∃ (n : Notify) (job : MiningJob Regtest.packages) (t : JobTemplate),
    n.jobId = "2" ∧ job.buildHeaderBuffer t Regtest.rolled.versionMaskNumber Regtest.rolled.nonceNumber
      Regtest.rolled.timestampNumber = some (n.assembledHeader Regtest.packages.hash256 0x6553f100 4 0x20000) := by
  obtain ⟨p, run, n, sent, second, job, found, t, foundTemplate, -⟩ := exists_reaches (Server.step Regtest.config) NodeVersions
    (.initial Regtest.packages)
    (Regtest.mining (.fin 1) ++ [.start (.checkDifficulty 0), .resume 4 (.suggests (some (.fin 2)) 1700000001000)])
    (fun p => ∃ n ∈ p.shared.notifies, n.jobId = "2" ∧ ∃ job ∈ p.shared.service.getJobById n.jobId,
      ∃ t ∈ p.shared.service.getJobTemplateById job.jobTemplateId, t.blockData.height = 101) (by decide +kernel)
  have versionMask : Regtest.rolled.versionMaskNumber = .fin ((0x20000 : BitVec 32).toNat) := by decide +kernel
  have nonce : Regtest.rolled.nonceNumber = .fin ((4 : BitVec 32).toNat) := by decide +kernel
  have ntime : Regtest.rolled.timestampNumber = .fin ((0x6553f100 : BitVec 32).toNat) := by decide +kernel
  exact ⟨n, job, t, second,
    (buildHeaderBuffer_eq_assembledHeader run sent found foundTemplate versionMask nonce ntime).1⟩

end ElektronPool.Stratum
