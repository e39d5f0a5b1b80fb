import ElektronPool.Stratum.JobsService

/-!
# StratumV1Client

The state of one session and the synchronous parts of its handlers. `notified` lists the
`mining.notify` messages written to the socket, in order.
-/

namespace ElektronPool.Stratum
set_option autoImplicit false
open Js Bitcoin

/-- The settings the sessions read. A bot is there or not. -/
structure StratumConfig where
  poolWalletAddress : Option String
  network : Option String
  discordBot : Bool
  telegramBot : Bool

namespace StratumConfig

/-- `getPoolWalletAddress`; it throws on a missing or empty address. -/
def getPoolWalletAddress (config : StratumConfig) : Option String := config.poolWalletAddress.filter (· ≠ "")

/-- The network `NETWORK` names. -/
def networkOf (config : StratumConfig) : Option Network :=
  match config.network with
  | some "mainnet" => some .elektronMainnet
  | some "regtest" => some .elektronRegtest
  | some "bitcoin-mainnet" => some .bitcoin
  | some "bitcoin-testnet" => some .testnet
  | some "bitcoin-regtest" => some .regtest
  | _ => none

end StratumConfig

/-- What `AuthorizationMessage` keeps of a worker name. -/
structure Authorization where
  address : String
  worker : String
  deriving DecidableEq

structure ClientEntity where
  bestDifficulty : Number
  updatedAt : Option ℤ
  deriving DecidableEq

structure Client where
  extraNonceAndSessionId : String
  clientAuthorization : Option Authorization
  sessionDifficulty : Number
  connectionClosed : Bool
  lastSentMiningJobTimestamp : Option ℤ
  elektronPoolVersionCounter : ℕ
  currentJobTemplate : Option JobTemplate
  lastLocalWorkSentAt : ℤ
  miningSubmissionHashes : List String
  entity : Option ClientEntity
  notified : List Notify

namespace JobTemplate

/-- The template with another version in its block. -/
def withVersion (t : JobTemplate) (version : BitVec 32) : JobTemplate :=
  { t with block := { t.block with version := version }, networkDifficulty_eq := t.networkDifficulty_eq }

/-- The template at another time and with another flag. -/
def retimed (t : JobTemplate) (timestamp : ℤ) (clearJobs : Bool) : JobTemplate :=
  { t with
    block := { t.block with timestamp := timestamp }
    blockData := { t.blockData with clearJobs := clearJobs }
    networkDifficulty_eq := t.networkDifficulty_eq }

end JobTemplate

/-- `ELEKTRON_POOL_VERSION_BITS_MASK`. -/
def elektronPoolVersionBitsMask : BitVec 32 := 0x0001e000

/-- The version of the next job: the pool's four bits count the jobs. -/
def jobVersion (version : BitVec 32) (counter : ℕ) : BitVec 32 :=
  let rotationState := BitVec.ofNat 32 (counter % 16)
  let poolVersionBits := rotationState <<< 13
  (version &&& ~~~elektronPoolVersionBitsMask) ||| (poolVersionBits &&& elektronPoolVersionBitsMask)

/-- How `sendNewMiningJob` gets to its write. -/
inductive Sending where
  | closed
  | threw
  | writing (timestamp : ℤ)
  deriving DecidableEq

namespace Client

/-- The session once `initStratum` has run. -/
def new (sessionId : String) : Client where
  extraNonceAndSessionId := sessionId
  clientAuthorization := none
  sessionDifficulty := .fin 100000
  connectionClosed := false
  lastSentMiningJobTimestamp := none
  elektronPoolVersionCounter := 0
  currentJobTemplate := none
  lastLocalWorkSentAt := 0
  miningSubmissionHashes := []
  entity := none
  notified := []

/-- `destroy`. -/
def destroy (c : Client) : Client := { c with connectionClosed := true, currentJobTemplate := none }

/-- `socket.end()`, where the handler does that on an error. -/
def endSocket (c : Client) (ends : Bool) : Client := { c with connectionClosed := c.connectionClosed || ends }

/-- The address of the session, if it has one. -/
def address (c : Client) : Option String := (c.clientAuthorization.map (·.address)).filter (· ≠ "")

section
variable (P : Packages) (config : StratumConfig)

/-- The job `sendNewMiningJob` makes. Its one payout is the pool wallet. -/
def newJob (service : JobsService P) (t : JobTemplate) (nowMs : ℤ) : Option (MiningJob P) := do
  let address ← config.getPoolWalletAddress
  let network ← config.networkOf
  MiningJob.new P network service.getNextId [⟨address, 100⟩] t nowMs

/-- The version counter starts again with a template that clears the jobs. -/
def counterFor (c : Client) (t : JobTemplate) : ℕ :=
  if t.blockData.clearJobs then 0 else c.elektronPoolVersionCounter

/-- `versionedJobTemplate`. -/
def versioned (c : Client) (t : JobTemplate) : JobTemplate :=
  t.withVersion (jobVersion t.block.version (c.counterFor t))

/-- `sendNewMiningJob` up to the write of the message. The counter moves on even if no job can be
made. -/
def sendNewMiningJob (service : JobsService P) (c : Client) (t : JobTemplate) (nowMs : ℤ) :
    JobsService P × Client × Sending :=
  if c.connectionClosed then (service, c, .closed)
  else
    let counted := { c with elektronPoolVersionCounter := c.counterFor t + 1 }
    match newJob P config service (c.versioned t) nowMs with
    | none => (service, counted, .threw)
    | some job =>
      (service.addJob job, { counted with notified := c.notified ++ [job.response (c.versioned t)] },
        .writing t.block.timestamp)

/-- A session sends nothing, or the job it has made. -/
theorem sendNewMiningJob_cases (service : JobsService P) (c : Client) (t : JobTemplate) (nowMs : ℤ) :
    (c.connectionClosed = true ∧ sendNewMiningJob P config service c t nowMs = (service, c, .closed)) ∨
    (newJob P config service (c.versioned t) nowMs = none ∧ sendNewMiningJob P config service c t nowMs =
      (service, { c with elektronPoolVersionCounter := c.counterFor t + 1 }, .threw)) ∨
    ∃ job, c.connectionClosed = false ∧ newJob P config service (c.versioned t) nowMs = some job ∧
      sendNewMiningJob P config service c t nowMs = (service.addJob job, { c with
        elektronPoolVersionCounter := c.counterFor t + 1
        notified := c.notified ++ [job.response (c.versioned t)] }, .writing t.block.timestamp) := by
  cases closed : c.connectionClosed with
  | true => exact .inl ⟨rfl, by simp [sendNewMiningJob, closed]⟩
  | false =>
    cases made : newJob P config service (c.versioned t) nowMs with
    | none => exact .inr (.inl ⟨rfl, by simp [sendNewMiningJob, closed, made]⟩)
    | some job => exact .inr (.inr ⟨job, rfl, rfl, by simp [sendNewMiningJob, closed, made]⟩)

end

/-- What follows a `mining.notify` that was written. -/
def notifyWritten (c : Client) (timestamp nowMs : ℤ) : Client :=
  { c with lastSentMiningJobTimestamp := some timestamp, lastLocalWorkSentAt := nowMs }

/-- `refreshMiningJob` takes over a template that was built. -/
def adoptTemplate (c : Client) (t : JobTemplate) : Client :=
  { c with
    miningSubmissionHashes := if t.blockData.clearJobs then [] else c.miningSubmissionHashes
    currentJobTemplate := some t }

/-- The template `refreshLocalMiningWork` sends, unless it is too early or there is none. -/
def localTemplate (c : Client) (nowMs : ℤ) : Option JobTemplate :=
  if nowMs - c.lastLocalWorkSentAt < 350 then none
  else c.currentJobTemplate.map fun t => t.retimed (max t.block.timestamp (nowMs / 1000)) false

/-- The template `checkDifficulty` sends: always as a new one. -/
def difficultyTemplate (c : Client) (t : JobTemplate) (nowMs : ℤ) : JobTemplate :=
  t.retimed (max (max t.block.timestamp (nowMs / 1000)) (c.lastSentMiningJobTimestamp.getD 0 + 1)) true

end Client

/-! ## Submissions -/

/-- `mining.submit` after validation. A missing version mask reads as the text 0. -/
structure MiningSubmitMessage where
  userId : String
  jobId : String
  extraNonce2 : String
  ntime : String
  nonce : String
  versionMask : String
  deriving DecidableEq

namespace MiningSubmitMessage

/-- The key of the duplicate check. -/
def submissionHash (m : MiningSubmitMessage) : String :=
  ":".intercalate [m.jobId, m.extraNonce2, m.ntime, m.nonce, m.versionMask]

def versionMaskNumber (m : MiningSubmitMessage) : Number := parseInt 16 m.versionMask

def nonceNumber (m : MiningSubmitMessage) : Number := parseInt 16 m.nonce

def timestampNumber (m : MiningSubmitMessage) : Number := parseInt 16 m.ntime

end MiningSubmitMessage

inductive StratumErrorCode where
  | jobNotFound
  | duplicateShare
  | lowDifficultyShare
  deriving DecidableEq

/-- A share that was accepted: what the rest of `handleMiningSubmission` works with. -/
structure Share (P : Packages) where
  client : ℕ
  submission : MiningSubmitMessage
  job : MiningJob P
  jobTemplate : JobTemplate
  header : Buffer
  submissionDifficulty : Number

/-- How `handleMiningSubmission` answers, before anything is awaited. -/
inductive Judged (P : Packages) where
  | refused (code : StratumErrorCode) (message : String)
  | threw
  | accepted (share : Share P)

/-- `handleMiningSubmission` up to its first write, for client number `i`: the client with its
duplicate keys, and the answer. -/
def handleMiningSubmission {P : Packages} (service : JobsService P) (i : ℕ) (c : Client) (m : MiningSubmitMessage) :
    Client × Judged P :=
  match service.getJobById m.jobId with
  | none => (c, .refused .jobNotFound "Job not found")
  | some job =>
    match service.getJobTemplateById job.jobTemplateId with
    | none => (c, .refused .jobNotFound "Job Template not found")
    | some jobTemplate =>
      if m.submissionHash ∈ c.miningSubmissionHashes then (c, .refused .duplicateShare "Duplicate share")
      else
        let c := { c with miningSubmissionHashes := c.miningSubmissionHashes ++ [m.submissionHash] }
        match job.buildHeaderBuffer jobTemplate m.versionMaskNumber m.nonceNumber m.timestampNumber with
        | none => (c, .threw)
        | some header =>
          let difficulty := calculateDifficulty P.hash256 header
          if difficulty.ge c.sessionDifficulty then (c, .accepted ⟨i, m, job, jobTemplate, header, difficulty⟩)
          else (c, .refused .lowDifficultyShare "Difficulty too low")

/-- How a submission that is no duplicate is judged. -/
theorem handleMiningSubmission_eq {P : Packages} {service : JobsService P} {i : ℕ} {c : Client}
    {m : MiningSubmitMessage} {job : MiningJob P} {t : JobTemplate} {header : Buffer}
    (found : service.getJobById m.jobId = some job)
    (foundTemplate : service.getJobTemplateById job.jobTemplateId = some t)
    (unseen : m.submissionHash ∉ c.miningSubmissionHashes)
    (built : job.buildHeaderBuffer t m.versionMaskNumber m.nonceNumber m.timestampNumber = some header) :
    handleMiningSubmission service i c m =
      ({ c with miningSubmissionHashes := c.miningSubmissionHashes ++ [m.submissionHash] },
        if (calculateDifficulty P.hash256 header).ge c.sessionDifficulty then
          .accepted ⟨i, m, job, t, header, calculateDifficulty P.hash256 header⟩
        else .refused .lowDifficultyShare "Difficulty too low") := by
  simp only [handleMiningSubmission, found, foundTemplate, if_neg unseen, built]
  split <;> rfl

end ElektronPool.Stratum
