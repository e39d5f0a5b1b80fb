import ElektronPool.Async.Pool
import ElektronPool.Stratum.Client

/-!
# The sessions together

All sessions share the job store and the PPLNS share log; their handlers interleave at the
awaits. A handler runs without a pause from one await to the next, and what it does after
the reply of an RPC runs before the next event, since the promises in between are resolved
already. `accepted` is a history of the shares that passed all checks; `blocksSubmitted`
and `rewards` list the calls of `SUBMIT_BLOCK` and `processBlockFound`.
-/

namespace ElektronPool.Stratum
set_option autoImplicit false
open Js Bitcoin Async

/-- A row of the PPLNS share log, with the header it was accepted for. -/
structure ShareRecord where
  minerAddress : String
  difficulty : Number
  timestamp : ℤ
  blockHeightAtSubmission : ℕ
  header : Buffer
  deriving DecidableEq

structure World (P : Packages) where
  service : JobsService P
  clients : List Client
  shareLog : List ShareRecord
  accepted : List (Share P)
  blocksSubmitted : List Buffer
  rewards : List (ℕ × ℕ)

namespace World
variable {P : Packages}

def empty : World P := ⟨.empty, [], [], [], [], []⟩

def setClient (s : World P) (i : ℕ) (c : Client) : World P := { s with clients := s.clients.set i c }

/-- What happens to one session alone. -/
def updateClient (s : World P) (i : ℕ) (f : Client → Client) : World P :=
  { s with clients := s.clients.modify i f }

/-- A write can only succeed on a socket that is open. -/
def isOpen (s : World P) (i : ℕ) : Bool := s.clients[i]?.any fun c => !c.connectionClosed

end World

/-- The awaits behind an accepted block and behind a share, in the order of the source.
`pending` counts the messages of `Promise.all` on the way. -/
inductive Step where
  | save
  | discordGuild
  | discordChannel
  | telegramSubscriptions
  | telegramMessage (pending : ℕ)
  | resetBestDifficultyAndShares
  | reportBlockFound
  | processBlockFound
  | ensureClientEntity
  | addShares
  | heartbeat (now : ℤ)
  | sessionBestDifficulty
  | addressBestDifficulty
  deriving DecidableEq

/-- Where a handler stands. -/
inductive Call (P : Packages) where
  | connect (sessionId : String)
  | authorize (client : ℕ) (authorization : Authorization)
  | setDifficulty (client : ℕ) (difficulty : Number)
  | disconnect (client : ℕ)
  | refreshMiningJob (client : ℕ) (onNewBlock : Bool)
  | refreshTemplate (client : ℕ) (coinbaseAddress : String) (onNewBlock : Bool)
  | refreshLocalMiningWork (client : ℕ)
  | checkDifficulty (client : ℕ)
  | difficultyTemplate (client : ℕ) (coinbaseAddress : String)
  | notifyWritten (client : ℕ) (timestamp : ℤ)
  | submit (client : ℕ) (submission : MiningSubmitMessage)
  | errorWritten (client : ℕ) (code : StratumErrorCode) (message : String)
  | replyWritten (share : Share P)
  | recording (share : Share P) (minerAddress : String) (timestamp : ℤ)
  | submitting (share : Share P)
  | awaiting (share : Share P) (step : Step)
  | returned
  | rejected

/-- How an await ends. `ran` starts a handler; `written` is what `write` returns. -/
inductive Answer where
  | ran (nowMs : ℤ)
  | suggests (targetDiff : Option Number) (nowMs : ℤ)
  | template (blockTemplate : BlockTemplate) (nowMs : ℤ)
  | rpcFailed
  | written (success : Bool) (nowMs : ℤ)
  | recorded (success : Bool)
  | submitted (response : String)
  | subscribers (count : ℕ)
  | returned (step : Step) (nowMs : ℤ)
  | threw (step : Step)
  deriving DecidableEq

namespace Call
variable {P : Packages}

/-- The handlers that events start: messages, timers and the new-block subscription. -/
def isEntry : Call P → Bool
  | .connect _ | .authorize .. | .setDifficulty .. | .disconnect _ | .refreshMiningJob .. |
    .refreshLocalMiningWork _ | .checkDifficulty _ | .submit .. => true
  | _ => false

def isFinished : Call P → Bool
  | .returned | .rejected => true
  | _ => false

section
variable (config : StratumConfig)

/-! ## Work for the miners -/

/-- `sendNewMiningJob` within a handler of client `i`, and what an error does to the socket. -/
def send (s : World P) (i : ℕ) (c : Client) (t : JobTemplate) (nowMs : ℤ) (ends : Bool) : World P × Call P :=
  match c.sendNewMiningJob P config s.service t nowMs with
  | (service, c, .closed) => ({ s with service := service }.setClient i c, .returned)
  | (service, c, .threw) => ({ s with service := service }.setClient i (c.endSocket ends), .rejected)
  | (service, c, .writing timestamp) => ({ s with service := service }.setClient i c, .notifyWritten i timestamp)

/-- `refreshMiningJob` from the reply of the node on. -/
def refreshed (s : World P) (i : ℕ) (c : Client) (coinbaseAddress : String) (blockTemplate : BlockTemplate)
    (nowMs : ℤ) (onNewBlock : Bool) : World P × Call P :=
  match s.service.buildTemplateFor coinbaseAddress blockTemplate nowMs with
  | (service, none) => ({ s with service := service }.setClient i (c.endSocket onNewBlock), .rejected)
  | (service, some t) => send config { s with service := service } i (c.adoptTemplate t) t nowMs onNewBlock

/-- `checkDifficulty` once it has a template to go on with. -/
def sendDifficultyTemplate (s : World P) (i : ℕ) (c : Client) (t : JobTemplate) (nowMs : ℤ) : World P × Call P :=
  send config s i { c with currentJobTemplate := some t } (c.difficultyTemplate t nowMs) nowMs false

/-- `checkDifficulty` from the reply of the node on. -/
def difficultyBuilt (s : World P) (i : ℕ) (c : Client) (coinbaseAddress : String) (blockTemplate : BlockTemplate)
    (nowMs : ℤ) : World P × Call P :=
  match s.service.buildTemplateFor coinbaseAddress blockTemplate nowMs with
  | (service, none) => ({ s with service := service }, .rejected)
  | (service, some t) => sendDifficultyTemplate config { s with service := service } i c t nowMs

/-- The handlers of a session other than for shares. -/
def resumeWork (s : World P) : Call P → Answer → Option (World P × Call P)
  | .connect sessionId, .ran _ => some ({ s with clients := s.clients ++ [.new sessionId] }, .returned)
  | .authorize i authorization, .ran _ =>
    some (s.updateClient i fun c => { c with clientAuthorization := some authorization }, .returned)
  | .setDifficulty i difficulty, .ran _ =>
    some (s.updateClient i fun c => { c with sessionDifficulty := difficulty }, .returned)
  | .disconnect i, .ran _ => some (s.updateClient i Client.destroy, .returned)
  | .refreshMiningJob i onNewBlock, .ran _ =>
    s.clients[i]?.map fun c =>
      if c.connectionClosed ∨ c.address = none then (s, .returned)
      else match config.getPoolWalletAddress with
        | none => (s.setClient i (c.endSocket onNewBlock), .rejected)
        | some coinbaseAddress => (s, .refreshTemplate i coinbaseAddress onNewBlock)
  | .refreshTemplate i coinbaseAddress onNewBlock, .template blockTemplate nowMs =>
    s.clients[i]?.map fun c => refreshed config s i c coinbaseAddress blockTemplate nowMs onNewBlock
  | .refreshTemplate i _ onNewBlock, .rpcFailed => some (s.updateClient i (·.endSocket onNewBlock), .rejected)
  | .refreshLocalMiningWork i, .ran nowMs =>
    s.clients[i]?.map fun c =>
      match c.localTemplate nowMs with
      | none => (s, .returned)
      | some t => send config s i c t nowMs false
  | .checkDifficulty i, .suggests targetDiff nowMs =>
    s.clients[i]?.map fun c =>
      match targetDiff with
      | none => (s, .returned)
      | some targetDiff =>
        if targetDiff.strictEq c.sessionDifficulty then (s, .returned)
        else
          let c := { c with sessionDifficulty := targetDiff }
          match c.currentJobTemplate, config.getPoolWalletAddress with
          | some t, _ => sendDifficultyTemplate config s i c t nowMs
          | none, none => (s.setClient i c, .rejected)
          | none, some coinbaseAddress => (s.setClient i c, .difficultyTemplate i coinbaseAddress)
  | .difficultyTemplate i coinbaseAddress, .template blockTemplate nowMs =>
    s.clients[i]?.map fun c => difficultyBuilt config s i c coinbaseAddress blockTemplate nowMs
  | .difficultyTemplate _ _, .rpcFailed => some (s, .rejected)
  | .notifyWritten i timestamp, .written true nowMs =>
    if s.isOpen i then some (s.updateClient i (·.notifyWritten timestamp nowMs), .returned) else none
  | .notifyWritten i _, .written false _ => some (s.updateClient i Client.destroy, .returned)
  | _, _ => none

/-! ## Shares -/

/-- An error in the handling of a message ends the socket. -/
def throws (s : World P) (i : ℕ) : World P × Call P := (s.updateClient i (·.endSocket true), .rejected)

/-- The network test, once the share log was written or has failed. -/
def checkBlock (s : World P) (share : Share P) : World P × Call P :=
  if share.submissionDifficulty.ge share.jobTemplate.blockData.networkDifficulty then
    let m := share.submission
    match (share.job.copyAndUpdateBlock share.jobTemplate m.versionMaskNumber m.nonceNumber
        m.timestampNumber).bind P.blockToBuffer with
    | none => throws s share.client
    | some blockBytes => ({ s with blocksSubmitted := s.blocksSubmitted ++ [blockBytes] }, .submitting share)
  else (s, .awaiting share .ensureClientEntity)

/-- The notifications, without a Discord bot or after it. -/
def afterDiscord (share : Share P) : Call P :=
  if config.telegramBot then .awaiting share .telegramSubscriptions
  else .awaiting share .resetBestDifficultyAndShares

def entityOf (s : World P) (share : Share P) : Option ClientEntity := s.clients[share.client]?.bind (·.entity)

/-- `this.entity` changes. -/
def updateEntity (s : World P) (share : Share P) (f : ClientEntity → ClientEntity) : World P :=
  s.updateClient share.client fun c => { c with entity := c.entity.map f }

/-- The last steps of a share, if it is the session's best. -/
def checkBest (s : World P) (share : Share P) : World P × Call P :=
  match entityOf s share with
  | none => throws s share.client
  | some entity =>
    if entity.bestDifficulty.lt share.submissionDifficulty then (s, .awaiting share .sessionBestDifficulty)
    else (s, .returned)

/-- A session is written to the database once a minute. -/
def checkHeartbeat (s : World P) (share : Share P) (now : ℤ) : World P × Call P :=
  match entityOf s share with
  | none => checkBest s share
  | some entity =>
    if ∀ updatedAt ∈ entity.updatedAt, 1000 * 60 < now - updatedAt then (s, .awaiting share (.heartbeat now))
    else checkBest s share

/-- The step after one that returned. -/
def afterStep (s : World P) (share : Share P) (nowMs : ℤ) : Step → World P × Call P
  | .save => if config.discordBot then (s, .awaiting share .discordGuild) else (s, afterDiscord config share)
  | .discordGuild => (s, .awaiting share .discordChannel)
  | .discordChannel => (s, afterDiscord config share)
  | .telegramMessage (pending + 2) => (s, .awaiting share (.telegramMessage (pending + 1)))
  | .telegramMessage _ | .telegramSubscriptions => (s, .awaiting share .resetBestDifficultyAndShares)
  | .resetBestDifficultyAndShares => (s, .awaiting share .reportBlockFound)
  | .reportBlockFound =>
    let data := share.jobTemplate.blockData
    ({ s with rewards := s.rewards ++ [(data.height, data.coinbasevalue)] }, .awaiting share .processBlockFound)
  | .processBlockFound => (s, .awaiting share .ensureClientEntity)
  | .ensureClientEntity =>
    (s.updateClient share.client fun c => { c with entity := some (c.entity.getD ⟨.fin 0, none⟩) },
      .awaiting share .addShares)
  | .addShares => checkHeartbeat s share nowMs
  | .heartbeat now => checkBest (updateEntity s share fun e => { e with updatedAt := some now }) share
  | .sessionBestDifficulty =>
    (updateEntity s share fun e => { e with bestDifficulty := share.submissionDifficulty },
      .awaiting share .addressBestDifficulty)
  | .addressBestDifficulty => (s, .returned)

/-- The step after one that threw: some errors are caught, the others end the handler. -/
def afterThrow (s : World P) (share : Share P) : Step → World P × Call P
  | .processBlockFound => (s, .awaiting share .ensureClientEntity)
  | .addShares | .heartbeat _ => checkBest s share
  | .sessionBestDifficulty | .addressBestDifficulty => (s, .returned)
  | _ => throws s share.client

/-- `handleMiningSubmission` up to the answer to the miner. -/
def judged (s : World P) (i : ℕ) : Client × Judged P → World P × Call P
  | (c, .refused code message) => (s.setClient i c, .errorWritten i code message)
  | (c, .threw) => (s.setClient i (c.endSocket true), .rejected)
  | (c, .accepted share) => ({ s with accepted := s.accepted ++ [share] }.setClient i c, .replyWritten share)

/-- `handleMiningSubmission`. -/
def resumeShare (s : World P) : Call P → Answer → Option (World P × Call P)
  | .submit i m, .ran _ => s.clients[i]?.map fun c => judged s i (handleMiningSubmission s.service i c m)
  | .errorWritten i _ _, .written success _ =>
    some (if success then s else s.updateClient i Client.destroy, .returned)
  | .replyWritten share, .written true nowMs =>
    if s.isOpen share.client then
      some (match s.clients[share.client]?.bind (·.clientAuthorization) with
        | none => checkBlock s share
        | some authorization => (s, .recording share authorization.address nowMs))
    else none
  | .replyWritten share, .written false _ => some (s.updateClient share.client Client.destroy, .returned)
  | .recording share minerAddress timestamp, .recorded success =>
    some (checkBlock (if success then { s with shareLog := s.shareLog ++ [⟨minerAddress, share.submissionDifficulty,
      timestamp, share.jobTemplate.blockData.height, share.header⟩] } else s) share)
  | .submitting share, .submitted response =>
    some (s, .awaiting share (if response = "SUCCESS!" then .save else .ensureClientEntity))
  | .awaiting share .telegramSubscriptions, .subscribers count =>
    some (s, .awaiting share (if count = 0 then .resetBestDifficultyAndShares else .telegramMessage count))
  | .awaiting share step, .returned step' nowMs =>
    if step = step' ∧ step ≠ .telegramSubscriptions then some (afterStep config s share nowMs step) else none
  | .awaiting share step, .threw step' => if step = step' then some (afterThrow s share step) else none
  | _, _ => none

/-- One handler, from one await to the next. -/
def resume (s : World P) (t : Call P) (a : Answer) : Option (World P × Call P) :=
  (resumeWork config s t a).or (resumeShare config s t a)

end

end Call

/-- The sessions with the handlers in progress. -/
abbrev Server (P : Packages) := Pool (World P) (Call P)

def Server.step {P : Packages} (config : StratumConfig) : Server P → Event (Call P) Answer → Option (Server P) :=
  Pool.step Call.isEntry (Call.resume config)

def Server.initial (P : Packages) : Server P := ⟨.empty, []⟩

end ElektronPool.Stratum
