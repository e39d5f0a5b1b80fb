import ElektronPool.Stratum.BlockFound
import ElektronPool.Stratum.Duplicates

/-!
# Who is credited for a share

A session is authorized for one worker at a time: each `mining.authorize` replaces the one
before. The share log gets the address the session is authorized for when the reply to the
miner has been written, whatever the submission names (`credited_to_last_authorized`).
-/

namespace ElektronPool.Stratum
set_option autoImplicit false
open Js Async

/-! ## Worker names -/

/-- What `AuthorizationMessage` reads from a worker name: the parts before the first dots. -/
def Authorization.ofName (name : String) : Authorization :=
  match (name.toList.splitOn '.').map String.ofList with
  | address :: worker :: _ => ⟨address, worker⟩
  | [address] => ⟨address, "worker"⟩
  | [] => ⟨"", "worker"⟩

/-- The address part of the `userId` of a submission. -/
def MiningSubmitMessage.userAddress (m : MiningSubmitMessage) : String := (Authorization.ofName m.userId).address

/-! ## What authorizes a session -/

/-- A change of the sessions' authorizations. -/
inductive AuthorizationChange where
  | connected
  | authorized (client : ℕ) (authorization : Authorization)
  deriving DecidableEq

def AuthorizationChange.apply (authorizations : List (Option Authorization)) :
    AuthorizationChange → List (Option Authorization)
  | .connected => authorizations ++ [none]
  | .authorized i authorization => authorizations.modify i fun _ => some authorization

section
variable {P : Packages} {config : StratumConfig}

/-- What a resumption of a handler changes. -/
def Call.authorizationChange : Call P → Answer → Option AuthorizationChange
  | .connect _, .ran _ => some .connected
  | .authorize i authorization, .ran _ => some (.authorized i authorization)
  | _, _ => none

/-- What one event changes. -/
def authorizationChange (p : Server P) : Event (Call P) Answer → List AuthorizationChange
  | .start _ => []
  | .resume k a => (p.calls[k]?.bind fun t => t.authorizationChange a).toList

/-- The changes of a run, in order. -/
def authorizationChanges (config : StratumConfig) : Server P → List (Event (Call P) Answer) → List AuthorizationChange :=
  history (Server.step config) authorizationChange

/-- The worker a session was authorized for last, in a run from the start. -/
def lastAuthorized (config : StratumConfig) (es : List (Event (Call P) Answer)) (i : ℕ) : Option Authorization :=
  (((authorizationChanges config (Server.initial P) es).foldl AuthorizationChange.apply [])[i]?).join

/-! ## Every other step leaves the authorizations alone -/

variable {s s' : World P} {i : ℕ} {c c' : Client} {t t' : Call P} {a : Answer}

namespace Call

theorem aside_clientAuthorization : Client.Aside (·.clientAuthorization) := by
  constructor <;> intros <;> rfl

/-- A step of a handler for work. -/
theorem WorkBranch.authorizations {r : World P × Call P} (branch : WorkBranch config s t a r) :
    r.1.authorizations = (t.authorizationChange a).toList.foldl AuthorizationChange.apply s.authorizations := by
  cases branch with
  | connect => exact List.map_append
  | authorize i authorization =>
    apply List.ext_getElem?
    intro j
    simp only [authorizationChange, Option.toList_some, List.foldl_cons, List.foldl_nil, AuthorizationChange.apply,
      World.authorizations, World.updateClient, List.getElem?_map, List.getElem?_modify]
    split <;> cases s.clients[j]? <;> rfl
  | setDifficulty | disconnect | refreshFailed | notified | notifyFailed =>
    exact World.authorizations_updateClient fun _ => rfl
  | unconfigured _ _ at_i | noWallet _ at_i | asksForDifficulty _ at_i => exact World.authorizations_setClient at_i rfl
  | refreshed _ _ _ _ at_i => exact map_refreshed aside_clientAuthorization at_i
  | localWork at_i | difficulty _ at_i => exact map_send_of_eq aside_clientAuthorization at_i rfl
  | difficultyBuilt _ _ _ at_i => exact map_difficultyBuilt aside_clientAuthorization at_i
  | _ => rfl

/-- A step of the handling of a share. -/
theorem ShareBranch.authorizations {r : World P × Call P} (branch : ShareBranch config s t a r) :
    r.1.authorizations = (t.authorizationChange a).toList.foldl AuthorizationChange.apply s.authorizations := by
  have aside : t.authorizationChange a = none := by cases branch <;> rfl
  rw [aside]
  exact branch.shareStep.2

/-- What a resumption does to the authorizations. -/
theorem authorizations_resume (resumed : resume config s t a = some (s', t')) :
    s'.authorizations = (t.authorizationChange a).toList.foldl AuthorizationChange.apply s.authorizations := by
  rw [resume, Option.or_eq_some_iff] at resumed
  obtain work | ⟨-, share⟩ := resumed
  · exact (workBranch_of_resumeWork work).authorizations
  · exact (shareBranch_of_resumeShare share).authorizations

end Call

/-- The authorizations of a run's last state are those its events have made. -/
theorem authorizations_run {p p' : Server P} {es : List (Event (Call P) Answer)}
    (run : runWhere (Server.step config) Always p es = some p') :
    p'.shared.authorizations = (authorizationChanges config p es).foldl AuthorizationChange.apply p.shared.authorizations := by
  refine @foldl_history _ _ _ _ _ _ (fun p : Server P => p.shared.authorizations) _ ?_ _ _ _ run
  intro p e p' moved
  obtain ⟨t, rfl, -, rfl⟩ | ⟨before, t, after, a, s', t', rfl, calls, resumed, rfl⟩ := Pool.step_cases moved
  · rfl
  · have here : p.calls[before.length]? = some t := by simp [calls]
    rw [authorizationChange, here]
    exact Call.authorizations_resume resumed

/-! ## Whom the share log names -/

namespace Call
variable {share : Share P}

theorem shareLog_of_shareStep {r : World P × Call P} (past : t.isPast = true) (step : ShareStep s t a r) :
    r.1.shareLog = s.shareLog := by
  cases step with
  | quiet quiet _ => exact quiet.shareLog
  | judged is_call | replied _ is_call | recorded _ _ is_call =>
    subst is_call
    cases past

/-- Behind the network test no handler writes to the share log. -/
theorem shareLog_of_past (past : t.isPast = true) (resumed : resume config s t a = some (s', t')) :
    s'.shareLog = s.shareLog ∧ t'.isPast = true := by
  refine ⟨?_, (blocksSubmitted_of_past past resumed).2⟩
  obtain work | share := step_of_resume resumed
  · exact (records_work work).1
  · exact shareLog_of_shareStep past share

/-- What follows the reply of a share that goes on to the share log. -/
theorem recording_of_replyWritten {nowMs : ℤ} {mid final : World P} {u : Call P}
    (replied : resume config s (.replyWritten share) (.written true nowMs) = some (mid, t))
    (logged : resume config final t (.recorded true) = some (s', u)) : ∃ authorization,
    (s.clients[share.client]?.bind (·.clientAuthorization)) = some authorization ∧ mid = s ∧
      t = .recording share authorization.address nowMs := by
  have shared : resumeShare config s (.replyWritten share) (.written true nowMs) = some (mid, t) := replied
  simp only [resumeShare] at shared
  split at shared
  · split at shared
    · -- without an authorization the network test comes next, and it is not a write that ends there
      have past : t.isPast = true := (congrArg (·.2.isPast) (Option.some.inj shared)).symm.trans (isPast_checkBlock s share)
      cases t with
      | awaiting share step => cases step <;> cases logged
      | recording => cases past
      | _ => cases logged
    · rename_i authorization found
      cases shared
      exact ⟨authorization, found, rfl, rfl⟩
  · cases shared

end Call

theorem lastAuthorized_eq {p : Server P} {es : List (Event (Call P) Answer)}
    (run : runWhere (Server.step config) Always (.initial P) es = some p) (i : ℕ) :
    lastAuthorized config es i = p.shared.clients[i]?.bind (·.clientAuthorization) := by
  have made : p.shared.authorizations = (authorizationChanges config (.initial P) es).foldl AuthorizationChange.apply [] :=
    authorizations_run run
  rw [lastAuthorized, ← made, World.authorizations, List.getElem?_map]
  cases p.shared.clients[i]? <;> rfl

end

/-- **The share log names the worker authorized last**: the one record of a share is made for
the address its session was authorized for last when the reply to the share had been written.
The other handlers may do what they want before the record is made and after. -/
theorem credited_to_last_authorized {P : Packages} {config : StratumConfig} {es : List (Event (Call P) Answer)}
    {p : Server P} {share : Share P} {nowMs : ℤ} {later : World P} {answers : List (World P × Answer)}
    {changes : List (World P × World P)} {t' : Call P}
    (run : runWhere (Server.step config) Always (.initial P) es = some p)
    (credited : amid (Call.resume config) (.replyWritten share)
      ((p.shared, .written true nowMs) :: (later, .recorded true) :: answers) = some (changes, t')) :
    ∃ authorization, lastAuthorized config es share.client = some authorization ∧
      appended (·.shareLog) changes = [⟨authorization.address, share.submissionDifficulty, nowMs,
        share.jobTemplate.blockData.height, share.header⟩] := by
  obtain ⟨s₁, t₁, rest, replied, afterwards, rfl⟩ := amid_cons.mp credited
  obtain ⟨s₂, t₂, rest, logged, remaining, rfl⟩ := amid_cons.mp afterwards
  obtain ⟨authorization, found, rfl, rfl⟩ := Call.recording_of_replyWritten replied logged
  refine ⟨authorization, (lastAuthorized_eq run share.client).trans found, ?_⟩
  have recorded := Option.some.inj (show some _ = some (s₂, t₂) from logged)
  have past : t₂.isPast = true := (congrArg (·.2.isPast) recorded).symm.trans (Call.isPast_checkBlock _ share)
  have grows : s₂.shareLog = later.shareLog ++ [_] :=
    (congrArg (·.1.shareLog) recorded).symm.trans (Call.handled_checkBlock _ share).1.shareLog
  have silent := appended_eq_nil (fun _ _ _ _ _ => Call.shareLog_of_past) past remaining
  rw [appended_cons_of_eq rfl, appended_cons_of_append grows, silent, List.append_nil]

namespace Regtest

/-- The session is authorized for a second worker, and then sends a share under the first. -/
def renamed : List (Event (Call packages) Answer) :=
  mining (.fin (1 / 10 ^ 10)) ++
    [.start (.authorize 0 ⟨"bcrt1qother", "two"⟩), .resume 4 (.ran 1700000000500),
      .start (.submit 0 (submission "00000004")), .resume 5 (.ran 1700000001000)]

/-- The share that handler number `k` is answering. -/
def answering (p : Server packages) (k : ℕ) : Option (Share packages) :=
  p.calls[k]?.bind fun
    | .replyWritten share => some share
    | _ => none

theorem mem_calls_of_answering {p : Server packages} {k : ℕ} {share : Share packages}
    (found : share ∈ answering p k) : .replyWritten share ∈ p.calls := by
  obtain ⟨call, at_k, same⟩ := Option.bind_eq_some_iff.mp found
  split at same
  · cases same
    exact List.mem_of_getElem? at_k
  · cases same

/-- The reply of the share is written, and then it is logged. -/
def logged (p : Server packages) (share : Share packages) : Option (List (World packages × World packages) × Call packages) :=
  amid (Call.resume config) (.replyWritten share)
    [(p.shared, .written true 1700000001000), (p.shared, .recorded true)]

/-- What becomes of the share of `renamed`. -/
theorem exists_renamed : ∃ (p : Server packages) (share : Share packages)
    (changes : List (World packages × World packages)) (t' : Call packages),
    runWhere (Server.step config) Always (.initial packages) renamed = some p ∧ .replyWritten share ∈ p.calls ∧
      logged p share = some (changes, t') ∧ share.client = 0 ∧ share.submission = submission "00000004" ∧
      (appended (·.shareLog) changes).map (·.minerAddress) = ["bcrt1qother"] := by
  have evaluated : (runWhere (Server.step config) Always (.initial packages) renamed).any (fun p =>
      (answering p 5).any fun share => (logged p share).any fun r => decide (share.client = 0 ∧
        share.submission = submission "00000004" ∧
        (appended (·.shareLog) r.1).map (·.minerAddress) = ["bcrt1qother"])) = true := by decide +kernel
  obtain ⟨p, run, rest⟩ := (Option.any_eq_true ..).mp evaluated
  obtain ⟨share, found, rest⟩ := (Option.any_eq_true ..).mp rest
  obtain ⟨⟨changes, t'⟩, log, checks⟩ := (Option.any_eq_true ..).mp rest
  exact ⟨p, share, changes, t', run, mem_calls_of_answering found, log, of_decide_eq_true checks⟩

end Regtest

/-- A share under the first name of a session that has another one now. -/
theorem credited_to_last_authorized_renamed : ∃ (share : Share Regtest.packages) (authorization : Authorization),
    share.submission.userAddress = "bcrt1qminer" ∧
      lastAuthorized Regtest.config Regtest.renamed share.client = some authorization ∧
      authorization.address = "bcrt1qother" := by
  obtain ⟨p, share, changes, t', run, -, log, -, submission, other⟩ := Regtest.exists_renamed
  obtain ⟨authorization, last, credited⟩ := credited_to_last_authorized run log
  rw [credited] at other
  refine ⟨share, authorization, ?_, last, (List.cons.inj other).1⟩
  rw [submission]
  decide +kernel

/-- The share log does not name the worker of the submission. -/
theorem not_credited_to_userId_renamed : ¬ ∀ (P : Packages) (config : StratumConfig) (es : List (Event (Call P) Answer))
    (p : Server P) (share : Share P) (nowMs : ℤ) (later : World P) (answers : List (World P × Answer))
    (changes : List (World P × World P)) (t' : Call P),
    runWhere (Server.step config) Always (.initial P) es = some p → .replyWritten share ∈ p.calls →
    .authorized share.client (.ofName share.submission.userId) ∈ authorizationChanges config (.initial P) es →
    amid (Call.resume config) (.replyWritten share)
      ((p.shared, .written true nowMs) :: (later, .recorded true) :: answers) = some (changes, t') →
    (appended (·.shareLog) changes).map (·.minerAddress) = [share.submission.userAddress] := by
  intro claim
  obtain ⟨p, share, changes, t', run, waiting, log, client, submission, other⟩ := Regtest.exists_renamed
  have named : .authorized share.client (.ofName share.submission.userId) ∈
      authorizationChanges Regtest.config (.initial Regtest.packages) Regtest.renamed := by
    rw [client, submission]
    decide +kernel
  have credited := claim _ _ _ p share _ _ _ changes t' run waiting named log
  rw [other, submission] at credited
  revert credited
  decide +kernel

end ElektronPool.Stratum
