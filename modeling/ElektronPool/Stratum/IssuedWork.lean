import ElektronPool.Stratum.CleanJobs

/-!
# Shares for work issued earlier

A share is judged by the session difficulty at that moment, while the jobs that were sent before
the vardiff timer or the miner changed it are still in the store. `sentJobs` records, beside the
state, each job a session was sent, with the difficulty in force then and those that came after
it. A share that was good enough when its job was sent is refused as too low only once the
difficulty has been raised (`tooLow_iff_of_submitted`); where the timer does that, the session is
sent a job that clears the earlier ones (`clears_of_checkDifficulty`).
-/

namespace ElektronPool.Stratum
set_option autoImplicit false
open Js Bitcoin Async

section
variable {P : Packages} {config : StratumConfig}

/-! ## How a share is judged -/

/-- The difficulty of the share in a submission, as long as its job is in the store. -/
def shareDifficulty (service : JobsService P) (m : MiningSubmitMessage) : Option Number := do
  let job ← service.getJobById m.jobId
  let jobTemplate ← service.getJobTemplateById job.jobTemplateId
  let header ← job.buildHeaderBuffer jobTemplate m.versionMaskNumber m.nonceNumber m.timestampNumber
  return calculateDifficulty P.hash256 header

/-- The submission is answered with the error for low shares. -/
def TooLow (service : JobsService P) (i : ℕ) (c : Client) (m : MiningSubmitMessage) : Prop :=
  (handleMiningSubmission service i c m).2 = .refused .lowDifficultyShare "Difficulty too low"

theorem not_tooLow_of_duplicate {service : JobsService P} {i : ℕ} {c : Client} {m : MiningSubmitMessage}
    (duplicate : m.submissionHash ∈ c.miningSubmissionHashes) : ¬ TooLow service i c m := by
  unfold TooLow handleMiningSubmission
  split
  · simp
  · split
    · simp
    · simp [duplicate]

/-- A share that is no duplicate is too low exactly if it is below the session difficulty. -/
theorem tooLow_iff {service : JobsService P} {i : ℕ} {c : Client} {m : MiningSubmitMessage} {d : Number}
    (share : shareDifficulty service m = some d) :
    TooLow service i c m ↔ m.submissionHash ∉ c.miningSubmissionHashes ∧ d.ge c.sessionDifficulty = false := by
  by_cases duplicate : m.submissionHash ∈ c.miningSubmissionHashes
  · simp [not_tooLow_of_duplicate duplicate, duplicate]
  · obtain ⟨job, found, rest⟩ := Option.bind_eq_some_iff.mp share
    obtain ⟨t, foundTemplate, rest⟩ := Option.bind_eq_some_iff.mp rest
    obtain ⟨header, built, same⟩ := Option.bind_eq_some_iff.mp rest
    cases same
    rw [TooLow, handleMiningSubmission_eq found foundTemplate duplicate built]
    cases enough : (calculateDifficulty P.hash256 header).ge c.sessionDifficulty <;> simp [duplicate]

/-! ## What changes the difficulty of a session -/

def World.difficulties (s : World P) : List Number := s.clients.map (·.sessionDifficulty)

namespace Call

/-- The difficulty that a resumption puts in force, and the session. -/
def adjustment : Call P → Answer → Option (ℕ × Number)
  | .setDifficulty i difficulty, .ran _ => some (i, difficulty)
  | .checkDifficulty i, .suggests (some targetDiff) _ => some (i, targetDiff)
  | _, _ => none

end Call

/-- The difficulties once one of them is put in force. -/
def adjusted (difficulties : List Number) : Option (ℕ × Number) → List Number
  | some (i, difficulty) => difficulties.set i difficulty
  | none => difficulties

variable {s s' : World P} {i : ℕ} {c c' : Client} {t t' : Call P} {a : Answer} {share : Share P}

theorem aside_sessionDifficulty : Client.Aside (·.sessionDifficulty) := by
  constructor <;> intros <;> rfl

theorem World.set_difficulties_of_eq {difficulty : Number} (at_i : s.clients[i]? = some c)
    (same : difficulty = c.sessionDifficulty) : s.difficulties.set i difficulty = s.difficulties := by
  rw [same, difficulties, ← List.map_set]
  exact map_setClient at_i rfl

theorem World.difficulties_setDifficulty (s : World P) (i : ℕ) (difficulty : Number) :
    (s.updateClient i fun c => { c with sessionDifficulty := difficulty }).difficulties =
      s.difficulties.set i difficulty := by
  apply List.ext_getElem?
  intro j
  simp only [difficulties, updateClient, List.getElem?_map, List.getElem?_modify, List.getElem?_set, List.length_map]
  by_cases here : i = j
  · subst here
    by_cases bound : i < s.clients.length <;> simp [bound]
  · cases s.clients[j]? <;> simp [here]

namespace Call

/-- A step of a handler for work. -/
theorem WorkBranch.difficulties {r : World P × Call P} (branch : WorkBranch config s t a r) :
    ∃ connected, r.1.difficulties = adjusted s.difficulties (t.adjustment a) ++ connected := by
  have kept : ∀ {difficulties : List Number}, r.1.difficulties = difficulties →
      ∃ connected, r.1.difficulties = difficulties ++ connected := fun same => ⟨[], by rw [same, List.append_nil]⟩
  cases branch with
  | connect sessionId => exact ⟨[.fin 100000], List.map_append⟩
  | setDifficulty => exact kept (World.difficulties_setDifficulty ..)
  | authorize | disconnect | refreshFailed | notified | notifyFailed =>
    exact kept (World.map_updateClient fun _ => rfl)
  | unconfigured _ _ at_i => exact kept (World.map_setClient at_i rfl)
  | refreshed _ _ _ _ at_i => exact kept (map_refreshed aside_sessionDifficulty at_i)
  | localWork at_i => exact kept (map_send_of_eq aside_sessionDifficulty at_i rfl)
  | sameDifficulty _ at_i same => exact kept (World.set_difficulties_of_eq at_i (Number.eq_of_strictEq same)).symm
  | difficulty => exact kept (map_send aside_sessionDifficulty)
  | noWallet | asksForDifficulty => exact kept List.map_set
  | difficultyBuilt _ _ _ at_i => exact kept (map_difficultyBuilt aside_sessionDifficulty at_i)
  | _ => exact kept rfl

/-- A step of the handling of a share. -/
theorem ShareBranch.difficulties {r : World P × Call P} (branch : ShareBranch config s t a r) :
    ∃ connected, r.1.difficulties = adjusted s.difficulties (t.adjustment a) ++ connected := by
  have none : t.adjustment a = none := by cases branch <;> rfl
  have same : r.1.difficulties = s.difficulties := branch.map_clients aside_sessionDifficulty
  exact ⟨[], by rw [none, adjusted, List.append_nil, same]⟩

/-- What a resumption does to the difficulties. -/
theorem difficulties_resume (resumed : resume config s t a = some (s', t')) :
    ∃ connected, s'.difficulties = adjusted s.difficulties (t.adjustment a) ++ connected := by
  rw [resume, Option.or_eq_some_iff] at resumed
  obtain work | ⟨-, share⟩ := resumed
  · exact (workBranch_of_resumeWork work).difficulties
  · exact (shareBranch_of_resumeShare share).difficulties

end Call

/-! ## Jobs and the difficulties since they were sent -/

/-- A job a session was sent: the session difficulty then, and those that were put in force later. -/
structure SentJob where
  client : ℕ
  jobId : String
  atSending : Number
  since : List Number
  deriving DecidableEq

namespace SentJob

def inForce (x : SentJob) : Number := x.since.getLast?.getD x.atSending

/-- No later difficulty is above the one before. -/
def Unraised (x : SentJob) : Prop := (x.atSending :: x.since).IsChain fun before later => before.ge later = true

instance (x : SentJob) : Decidable x.Unraised :=
  inferInstanceAs (Decidable ((x.atSending :: x.since).IsChain fun before later => before.ge later = true))

/-- What is put in force for the session of the job. -/
def adjust (x : SentJob) : Option (ℕ × Number) → SentJob
  | some (i, difficulty) => if i = x.client then { x with since := x.since ++ [difficulty] } else x
  | none => x

theorem client_adjust (x : SentJob) (change : Option (ℕ × Number)) : (x.adjust change).client = x.client := by
  cases change with
  | none => rfl
  | some change =>
    simp only [adjust]
    split <;> rfl

/-- A share that is good enough for the first of the difficulties is so for the last. -/
theorem ge_inForce {x : SentJob} {d : Number} (enough : d.ge x.atSending = true) (unraised : x.Unraised) :
    d.ge x.inForce = true := by
  obtain ⟨client, jobId, first, since⟩ := x
  induction since generalizing first with
  | nil => exact enough
  | cons next rest ih =>
    obtain ⟨lower, unraised⟩ := List.isChain_cons_cons.mp unraised
    have later := ih next (Number.ge_trans enough lower) unraised
    rw [inForce, List.getLast?_cons]
    exact later

end SentJob

/-- The messages of a step, with the difficulty behind it. -/
def newJobs (s s' : World P) : List SentJob :=
  s'.clients.zipIdx.flatMap fun x =>
    (x.1.notified.drop (s.clients[x.2]?.elim 0 (·.notified.length))).map fun n =>
      ⟨x.2, n.jobId, x.1.sessionDifficulty, []⟩

def Server.adjustment (p : Server P) : Event (Call P) Answer → Option (ℕ × Number)
  | .start _ => none
  | .resume k a => p.calls[k]?.bind (·.adjustment a)

/-- The jobs that were sent, behind an event. -/
def sentJobs (jobs : List SentJob) (p : Server P) (e : Event (Call P) Answer) (p' : Server P) : List SentJob :=
  jobs.map (·.adjust (p.adjustment e)) ++ newJobs p.shared p'.shared

/-- The difficulty recorded last is the session's. -/
def InForce (s : World P) (x : SentJob) : Prop := s.difficulties[x.client]? = some x.inForce

theorem inForce_of_mem_newJobs {x : SentJob} (member : x ∈ newJobs s s') : InForce s' x := by
  obtain ⟨⟨c, i⟩, at_i, sent⟩ := List.mem_flatMap.mp member
  obtain ⟨n, -, rfl⟩ := List.mem_map.mp sent
  rw [InForce, World.difficulties, List.getElem?_map, List.mem_zipIdx_iff_getElem?.mp at_i]
  rfl

theorem inForce_adjust {x : SentJob} {change : Option (ℕ × Number)} {connected : List Number} (inForce : InForce s x)
    (difficulties : s'.difficulties = adjusted s.difficulties change ++ connected) : InForce s' (x.adjust change) := by
  obtain ⟨bound, -⟩ := List.getElem?_eq_some_iff.mp inForce
  cases change with
  | none =>
    rw [InForce, difficulties, SentJob.adjust, adjusted, List.getElem?_append_left bound]
    exact inForce
  | some change =>
    obtain ⟨i, difficulty⟩ := change
    rw [InForce, difficulties, SentJob.client_adjust, adjusted, List.getElem?_append_left (by rwa [List.length_set])]
    by_cases here : i = x.client
    · rw [here, List.getElem?_set_self bound, SentJob.adjust, if_pos rfl, SentJob.inForce, List.getLast?_concat]
      rfl
    · rw [List.getElem?_set_ne here, SentJob.adjust, if_neg here]
      exact inForce

theorem inForce_step {p p' : Server P} {jobs : List SentJob} {e : Event (Call P) Answer}
    (inForce : ∀ x ∈ jobs, InForce p.shared x) (moved : Server.step config p e = some p') :
    ∀ x ∈ sentJobs jobs p e p', InForce p'.shared x := by
  have difficulties : ∃ connected, p'.shared.difficulties = adjusted p.shared.difficulties (p.adjustment e) ++ connected := by
    cases e with
    | start t =>
      obtain ⟨-, rfl⟩ := Pool.start_cases moved
      exact ⟨[], (List.append_nil _).symm⟩
    | resume k a =>
      obtain ⟨t, s', t', at_k, resumed, rfl⟩ := Pool.resume_cases moved
      rw [Server.adjustment, at_k]
      exact Call.difficulties_resume resumed
  obtain ⟨connected, difficulties⟩ := difficulties
  intro x member
  rcases List.mem_append.mp member with old | new
  · obtain ⟨before, inJobs, rfl⟩ := List.mem_map.mp old
    exact inForce_adjust (inForce before inJobs) difficulties
  · exact inForce_of_mem_newJobs new

/-- A submission of the session for the job, with a share of this difficulty. -/
structure SentJob.Submitted (x : SentJob) (s : World P) (c : Client) (m : MiningSubmitMessage) (d : Number) : Prop where
  session : s.clients[x.client]? = some c
  job : m.jobId = x.jobId
  share : shareDifficulty s.service m = some d

/-- The timer changes the difficulty of a session and sends a job that clears the earlier ones, if the
session has a template and a job can be made of it. -/
theorem clears_of_checkDifficulty {difficulty : Number} {nowMs : ℤ} {template : JobTemplate}
    (at_i : s.clients[i]? = some c) (isOpen : c.connectionClosed = false)
    (other : difficulty.strictEq c.sessionDifficulty = false) (current : c.currentJobTemplate = some template)
    (can : sendable P config template = true)
    (resumed : Call.resume config s (.checkDifficulty i) (.suggests (some difficulty) nowMs) = some (s', t')) :
    ∃ c' n, s'.clients[i]? = some c' ∧ c'.sessionDifficulty = difficulty ∧ c'.notified = c.notified ++ [n] ∧
      n.clearJobs = true := by
  obtain ⟨bound, -⟩ := List.getElem?_eq_some_iff.mp at_i
  have branch : Call.resume config s (.checkDifficulty i) (.suggests (some difficulty) nowMs) =
      some (Call.sendDifficultyTemplate config s i { c with sessionDifficulty := difficulty } template nowMs) := by
    simp [Call.resume, Call.resumeWork, at_i, other, current]
  have sent := Option.some.inj (branch.symm.trans resumed)
  rw [Call.sendDifficultyTemplate] at sent
  obtain ⟨closed, -⟩ | ⟨failed, -⟩ | ⟨job, -, -, written⟩ := Call.send_cases config s i
    { c with sessionDifficulty := difficulty, currentJobTemplate := some template }
    (({ c with sessionDifficulty := difficulty } : Client).difficultyTemplate template nowMs) nowMs false
  · rw [isOpen] at closed
    cases closed
  · have made := (congrArg Option.isSome failed).symm.trans (isSome_newJob s.service _ nowMs)
    cases made.trans can
  · rw [written] at sent
    cases sent
    exact ⟨_, _, List.getElem?_set_self bound, rfl, rfl, rfl⟩

end

/-- **A share is too low by the difficulty in force now**: in every run, a submission for a job that
is still in the store is refused as too low exactly if it is no duplicate and its share is below
the difficulty that was put in force last. If the share was good enough when the job was sent, that
takes a change since then that has raised the difficulty. -/
theorem tooLow_iff_of_submitted {P : Packages} {config : StratumConfig} {q : Server P × List SentJob}
    (run : Reaches (recording (Server.step config) sentJobs) Always (.initial P, []) q) {x : SentJob} (sent : x ∈ q.2)
    {c : Client} {m : MiningSubmitMessage} {d : Number} (submitted : x.Submitted q.1.shared c m d) :
    (TooLow q.1.shared.service x.client c m ↔
      m.submissionHash ∉ c.miningSubmissionHashes ∧ d.ge x.inForce = false) ∧
    (d.ge x.atSending = true → x.Unraised → ¬ TooLow q.1.shared.service x.client c m) := by
  have inForce : ∀ x ∈ q.2, InForce q.1.shared x := by
    obtain ⟨p, jobs⟩ := q
    apply run.invariant_recording
    · intro x member
      cases member
    · exact fun _ _ _ _ inForce _ moved => inForce_step inForce moved
  have now : c.sessionDifficulty = x.inForce := by
    have last := inForce x sent
    rw [InForce, World.difficulties, List.getElem?_map, submitted.session] at last
    exact Option.some.inj last
  have judged := tooLow_iff (i := x.client) (c := c) submitted.share
  rw [now] at judged
  refine ⟨judged, fun enough unraised tooLow => ?_⟩
  have below := (judged.mp tooLow).2
  rw [SentJob.ge_inForce enough unraised] at below
  cases below

namespace Regtest

/-- Job 1 is sent at a low difficulty, and then the timer puts another one in force. -/
def retargeted (difficulty : Number) : List (Event (Call packages) Answer) :=
  mining (.fin (1 / 10 ^ 10)) ++
    [.start (.checkDifficulty 0), .resume 4 (.suggests (some difficulty) 1700000060000)]

end Regtest

/-- The timer lowers the difficulty: a share for job 1 that was good enough is not too low. -/
theorem tooLow_iff_of_submitted_lowered : ∃ (q : Server Regtest.packages × List SentJob) (x : SentJob) (c : Client),
    x ∈ q.2 ∧ x.since = [.fin (1 / 10 ^ 11)] ∧ ¬ TooLow q.1.shared.service x.client c (Regtest.submission "00000004") := by
  obtain ⟨q, run, x, sent, since, c, session, job, d, share, enough, unraised⟩ := exists_reaches
    (recording (Server.step Regtest.config) sentJobs) Always (.initial Regtest.packages, [])
    (Regtest.retargeted (.fin (1 / 10 ^ 11)))
    (fun q => ∃ x ∈ q.2, x.since = [.fin (1 / 10 ^ 11)] ∧ ∃ c ∈ q.1.shared.clients[x.client]?,
      (Regtest.submission "00000004").jobId = x.jobId ∧
        ∃ d ∈ shareDifficulty q.1.shared.service (Regtest.submission "00000004"),
          d.ge x.atSending = true ∧ x.Unraised) (by decide +kernel)
  exact ⟨q, x, c, sent, since, (tooLow_iff_of_submitted run sent ⟨session, job, share⟩).2 enough unraised⟩

/-- The timer raises the difficulty: a share for job 1 that was good enough when the job was sent is
refused as too low, and the job is still in the store. -/
theorem not_tooLow_raised : ¬ ∀ (P : Packages) (config : StratumConfig) (q : Server P × List SentJob),
    Reaches (recording (Server.step config) sentJobs) Always (.initial P, []) q →
    ∀ (x : SentJob) (c : Client) (m : MiningSubmitMessage) (d : Number), x ∈ q.2 → x.Submitted q.1.shared c m d →
      d.ge x.atSending = true → ¬ TooLow q.1.shared.service x.client c m := by
  intro claim
  obtain ⟨q, run, x, sent, c, session, job, d, share, enough, unseen, below⟩ := exists_reaches
    (recording (Server.step Regtest.config) sentJobs) Always (.initial Regtest.packages, [])
    (Regtest.retargeted (.fin 1))
    (fun q => ∃ x ∈ q.2, ∃ c ∈ q.1.shared.clients[x.client]?, (Regtest.submission "00000004").jobId = x.jobId ∧
        ∃ d ∈ shareDifficulty q.1.shared.service (Regtest.submission "00000004"), d.ge x.atSending = true ∧
          (Regtest.submission "00000004").submissionHash ∉ c.miningSubmissionHashes ∧
            d.ge c.sessionDifficulty = false) (by decide +kernel)
  exact claim _ _ q run x c _ d sent ⟨session, job, share⟩ enough ((tooLow_iff share).mpr ⟨unseen, below⟩)

end ElektronPool.Stratum
