import ElektronPool.Stratum.Regtest

/-!
# From a winning share to the reward split

A share whose hash is below the network target has to reach `SUBMIT_BLOCK`, and a block the
node takes has to reach `processBlockFound`. In between stand the session difficulty and the
reply to the miner, and then a row of awaits of which only the last one is guarded. Both
results are about one handler amid all others.
-/

namespace ElektronPool.Stratum
set_option autoImplicit false
open Js Bitcoin Async

/-- The awaits between the reply of the node and the reward computation. -/
def Step.surrounds : Step → Bool
  | .save | .discordGuild | .discordChannel | .telegramSubscriptions | .telegramMessage _ |
    .resetBestDifficultyAndShares | .reportBlockFound => true
  | _ => false

namespace Call
variable {P : Packages} {config : StratumConfig} {s s' : World P} {share : Share P} {step : Step} {t t' : Call P}
  {a : Answer}

/-- The places from which a handler neither submits a block nor computes a reward. -/
def isSettled : Call P → Bool
  | .errorWritten .. | .returned | .rejected => true
  | .awaiting _ step => !step.surrounds
  | _ => false

/-- A handler that has gone on to a settled place, without a block and without a reward. -/
structure Settles (s : World P) (r : World P × Call P) : Prop where
  blocks : r.1.blocksSubmitted = s.blocksSubmitted
  rewards : r.1.rewards = s.rewards
  settled : r.2.isSettled = true

theorem settles_throws (s : World P) (i : ℕ) : Settles s (throws s i) := ⟨rfl, rfl, rfl⟩

theorem settles_checkBest (s : World P) (share : Share P) : Settles s (checkBest s share) := by
  unfold checkBest
  split
  · exact settles_throws s share.client
  · split
    · exact ⟨rfl, rfl, rfl⟩
    · exact ⟨rfl, rfl, rfl⟩

theorem settles_checkHeartbeat (s : World P) (share : Share P) (now : ℤ) : Settles s (checkHeartbeat s share now) := by
  unfold checkHeartbeat
  split
  · exact settles_checkBest s share
  · split
    · exact ⟨rfl, rfl, rfl⟩
    · exact settles_checkBest s share

theorem settles_afterStep (s : World P) (share : Share P) (nowMs : ℤ) (behind : step.surrounds = false) :
    Settles s (afterStep config s share nowMs step) := by
  cases step with
  | processBlockFound | ensureClientEntity | sessionBestDifficulty | addressBestDifficulty => exact ⟨rfl, rfl, rfl⟩
  | addShares => exact settles_checkHeartbeat s share nowMs
  | heartbeat now =>
    obtain ⟨blocks, rewards, settled⟩ :=
      settles_checkBest (updateEntity s share fun e => { e with updatedAt := some now }) share
    exact ⟨blocks, rewards, settled⟩
  | _ => cases behind

theorem settles_afterThrow (s : World P) (share : Share P) (step : Step) : Settles s (afterThrow s share step) := by
  cases step with
  | processBlockFound | sessionBestDifficulty | addressBestDifficulty => exact ⟨rfl, rfl, rfl⟩
  | addShares | heartbeat => exact settles_checkBest s share
  | _ => exact settles_throws s share.client

theorem resume_awaiting_eq_some (resumed : resume config s (.awaiting share step) a = some (s', t')) :
    (∃ nowMs, a = .returned step nowMs ∧ step ≠ .telegramSubscriptions ∧
      (s', t') = afterStep config s share nowMs step) ∨
    (a = .threw step ∧ (s', t') = afterThrow s share step) ∨
    ∃ count, a = .subscribers count ∧ step = .telegramSubscriptions ∧ s' = s ∧
      t' = .awaiting share (if count = 0 then .resetBestDifficultyAndShares else .telegramMessage count) := by
  have shared : resumeShare config s (.awaiting share step) a = some (s', t') := resumed
  cases a with
  | returned step' nowMs =>
    simp only [resumeShare] at shared
    split at shared
    · rename_i same
      obtain ⟨rfl, other⟩ := same
      exact .inl ⟨nowMs, rfl, other, (Option.some.inj shared).symm⟩
    · cases shared
  | threw step' =>
    simp only [resumeShare] at shared
    split at shared
    · rename_i same
      subst same
      exact .inr (.inl ⟨rfl, (Option.some.inj shared).symm⟩)
    · cases shared
  | subscribers count =>
    cases step with
    | telegramSubscriptions =>
      cases shared
      exact .inr (.inr ⟨count, rfl, rfl, rfl, rfl⟩)
    | _ => cases shared
  | _ => cases step <;> cases shared

/-- Once settled, a handler stays so, and no surrounding step can throw any more. -/
theorem settles_of_resume (settled : t.isSettled = true) (resumed : resume config s t a = some (s', t')) :
    Settles s (s', t') ∧ ∀ step : Step, step.surrounds = true → a ≠ .threw step := by
  cases t with
  | errorWritten i code message =>
    cases a with
    | written success nowMs =>
      cases success <;>
      · cases resumed
        exact ⟨⟨rfl, rfl, rfl⟩, fun _ _ => nofun⟩
    | _ => cases resumed
  | awaiting share step =>
    have behind : step.surrounds = false := by simpa [isSettled] using settled
    obtain ⟨nowMs, rfl, -, result⟩ | ⟨rfl, result⟩ | ⟨count, rfl, rfl, -, -⟩ := resume_awaiting_eq_some resumed
    · exact ⟨result ▸ settles_afterStep s share nowMs behind, fun _ _ => nofun⟩
    · refine ⟨result ▸ settles_afterThrow s share step, ?_⟩
      rintro _ surrounds ⟨⟩
      rw [behind] at surrounds
      cases surrounds
    · cases behind
  | returned => cases resumed
  | rejected => cases resumed
  | _ => cases settled

/-- What a step before the reward computation leads to: the end of the handler if it throws, the
reward computation behind the last one, and the next step otherwise. -/
theorem surrounding_cases (surrounds : step.surrounds = true)
    (resumed : resume config s (.awaiting share step) a = some (s', t')) :
    (a = .threw step ∧ t' = .rejected ∧ s'.blocksSubmitted = s.blocksSubmitted ∧ s'.rewards = s.rewards) ∨
    ((∀ step, a ≠ .threw step) ∧ s'.blocksSubmitted = s.blocksSubmitted ∧
      ((t' = .awaiting share .processBlockFound ∧ s'.rewards =
        s.rewards ++ [(share.jobTemplate.blockData.height, share.jobTemplate.blockData.coinbasevalue)]) ∨
      ∃ next : Step, next.surrounds = true ∧ t' = .awaiting share next ∧ s'.rewards = s.rewards)) := by
  obtain ⟨nowMs, rfl, other, result⟩ | ⟨rfl, result⟩ | ⟨count, rfl, rfl, rfl, rfl⟩ := resume_awaiting_eq_some resumed
  · refine .inr ⟨fun _ => nofun, ?_⟩
    have afterDiscord_cases : ∃ next : Step, next.surrounds = true ∧ afterDiscord config share = .awaiting share next := by
      unfold afterDiscord
      split
      · exact ⟨_, rfl, rfl⟩
      · exact ⟨_, rfl, rfl⟩
    obtain ⟨next, next_surrounds, afterDiscord_eq⟩ := afterDiscord_cases
    cases step with
    | save =>
      simp only [afterStep] at result
      split at result
      · cases result
        exact ⟨rfl, .inr ⟨_, rfl, rfl, rfl⟩⟩
      · cases result
        exact ⟨rfl, .inr ⟨next, next_surrounds, afterDiscord_eq, rfl⟩⟩
    | discordGuild | resetBestDifficultyAndShares =>
      cases result
      exact ⟨rfl, .inr ⟨_, rfl, rfl, rfl⟩⟩
    | discordChannel =>
      cases result
      exact ⟨rfl, .inr ⟨next, next_surrounds, afterDiscord_eq, rfl⟩⟩
    | telegramMessage pending =>
      match pending with
      | 0 | 1 | _ + 2 =>
        cases result
        exact ⟨rfl, .inr ⟨_, rfl, rfl, rfl⟩⟩
    | reportBlockFound =>
      cases result
      exact ⟨rfl, .inl ⟨rfl, rfl⟩⟩
    | telegramSubscriptions => exact absurd rfl other
    | _ => cases surrounds
  · refine .inl ⟨rfl, ?_⟩
    cases step with
    | processBlockFound | ensureClientEntity | addShares | heartbeat | sessionBestDifficulty |
        addressBestDifficulty => cases surrounds
    | _ =>
      cases result
      exact ⟨rfl, rfl, rfl⟩
  · refine .inr ⟨fun _ => nofun, rfl, .inr ⟨_, ?_, rfl, rfl⟩⟩
    split <;> rfl

theorem silent_of_settled (settled : t.isSettled = true) (resumed : resume config s t a = some (s', t')) :
    s'.rewards = s.rewards ∧ t'.isSettled = true :=
  ⟨(settles_of_resume settled resumed).1.rewards, (settles_of_resume settled resumed).1.settled⟩

/-- The places behind the network test. -/
def isPast : Call P → Bool
  | .submitting _ | .awaiting .. => true
  | t => t.isSettled

theorem isPast_of_isSettled (settled : t.isSettled = true) : t.isPast = true := by
  cases t <;> first | rfl | exact settled

theorem isPast_checkBlock (s : World P) (share : Share P) : (checkBlock s share).2.isPast = true := by
  unfold checkBlock
  split
  · dsimp only
    split <;> rfl
  · rfl

/-- Behind the network test no handler submits a block. -/
theorem blocksSubmitted_of_past (past : t.isPast = true) (resumed : resume config s t a = some (s', t')) :
    s'.blocksSubmitted = s.blocksSubmitted ∧ t'.isPast = true := by
  cases t with
  | submitting share =>
    cases a with
    | submitted response =>
      cases resumed
      exact ⟨rfl, rfl⟩
    | _ => cases resumed
  | awaiting share step =>
    cases surrounds : step.surrounds with
    | true =>
      obtain ⟨-, rfl, blocks, -⟩ | ⟨-, blocks, ⟨rfl, -⟩ | ⟨next, -, rfl, -⟩⟩ := surrounding_cases surrounds resumed
      · exact ⟨blocks, rfl⟩
      · exact ⟨blocks, rfl⟩
      · exact ⟨blocks, rfl⟩
    | false =>
      have settled : (Call.awaiting share step).isSettled = true := by simp [isSettled, surrounds]
      obtain ⟨⟨blocks, -, still⟩, -⟩ := settles_of_resume settled resumed
      exact ⟨blocks, isPast_of_isSettled still⟩
  | errorWritten i code message =>
    obtain ⟨⟨blocks, -, still⟩, -⟩ := settles_of_resume rfl resumed
    exact ⟨blocks, isPast_of_isSettled still⟩
  | returned => cases resumed
  | rejected => cases resumed
  | _ => cases past

end Call

/-! ## From SUCCESS! to the reward split -/

section
variable {P : Packages} {config : StratumConfig} {share : Share P} {step : Step} {t' : Call P}
  {answers : List (World P × Answer)} {changes : List (World P × World P)}

/-- None of the awaits between the reply of the node and the reward computation throws. -/
def NothingThrown (answers : List (World P × Answer)) : Prop :=
  ∀ w ∈ answers, ∀ step : Step, step.surrounds = true → w.2 ≠ .threw step

theorem nothingThrown_of_settled {t : Call P} (settled : t.isSettled = true)
    (run : amid (Call.resume config) t answers = some (changes, t')) : NothingThrown answers := by
  induction answers generalizing t changes with
  | nil =>
    intro w member
    cases member
  | cons w rest ih =>
    obtain ⟨s₁, t₁, later, resumed, remaining, rfl⟩ := amid_cons.mp run
    obtain ⟨⟨-, -, still⟩, other⟩ := Call.settles_of_resume settled resumed
    intro v member
    obtain rfl | later := List.mem_cons.mp member
    · exact other
    · exact ih still remaining v later

/-- From a surrounding step on, the reward is computed once if nothing throws on the way, and
not at all otherwise. -/
theorem rewarded_of_surrounds (surrounds : step.surrounds = true)
    (run : amid (Call.resume config) (.awaiting share step) answers = some (changes, t'))
    (finished : t'.isFinished = true) :
    (NothingThrown answers ∧ appended (·.rewards) changes =
      [(share.jobTemplate.blockData.height, share.jobTemplate.blockData.coinbasevalue)]) ∨
    (¬ NothingThrown answers ∧ appended (·.rewards) changes = []) := by
  induction answers generalizing step changes with
  | nil =>
    cases run
    cases finished
  | cons w rest ih =>
    obtain ⟨s₁, t₁, later, resumed, remaining, rfl⟩ := amid_cons.mp run
    have settledAfter : ∀ {t : Call P}, t.isSettled = true → amid (Call.resume config) t rest = some (later, t') →
        appended (·.rewards) later = [] := fun settled remaining =>
      appended_eq_nil (fun _ _ _ _ _ => Call.silent_of_settled) settled remaining
    obtain ⟨threw, rfl, -, rewards⟩ | ⟨other, -, ⟨rfl, rewards⟩ | ⟨next, next_surrounds, rfl, rewards⟩⟩ :=
      Call.surrounding_cases surrounds resumed
    · refine .inr ⟨fun nothing => nothing w List.mem_cons_self step surrounds threw, ?_⟩
      rw [appended_cons_of_eq rewards]
      exact settledAfter rfl remaining
    · refine .inl ⟨?_, ?_⟩
      · intro v member
        obtain rfl | member := List.mem_cons.mp member
        · exact fun step _ => other step
        · exact nothingThrown_of_settled rfl remaining v member
      · rw [appended_cons_of_append rewards, settledAfter rfl remaining]
        rfl
    · have same : NothingThrown (w :: rest) ↔ NothingThrown rest := by
        constructor
        · exact fun nothing v member => nothing v (List.mem_cons_of_mem w member)
        · intro nothing v member
          obtain rfl | member := List.mem_cons.mp member
          · exact fun step _ => other step
          · exact nothing v member
      rw [same, appended_cons_of_eq rewards]
      exact ih next_surrounds remaining

end

/-- **A block that was accepted is split** exactly if no step between the reply of the node and
the reward computation throws, whatever the other handlers do meanwhile. -/
theorem rewarded_iff_nothingThrown {P : Packages} {config : StratumConfig} {share : Share P} {s : World P}
    {answers : List (World P × Answer)} {changes : List (World P × World P)} {t' : Call P}
    (run : amid (Call.resume config) (.submitting share) ((s, .submitted "SUCCESS!") :: answers) = some (changes, t'))
    (finished : t'.isFinished = true) :
    appended (·.rewards) changes =
      [(share.jobTemplate.blockData.height, share.jobTemplate.blockData.coinbasevalue)] ↔ NothingThrown answers := by
  obtain ⟨s₁, t₁, later, resumed, remaining, rfl⟩ := amid_cons.mp run
  cases resumed
  rw [appended_cons_of_eq rfl]
  have first : Step.save.surrounds = true := rfl
  obtain ⟨nothing, once⟩ | ⟨something, none⟩ := rewarded_of_surrounds first remaining finished
  · exact ⟨fun _ => nothing, fun _ => once⟩
  · rw [none]
    exact ⟨nofun, fun nothing => absurd nothing something⟩

namespace Regtest

/-- The events up to the reply of the node to the block of a share. -/
def oneBlock : List (Event (Call packages) Answer) :=
  mining (.fin (1 / 10 ^ 10)) ++
    [.start (.submit 0 (submission "00000002")), .resume 4 (.ran 1700000001000),
      .resume 4 (.written true 1700000001000), .resume 4 (.recorded true)]

/-- The first accepted share is submitted, and its handler goes on alone with these answers. -/
def Goes (s : World packages) (answers : List Answer)
    (q : Share packages → List (World packages × World packages) → List (World packages × Answer) → Prop) : Prop :=
  ∃ share ∈ s.accepted.head?,
    let later := alone (Call.resume config) s (.awaiting share .save) answers
    ∃ r ∈ amid (Call.resume config) (.submitting share) ((s, .submitted "SUCCESS!") :: later),
      r.2.isFinished = true ∧ q share r.1 later

instance {s : World packages} {answers : List Answer}
    {q : Share packages → List (World packages × World packages) → List (World packages × Answer) → Prop}
    [∀ share changes later, Decidable (q share changes later)] : Decidable (Goes s answers q) := by
  unfold Goes
  infer_instance

end Regtest

/-- Nothing throws. -/
theorem rewarded_iff_nothingThrown_all_return : ∃ (share : Share Regtest.packages) (s : World Regtest.packages)
    (answers : List (World Regtest.packages × Answer))
    (changes : List (World Regtest.packages × World Regtest.packages)) (t' : Call Regtest.packages),
    amid (Call.resume Regtest.config) (.submitting share) ((s, .submitted "SUCCESS!") :: answers) = some (changes, t') ∧
      appended (·.rewards) changes =
        [(share.jobTemplate.blockData.height, share.jobTemplate.blockData.coinbasevalue)] := by
  obtain ⟨p, -, share, -, ⟨changes, t'⟩, run, finished, returns⟩ := exists_reaches (Server.step Regtest.config) Always
    (.initial Regtest.packages) Regtest.oneBlock
    (fun p => Regtest.Goes p.shared (Regtest.allReturn 1700000001000) fun _ _ later =>
      ∀ w ∈ later, (w.2 matches .threw _) = false)
    (by decide +kernel)
  refine ⟨share, _, _, changes, t', run, (rewarded_iff_nothingThrown run finished).mpr fun w member step _ threw => ?_⟩
  have returned := returns w member
  rw [threw] at returned
  cases returned

/-- The first message of the Telegram bot fails. -/
theorem not_rewarded_telegram : ¬ ∀ (P : Packages) (config : StratumConfig) (share : Share P) (s : World P)
    (answers : List (World P × Answer)) (changes : List (World P × World P)) (t' : Call P),
    amid (Call.resume config) (.submitting share) ((s, .submitted "SUCCESS!") :: answers) = some (changes, t') →
    t'.isFinished = true → appended (·.rewards) changes =
      [(share.jobTemplate.blockData.height, share.jobTemplate.blockData.coinbasevalue)] := by
  intro claim
  obtain ⟨p, -, share, -, ⟨changes, t'⟩, run, finished, none⟩ := exists_reaches (Server.step Regtest.config) Always
    (.initial Regtest.packages) Regtest.oneBlock
    (fun p => Regtest.Goes p.shared
      [.returned .save 1700000001000, .subscribers 1, .threw (.telegramMessage 1)]
      fun _ changes _ => appended (·.rewards) changes = [])
    (by decide +kernel)
  have rewarded := claim _ _ _ _ _ _ _ run finished
  rw [none] at rewarded
  cases rewarded

/-! ## From the share to SUBMIT_BLOCK -/

section
variable {P : Packages} {config : StratumConfig} {s : World P} {share : Share P} {t' : Call P}
  {answers : List (World P × Answer)} {changes : List (World P × World P)}

theorem submitted_of_past {t : Call P} (past : t.isPast = true)
    (run : amid (Call.resume config) t answers = some (changes, t')) : appended (·.blocksSubmitted) changes = [] :=
  appended_eq_nil (fun _ _ _ _ _ => Call.blocksSubmitted_of_past) past run

/-- A share below the network target is submitted, with its own header. -/
theorem checkBlock_eq (headerFirst : P.HeaderFirst)
    (clones : share.job.cloneCoinbaseTransaction = some share.job.coinbaseTransaction)
    (built : share.job.buildHeaderBuffer share.jobTemplate share.submission.versionMaskNumber
      share.submission.nonceNumber share.submission.timestampNumber = some share.header)
    (small : share.submissionDifficulty.ge share.jobTemplate.blockData.networkDifficulty = true) :
    ∃ body, Call.checkBlock s share =
      ({ s with blocksSubmitted := s.blocksSubmitted ++ [share.header ++ body] }, .submitting share) := by
  obtain ⟨block, copied, header⟩ := MiningJob.header_copyAndUpdateBlock share.jobTemplate
    share.submission.versionMaskNumber share.submission.nonceNumber share.submission.timestampNumber clones
  obtain ⟨body, serialized⟩ := headerFirst block
  refine ⟨body, ?_⟩
  rw [Call.checkBlock, if_pos small]
  dsimp only
  rw [copied, Option.bind_some, serialized, header, built]
  rfl

/-- Once the share log was written, or has failed, the block goes out. -/
theorem submitted_of_checkBlock {before s₁ : World P} {t₁ : Call P} {later : List (World P × World P)}
    (headerFirst : P.HeaderFirst) (clones : share.job.cloneCoinbaseTransaction = some share.job.coinbaseTransaction)
    (built : share.job.buildHeaderBuffer share.jobTemplate share.submission.versionMaskNumber
      share.submission.nonceNumber share.submission.timestampNumber = some share.header)
    (small : share.submissionDifficulty.ge share.jobTemplate.blockData.networkDifficulty = true)
    (same : before.blocksSubmitted = s.blocksSubmitted) (checked : Call.checkBlock before share = (s₁, t₁))
    (remaining : amid (Call.resume config) t₁ answers = some (later, t')) :
    ∃ body, appended (·.blocksSubmitted) ((s, s₁) :: later) = [share.header ++ body] := by
  obtain ⟨body, submitted⟩ := checkBlock_eq (s := before) headerFirst clones built small
  rw [submitted] at checked
  cases checked
  have grows : { before with blocksSubmitted := before.blocksSubmitted ++ [share.header ++ body] }.blocksSubmitted =
      s.blocksSubmitted ++ [share.header ++ body] := by rw [same]
  exact ⟨body, by rw [appended_cons_of_append grows, submitted_of_past rfl remaining, List.append_nil]⟩

/-- From the reply to the miner on, a share below the network target is submitted exactly if the
reply was written. -/
theorem submitted_of_replyWritten (share : Share P) (headerFirst : P.HeaderFirst)
    (clones : share.job.cloneCoinbaseTransaction = some share.job.coinbaseTransaction)
    (built : share.job.buildHeaderBuffer share.jobTemplate share.submission.versionMaskNumber
      share.submission.nonceNumber share.submission.timestampNumber = some share.header)
    (small : share.submissionDifficulty.ge share.jobTemplate.blockData.networkDifficulty = true)
    (run : amid (Call.resume config) (.replyWritten share) answers = some (changes, t'))
    (finished : t'.isFinished = true) :
    (∃ body, appended (·.blocksSubmitted) changes = [share.header ++ body]) ↔
      ∃ w ∈ answers, ∃ nowMs, w.2 = .written true nowMs := by
  cases answers with
  | nil =>
    cases run
    cases finished
  | cons w rest =>
    obtain ⟨s, a⟩ := w
    obtain ⟨s₁, t₁, later, resumed, remaining, rfl⟩ := amid_cons.mp run
    have shared : Call.resumeShare config s (.replyWritten share) a = some (s₁, t₁) := resumed
    cases a with
    | written success nowMs =>
      cases success with
      | true =>
        refine iff_of_true ?_ ⟨_, List.mem_cons_self, nowMs, rfl⟩
        simp only [Call.resumeShare] at shared
        split at shared
        · split at shared
          · exact submitted_of_checkBlock headerFirst clones built small rfl (Option.some.inj shared) remaining
          · -- the handler still waits for the share log
            cases shared
            rw [appended_cons_of_eq rfl]
            cases rest with
            | nil =>
              cases remaining
              cases finished
            | cons v rest =>
              obtain ⟨s₂, b⟩ := v
              obtain ⟨s₃, t₃, last, recorded, remaining', rfl⟩ := amid_cons.mp remaining
              have shared : Call.resumeShare config s₂ (.recording share _ _) b = some (s₃, t₃) := recorded
              cases b with
              | recorded success =>
                cases success <;>
                · refine submitted_of_checkBlock headerFirst clones built small ?_ (Option.some.inj shared) remaining'
                  rfl
              | _ => cases shared
        · cases shared
      | false =>
        cases shared
        obtain ⟨rfl, rfl, -⟩ := amid_of_stuck (fun _ _ => rfl) remaining
        refine iff_of_false ?_ ?_
        · rintro ⟨body, submitted⟩
          simp [appended, World.updateClient] at submitted
        · rintro ⟨w, member, later, written⟩
          cases List.mem_singleton.mp member
          cases written
    | _ => cases shared

end

/-- A submission of session `i` that wins: its job and template are in the store, it is no
duplicate, and the hash of its header is within the target of the template. The copy of the
coinbase is the coinbase. -/
structure Winning {P : Packages} (s : World P) (i : ℕ) (c : Client) (m : MiningSubmitMessage) (job : MiningJob P)
    (t : JobTemplate) (header : Buffer) : Prop where
  client : s.clients[i]? = some c
  found : s.service.getJobById m.jobId = some job
  foundTemplate : s.service.getJobTemplateById job.jobTemplateId = some t
  unseen : m.submissionHash ∉ c.miningSubmissionHashes
  clones : job.cloneCoinbaseTransaction = some job.coinbaseTransaction
  built : job.buildHeaderBuffer t m.versionMaskNumber m.nonceNumber m.timestampNumber = some header
  small : (P.hash256 header).value ≤ target t.block.bits

/-- **A winning share reaches the node** exactly if it meets the difficulty of its session and
the reply to the miner is written. -/
theorem submitted_iff_meets {P : Packages} (headerFirst : P.HeaderFirst) {config : StratumConfig} {s : World P}
    {i : ℕ} {c : Client} {m : MiningSubmitMessage} {job : MiningJob P} {t : JobTemplate} {header : Buffer} {nowMs : ℤ}
    {answers : List (World P × Answer)} {changes : List (World P × World P)} {t' : Call P}
    (winning : Winning s i c m job t header)
    (run : amid (Call.resume config) (.submit i m) ((s, .ran nowMs) :: answers) = some (changes, t'))
    (finished : t'.isFinished = true) :
    (∃ body, appended (·.blocksSubmitted) changes = [header ++ body]) ↔
      Meets (P.hash256 header).value c.sessionDifficulty ∧ ∃ w ∈ answers, ∃ nowMs, w.2 = .written true nowMs := by
  obtain ⟨at_i, found, foundTemplate, unseen, clones, built, small⟩ := winning
  obtain ⟨s₁, t₁, later, resumed, remaining, rfl⟩ := amid_cons.mp run
  have shared : Call.resumeShare config s (.submit i m) (.ran nowMs) = some (s₁, t₁) := resumed
  simp only [Call.resumeShare, at_i, Option.map_some,
    handleMiningSubmission_eq found foundTemplate unseen built] at shared
  have network : (calculateDifficulty P.hash256 header).ge t.blockData.networkDifficulty = true := by
    rw [t.networkDifficulty_eq]
    exact ge_networkDifficulty.mpr small
  split at shared
  · rename_i accepted
    have meets : Meets (P.hash256 header).value c.sessionDifficulty := ge_submissionDifficulty.mp accepted
    cases shared
    have replied := submitted_of_replyWritten ⟨i, m, job, t, header, calculateDifficulty P.hash256 header⟩ headerFirst
      clones built network remaining finished
    rw [appended_cons_of_eq, replied]
    · exact ⟨fun written => ⟨meets, written⟩, fun both => both.2⟩
    · rfl
  · rename_i refused
    cases shared
    rw [appended_cons_of_eq, submitted_of_past rfl remaining]
    · constructor
      · rintro ⟨body, submitted⟩
        cases submitted
      · exact fun both => absurd (ge_submissionDifficulty.mpr both.1) refused
    · rfl

namespace Regtest

/-- The first session can win with nonce 2, and goes on alone with these answers. -/
def Wins (s : World packages) (answers : List Answer) (q : Client → Buffer → List (World packages × World packages) →
    List (World packages × Answer) → Prop) : Prop :=
  let m := submission "00000002"
  ∃ c ∈ s.clients[0]?, ∃ job ∈ s.service.getJobById m.jobId,
    ∃ t ∈ s.service.getJobTemplateById job.jobTemplateId, m.submissionHash ∉ c.miningSubmissionHashes ∧
      job.cloneCoinbaseTransaction = some job.coinbaseTransaction ∧
      ∃ header ∈ job.buildHeaderBuffer t m.versionMaskNumber m.nonceNumber m.timestampNumber,
        (packages.hash256 header).value ≤ target t.block.bits ∧
        ∃ first ∈ Call.resume config s (.submit 0 m) (.ran 1700000001000),
          let later := alone (Call.resume config) first.1 first.2 answers
          ∃ r ∈ amid (Call.resume config) (.submit 0 m) ((s, .ran 1700000001000) :: later),
            r.2.isFinished = true ∧ q c header r.1 later

instance {s : World packages} {answers : List Answer} {q : Client → Buffer → List (World packages × World packages) →
    List (World packages × Answer) → Prop} [∀ c header changes later, Decidable (q c header changes later)] :
    Decidable (Wins s answers q) := by
  unfold Wins
  infer_instance

end Regtest

/-- The winning share of a session with a low difficulty is submitted. -/
theorem submitted_iff_meets_low_difficulty : ∃ (s : World Regtest.packages) (answers : List (World Regtest.packages × Answer))
    (changes : List (World Regtest.packages × World Regtest.packages)) (t' : Call Regtest.packages),
    amid (Call.resume Regtest.config) (.submit 0 (Regtest.submission "00000002")) ((s, .ran 1700000001000) :: answers) =
      some (changes, t') ∧
    ∃ header body, (Regtest.packages.hash256 header).value ≤ target 0x207fffff ∧
      appended (·.blocksSubmitted) changes = [header ++ body] := by
  obtain ⟨p, -, wins⟩ := exists_reaches (Server.step Regtest.config) Always (.initial Regtest.packages)
    (Regtest.mining (.fin (1 / 10 ^ 10)))
    (fun p => Regtest.Wins p.shared (.written true 1700000001000 :: .recorded true :: .submitted "SUCCESS!" ::
        Regtest.allReturn 1700000001000)
      fun c header _ later => (calculateDifficulty Regtest.packages.hash256 header).ge c.sessionDifficulty = true ∧
        (Regtest.packages.hash256 header).value ≤ target 0x207fffff ∧ ∃ w ∈ later, w.2 = .written true 1700000001000)
    (by decide +kernel)
  obtain ⟨c, client, job, found, t, foundTemplate, unseen, clones, header, built, small, first, -, ⟨changes, t'⟩, run,
    finished, meets, low, w, member, written⟩ := wins
  have headerFirst : Regtest.packages.HeaderFirst := Packages.headerFirst_standard _ _ _
  obtain ⟨body, submitted⟩ :=
    (submitted_iff_meets headerFirst ⟨client, found, foundTemplate, unseen, clones, built, small⟩ run finished).mpr
      ⟨ge_submissionDifficulty.mp meets, w, member, _, written⟩
  exact ⟨_, _, changes, t', run, header, body, low, submitted⟩

/-- A session with the difficulty it starts with loses the block. -/
theorem not_submitted_high_difficulty : ¬ ∀ (P : Packages) (config : StratumConfig) (s : World P) (i : ℕ) (c : Client)
    (m : MiningSubmitMessage) (job : MiningJob P) (t : JobTemplate) (header : Buffer) (nowMs : ℤ)
    (answers : List (World P × Answer)) (changes : List (World P × World P)) (t' : Call P), P.HeaderFirst →
    Winning s i c m job t header →
    amid (Call.resume config) (.submit i m) ((s, .ran nowMs) :: answers) = some (changes, t') → t'.isFinished = true →
    ∃ body, appended (·.blocksSubmitted) changes = [header ++ body] := by
  intro claim
  obtain ⟨p, -, wins⟩ := exists_reaches (Server.step Regtest.config) Always (.initial Regtest.packages)
    (Regtest.mining (.fin 100000))
    (fun p => Regtest.Wins p.shared [.written true 1700000001000]
      fun _ _ changes _ => appended (·.blocksSubmitted) changes = [])
    (by decide +kernel)
  obtain ⟨c, client, job, found, t, foundTemplate, unseen, clones, header, built, small, first, -, ⟨changes, t'⟩, run,
    finished, none⟩ := wins
  have headerFirst : Regtest.packages.HeaderFirst := Packages.headerFirst_standard _ _ _
  obtain ⟨body, submitted⟩ := claim _ _ _ _ _ _ _ _ _ _ _ _ _ headerFirst
    ⟨client, found, foundTemplate, unseen, clones, built, small⟩ run finished
  rw [none] at submitted
  cases submitted

end ElektronPool.Stratum
