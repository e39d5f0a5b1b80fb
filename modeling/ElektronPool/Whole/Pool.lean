import ElektronPool.Async.Nested
import ElektronPool.Pplns.WindowDelay
import ElektronPool.Stratum.Steps

/-!
# The whole pool

The sessions and the PPLNS services meet at two places: the handler of an accepted share waits for
its row of the share log, and that of a block the node took for the split of the reward. Both sides are the models of
`Stratum.System` and `Pplns.PayoutScheduler`, in one run with one clock; each of them runs in it as it does alone
(`sides_of_run`).
-/

namespace ElektronPool.Whole
set_option autoImplicit false
open Js Async

/-! ## What passes between the two sides -/

/-- The number of a difficulty. A hash of zero would have none. -/
def difficultyOf : Number → ℚ
  | .fin d => d
  | _ => 0

/-- The row that `record` inserts. -/
def entityOf (r : Stratum.ShareRecord) : Pplns.PplnsShareEntity :=
  ⟨r.minerAddress, difficultyOf r.difficulty, r.timestamp, r.blockHeightAtSubmission⟩

section
variable {P : Stratum.Packages}

def recordOf (share : Stratum.Share P) (minerAddress : String) (timestamp : ℤ) : Stratum.ShareRecord :=
  ⟨minerAddress, share.submissionDifficulty, timestamp, share.jobTemplate.blockData.height, share.header⟩

/-- The calls of `record` and `processBlockFound` in `handleMiningSubmission`, and what their promises come to. -/
def interface (settings : Pplns.Settings) : Interface (Stratum.Call P) Stratum.Answer Pplns.Call Pplns.Answer where
  calls
    | _, .recording share minerAddress timestamp => some (.record (entityOf (recordOf share minerAddress timestamp)))
    | .returned .reportBlockFound nowMs, .awaiting share .processBlockFound =>
      let data := share.jobTemplate.blockData
      some (.reward (.processBlockFound settings nowMs data.height data.coinbasevalue))
    | _, _ => none
  waits
    | .recording .. | .awaiting _ .processBlockFound => true
    | _ => false
  own
    | .record _ | .reward _ => false
    | _ => true
  ends
    | .record _, _ | .reward _, .reward (.returned _) | .reward _, .reward (.rejected ..) => true
    | _, _ => false
  answers
    | .executed, .shareLogDone, .recorded true | .dbError, .shareLogDone, .recorded false => true
    | _, .reward (.returned _), .returned .processBlockFound _ => true
    | _, .reward (.rejected ..), .threw .processBlockFound => true
    | _, _, _ => false

end

/-! ## One clock -/

/-- The time at which an answer arrives, where the handler reads the clock. -/
def nowOf : Stratum.Answer → Option ℤ
  | .ran nowMs | .suggests _ nowMs | .template _ nowMs | .written _ nowMs | .returned _ nowMs => some nowMs
  | _ => none

/-- The sessions, and the services behind them. -/
abbrev Sides (P : Stratum.Packages) := Nested (Stratum.World P) (Stratum.Call P) Pplns.PplnsState Pplns.Call

abbrev SideEvent (P : Stratum.Packages) := NestedEvent (Stratum.Call P) Stratum.Answer Pplns.Call Pplns.Answer

structure World (P : Stratum.Packages) where
  pools : Sides P
  clock : ℤ

/-- Time passes, or something happens. -/
inductive PoolEvent (P : Stratum.Packages) where
  | pass (ms : ℕ)
  | happens (event : SideEvent P)

section
variable {P : Stratum.Packages} (config : Stratum.StratumConfig) (settings : Pplns.Settings)

/-- Who reads the clock reads this time. -/
def IsNow (clock : ℤ) : SideEvent P → Prop
  | .outer (.resume _ a) | .reply _ _ a => ∀ now ∈ nowOf a, now = clock
  | .inner (.start (.prune cutoffMs)) => cutoffMs = Pplns.pruneCutoffMs settings clock
  | _ => True

instance (clock : ℤ) : DecidablePred (IsNow (P := P) settings clock)
  | .outer (.start _) => .isTrue trivial
  | .outer (.resume _ a) => inferInstanceAs (Decidable (∀ now ∈ nowOf a, now = clock))
  | .reply _ _ a => inferInstanceAs (Decidable (∀ now ∈ nowOf a, now = clock))
  | .inner (.start (.prune cutoffMs)) => inferInstanceAs (Decidable (cutoffMs = Pplns.pruneCutoffMs settings clock))
  | .inner (.start (.record _)) | .inner (.start (.reward _)) | .inner (.start (.cycle _))
  | .inner (.start (.reconcile _)) | .inner (.start .shareLogDone) | .inner (.resume ..) => .isTrue trivial

namespace World

def step (w : World P) : PoolEvent P → Option (World P)
  | .pass ms => some { w with clock := w.clock + ms }
  | .happens e =>
    if IsNow settings w.clock e then
      (Nested.step (interface settings) Stratum.Call.isEntry (Stratum.Call.resume config) Pplns.Call.isEntry
        (Pplns.Call.resume settings) w.pools e).map fun pools => { w with pools := pools }
    else none

/-- The pool is started. -/
def initial (P : Stratum.Packages) (now : ℤ) : World P := ⟨⟨Stratum.Server.initial P, ⟨.empty, []⟩, fun _ => none⟩, now⟩

/-- What an event does to the two sides. -/
abbrev Moves (w : World P) (e : SideEvent P) (pools : Sides P) : Prop :=
  Nested.Moves (interface settings) Stratum.Call.isEntry (Stratum.Call.resume config) Pplns.Call.isEntry
    (Pplns.Call.resume settings) w.pools e pools

variable {config settings} {w w' : World P} {e : PoolEvent P}

theorem step_cases (moved : step config settings w e = some w') :
    (∃ ms : ℕ, e = .pass ms ∧ w' = { w with clock := w.clock + ms }) ∨
    ∃ e' pools, e = .happens e' ∧ IsNow settings w.clock e' ∧ Moves config settings w e' pools ∧
      w' = { w with pools := pools } := by
  cases e with
  | pass ms => exact .inl ⟨ms, rfl, (Option.some.inj moved).symm⟩
  | happens e' =>
    simp only [step] at moved
    split at moved
    · obtain ⟨pools, stepped, rfl⟩ := Option.map_eq_some_iff.mp moved
      exact .inr ⟨e', pools, rfl, ‹_›, Nested.moves_of_step stepped, rfl⟩
    · cases moved

end World

/-! ## What the handlers do for the other side -/

/-- Where a handler neither has a share to record nor waits for the services. -/
def idle : Stratum.Call P → Bool
  | .replyWritten _ | .recording .. | .awaiting _ .processBlockFound => false
  | _ => true

/-- The share log and the blocks stay as they are, and no share is to be recorded. -/
structure Aside (s : Stratum.World P) (r : Stratum.World P × Stratum.Call P) : Prop where
  accepted : r.1.accepted = s.accepted
  shareLog : r.1.shareLog = s.shareLog
  rewards : r.1.rewards = s.rewards
  idle : idle r.2 = true

/-- What a resumption of a handler is to the PPLNS services. -/
inductive Seen (s : Stratum.World P) :
    Stratum.Call P → Stratum.Answer → Stratum.World P → Stratum.Call P → Prop
  | aside {t t' : Stratum.Call P} {a : Stratum.Answer} {s' : Stratum.World P} (aside : Aside s (s', t'))
      (unrecorded : a ≠ .recorded true) : Seen s t a s' t'
  | accepted {i : ℕ} {m : Stratum.MiningSubmitMessage} {a : Stratum.Answer} {s' : Stratum.World P}
      (share : Stratum.Share P) (accepted : s'.accepted = s.accepted ++ [share]) (shareLog : s'.shareLog = s.shareLog)
      (rewards : s'.rewards = s.rewards) (positive : (Number.fin 0).lt share.submissionDifficulty = true) :
      Seen s (.submit i m) a s' (.replyWritten share)
  | answered (share : Stratum.Share P) (minerAddress : String) (nowMs : ℤ) :
      Seen s (.replyWritten share) (.written true nowMs) s (.recording share minerAddress nowMs)
  | recorded {t' : Stratum.Call P} {s' : Stratum.World P} (share : Stratum.Share P) (minerAddress : String)
      (timestamp : ℤ)
      (aside : Aside { s with shareLog := s.shareLog ++ [recordOf share minerAddress timestamp] } (s', t')) :
      Seen s (.recording share minerAddress timestamp) (.recorded true) s' t'
  | reported (share : Stratum.Share P) (nowMs : ℤ) :
      Seen s (.awaiting share .reportBlockFound) (.returned .reportBlockFound nowMs)
        { s with rewards := s.rewards ++
            [(share.jobTemplate.blockData.height, share.jobTemplate.blockData.coinbasevalue)] }
        (.awaiting share .processBlockFound)

section
variable {config} {s s' : Stratum.World P} {i : ℕ} {c : Stratum.Client} {t t' : Stratum.Call P} {a : Stratum.Answer}
  {share : Stratum.Share P}

theorem aside_send {template : Stratum.JobTemplate} {nowMs : ℤ} {ends : Bool} :
    Aside s (Stratum.Call.send config s i c template nowMs ends) := by
  obtain ⟨-, sent⟩ | ⟨-, sent⟩ | ⟨job, -, -, sent⟩ := Stratum.Call.send_cases config s i c template nowMs ends
  all_goals
    rw [sent]
    exact ⟨rfl, rfl, rfl, rfl⟩

theorem aside_refreshed {coinbaseAddress : String} {blockTemplate : Stratum.BlockTemplate} {nowMs : ℤ}
    {onNewBlock : Bool} :
    Aside s (Stratum.Call.refreshed config s i c coinbaseAddress blockTemplate nowMs onNewBlock) := by
  unfold Stratum.Call.refreshed
  split
  · exact ⟨rfl, rfl, rfl, rfl⟩
  · obtain ⟨accepted, shareLog, rewards, is_idle⟩ := aside_send
    exact ⟨accepted, shareLog, rewards, is_idle⟩

theorem aside_difficultyBuilt {coinbaseAddress : String} {blockTemplate : Stratum.BlockTemplate} {nowMs : ℤ} :
    Aside s (Stratum.Call.difficultyBuilt config s i c coinbaseAddress blockTemplate nowMs) := by
  unfold Stratum.Call.difficultyBuilt
  split
  · exact ⟨rfl, rfl, rfl, rfl⟩
  · obtain ⟨accepted, shareLog, rewards, is_idle⟩ := aside_send
    exact ⟨accepted, shareLog, rewards, is_idle⟩

theorem aside_work {r : Stratum.World P × Stratum.Call P} (branch : Stratum.Call.WorkBranch config s t a r) :
    Aside s r ∧ a ≠ .recorded true := by
  cases branch with
  | refreshed => exact ⟨aside_refreshed, nofun⟩
  | localWork | difficulty => exact ⟨aside_send, nofun⟩
  | difficultyBuilt => exact ⟨aside_difficultyBuilt, nofun⟩
  | _ => exact ⟨⟨rfl, rfl, rfl, rfl⟩, nofun⟩

theorem aside_throws (s : Stratum.World P) (i : ℕ) : Aside s (Stratum.Call.throws s i) := ⟨rfl, rfl, rfl, rfl⟩

theorem aside_checkBlock (s : Stratum.World P) (share : Stratum.Share P) : Aside s (Stratum.Call.checkBlock s share) := by
  unfold Stratum.Call.checkBlock
  split
  · dsimp only
    split
    · exact aside_throws s share.client
    · exact ⟨rfl, rfl, rfl, rfl⟩
  · exact ⟨rfl, rfl, rfl, rfl⟩

theorem aside_checkBest (s : Stratum.World P) (share : Stratum.Share P) : Aside s (Stratum.Call.checkBest s share) := by
  unfold Stratum.Call.checkBest
  split
  · exact aside_throws s share.client
  · split <;> exact ⟨rfl, rfl, rfl, rfl⟩

theorem aside_checkHeartbeat (s : Stratum.World P) (share : Stratum.Share P) (now : ℤ) :
    Aside s (Stratum.Call.checkHeartbeat s share now) := by
  unfold Stratum.Call.checkHeartbeat
  split
  · exact aside_checkBest s share
  · split
    · exact ⟨rfl, rfl, rfl, rfl⟩
    · exact aside_checkBest s share

theorem idle_afterDiscord : idle (Stratum.Call.afterDiscord config share) = true := by
  unfold Stratum.Call.afterDiscord
  split <;> rfl

theorem seen_afterStep (nowMs : ℤ) (step : Stratum.Step)
    (stepped : Stratum.Call.afterStep config s share nowMs step = (s', t')) :
    Seen s (.awaiting share step) (.returned step nowMs) s' t' := by
  have aside : ∀ {r}, Aside s r → r = (s', t') → Seen s (.awaiting share step) (.returned step nowMs) s' t' :=
    fun aside same => .aside (same ▸ aside) nofun
  cases step with
  | save =>
    simp only [Stratum.Call.afterStep] at stepped
    split at stepped
    · exact aside ⟨rfl, rfl, rfl, rfl⟩ stepped
    · exact aside ⟨rfl, rfl, rfl, idle_afterDiscord⟩ stepped
  | discordChannel => exact aside ⟨rfl, rfl, rfl, idle_afterDiscord⟩ stepped
  | telegramMessage pending =>
    obtain _ | _ | pending := pending
    all_goals exact aside ⟨rfl, rfl, rfl, rfl⟩ stepped
  | reportBlockFound =>
    cases stepped
    exact .reported share nowMs
  | addShares => exact aside (aside_checkHeartbeat s share nowMs) stepped
  | heartbeat now =>
    obtain ⟨accepted, shareLog, rewards, is_idle⟩ :=
      aside_checkBest (Stratum.Call.updateEntity s share fun e => { e with updatedAt := some now }) share
    exact aside ⟨accepted, shareLog, rewards, is_idle⟩ stepped
  | _ => exact aside ⟨rfl, rfl, rfl, rfl⟩ stepped

theorem aside_afterThrow (s : Stratum.World P) (share : Stratum.Share P) (step : Stratum.Step) :
    Aside s (Stratum.Call.afterThrow s share step) := by
  cases step with
  | processBlockFound | sessionBestDifficulty | addressBestDifficulty => exact ⟨rfl, rfl, rfl, rfl⟩
  | addShares | heartbeat => exact aside_checkBest s share
  | _ => exact aside_throws s share.client

/-- **A handler as the services see it.** -/
theorem seen_of_resume (resumed : Stratum.Call.resume config s t a = some (s', t')) : Seen s t a s' t' := by
  rw [Stratum.Call.resume, Option.or_eq_some_iff] at resumed
  obtain work | ⟨-, handled⟩ := resumed
  · obtain ⟨aside, unrecorded⟩ := aside_work (Stratum.Call.workBranch_of_resumeWork work)
    exact .aside aside unrecorded
  · have branch := Stratum.Call.shareBranch_of_resumeShare handled
    generalize same : (s', t') = r at branch
    cases branch with
    | judged m nowMs at_i =>
      rename_i i c
      cases judged : Stratum.handleMiningSubmission s.service i c m with
      | mk c' verdict =>
        rw [judged] at same
        cases verdict with
        | accepted share =>
          cases same
          refine .accepted share rfl rfl rfl ?_
          obtain ⟨job, template, header, -, -, -, -, -, rfl⟩ := Stratum.Call.accepted_of_handleMiningSubmission judged
          exact Stratum.submissionDifficulty_pos _
        | _ =>
          cases same
          exact .aside ⟨rfl, rfl, rfl, rfl⟩ (by rintro ⟨⟩)
    | unauthorized | recordFailed => exact .aside (same ▸ aside_checkBlock s _) (by rintro ⟨⟩)
    | authorized nowMs =>
      cases same
      exact .answered _ _ nowMs
    | recorded share minerAddress timestamp =>
      exact .recorded share minerAddress timestamp (same ▸ aside_checkBlock _ share)
    | submitted share response =>
      cases same
      refine .aside ⟨rfl, rfl, rfl, ?_⟩ (by rintro ⟨⟩)
      dsimp only
      split <;> rfl
    | subscribers share count =>
      cases same
      refine .aside ⟨rfl, rfl, rfl, ?_⟩ (by rintro ⟨⟩)
      dsimp only
      split <;> rfl
    | returned share nowMs => exact seen_afterStep nowMs _ same.symm
    | threw share step => exact .aside (same ▸ aside_afterThrow s share step) (by rintro ⟨⟩)
    | _ =>
      cases same
      exact .aside ⟨rfl, rfl, rfl, rfl⟩ (by rintro ⟨⟩)

end

/-! ## Each side for itself -/

section
variable {config settings} {t t' : Stratum.Call P} {a : Stratum.Answer}

/-- An inner call serves the handler that has made it. -/
def Serves (settings : Pplns.Settings) : Stratum.Call P → Pplns.Call → Prop
  | .recording share minerAddress timestamp, u => u = .record (entityOf (recordOf share minerAddress timestamp))
  | .awaiting share .processBlockFound, u => ∃ call, u = .reward call ∧ ∀ blockHeight reward windowStart,
      call = .shares blockHeight reward windowStart → ∃ nowMs, call = .processBlockFound settings nowMs
        share.jobTemplate.blockData.height share.jobTemplate.blockData.coinbasevalue
  | _, _ => True

theorem nextCredit_ne_shares {blockHeight fee distributable allocated height windowStart : ℤ} {reward sats : ℕ}
    (totals : OrderedMap String ℤ) :
    Pplns.RewardCall.nextCredit blockHeight reward fee distributable allocated totals ≠ .shares height sats windowStart := by
  induction totals with
  | nil => rintro ⟨⟩
  | cons entry rest ih =>
    simp only [Pplns.RewardCall.nextCredit]
    split
    · exact ih
    · rintro ⟨⟩

/-- A call reads its window once. -/
theorem ne_shares_of_resume {s s' : Pplns.PplnsState} {call call' : Pplns.RewardCall} {a : Pplns.Answer}
    (resumed : call.resume settings s a = some (s', call')) (height : ℤ) (sats : ℕ) (windowStart : ℤ) :
    call' ≠ .shares height sats windowStart := by
  unfold Pplns.RewardCall.resume at resumed
  split at resumed <;> cases resumed
  · simp only [Pplns.RewardCall.splitReward]
    split
    · rintro ⟨⟩
    · exact nextCredit_ne_shares _
  · exact nextCredit_ne_shares _
  all_goals rintro ⟨⟩

theorem calls_of_idle (is_idle : idle t = true) :
    (interface settings).calls a t = none ∧ (interface settings).waits t = false := by
  cases t with
  | awaiting share step =>
    cases step with
    | processBlockFound => cases is_idle
    | _ => cases a with
      | returned step' => cases step' <;> exact ⟨rfl, rfl⟩
      | _ => exact ⟨rfl, rfl⟩
  | recording | replyWritten => cases is_idle
  | _ => cases a with
    | returned step' => cases step' <;> exact ⟨rfl, rfl⟩
    | _ => exact ⟨rfl, rfl⟩

/-- What a handler has called. -/
theorem calls_cases {u : Pplns.Call} (called : (interface settings).calls a t = some u) :
    (∃ share minerAddress timestamp, t = .recording share minerAddress timestamp ∧
      u = .record (entityOf (recordOf share minerAddress timestamp))) ∨
    ∃ share nowMs, t = .awaiting share .processBlockFound ∧ a = .returned .reportBlockFound nowMs ∧
      u = .reward (.processBlockFound settings nowMs share.jobTemplate.blockData.height
        share.jobTemplate.blockData.coinbasevalue) := by
  cases t with
  | recording share minerAddress timestamp =>
    cases a <;> exact .inl ⟨share, minerAddress, timestamp, rfl, (Option.some.inj called).symm⟩
  | awaiting share step =>
    cases step with
    | processBlockFound =>
      cases a with
      | returned step' nowMs =>
        cases step' with
        | reportBlockFound => exact .inr ⟨share, nowMs, rfl, rfl, (Option.some.inj called).symm⟩
        | _ => cases called
      | _ => cases called
    | _ =>
      rw [(calls_of_idle rfl).1] at called
      cases called
  | replyWritten =>
    cases a with
    | returned step' => cases step' <;> cases called
    | _ => cases called
  | _ =>
    rw [(calls_of_idle rfl).1] at called
    cases called

theorem serving : Nested.Serving (interface settings) Stratum.Call.isEntry (Stratum.Call.resume (P := P) config)
    (Pplns.Call.resume settings) (Serves settings) where
  starts t entry := by cases t <;> first | rfl | cases entry
  waiting s t a s' t' resumed waits := by
    cases seen_of_resume resumed with
    | aside aside | recorded _ _ _ aside =>
      rw [(calls_of_idle (a := .rpcFailed) aside.idle).2] at waits
      cases waits
    | accepted => cases waits
    | answered => exact ⟨_, rfl⟩
    | reported => exact ⟨_, rfl⟩
  made a t u called := by
    obtain ⟨share, minerAddress, timestamp, rfl, rfl⟩ | ⟨share, nowMs, rfl, -, rfl⟩ := calls_cases called
    · rfl
    · exact ⟨_, rfl, fun _ _ _ _ => ⟨nowMs, rfl⟩⟩
  keeps s t u a' s' u' served resumed goes_on := by
    cases t with
    | recording =>
      subst served
      cases goes_on
    | awaiting share step =>
      cases step with
      | processBlockFound =>
        obtain ⟨call, rfl, -⟩ := served
        cases Pplns.Call.resumed_of_resume resumed with
        | reward step =>
          exact ⟨_, rfl, fun height sats windowStart same => absurd same (ne_shares_of_resume step height sats windowStart)⟩
      | _ => trivial
    | _ => trivial

variable {now : ℤ} {w : World P} {e : SideEvent P} {pools : Sides P}

/-- What an event does, by the inner call that it resumes: a call starts, one goes on, or a share gets its row. -/
inductive World.Does (settings : Pplns.Settings) (w : World P) : Option (Pplns.Call × Pplns.Answer) → Sides P → Prop
  | aside {pools : Sides P} (shareLog : pools.outer.shared.shareLog = w.pools.outer.shared.shareLog)
      (rewards : pools.outer.shared.rewards = w.pools.outer.shared.rewards) (inner : pools.inner = w.pools.inner) :
      Does settings w none pools
  | starts {pools : Sides P} {u : Pplns.Call} (shareLog : pools.outer.shared.shareLog = w.pools.outer.shared.shareLog)
      (rewards : pools.outer.shared.rewards = w.pools.outer.shared.rewards) (other : ∀ call, u ≠ .reward call)
      (prunes : ∀ cutoffMs, u = .prune cutoffMs → cutoffMs = Pplns.pruneCutoffMs settings w.clock)
      (inner : pools.inner = ⟨w.pools.inner.shared, w.pools.inner.calls ++ [u]⟩) : Does settings w none pools
  | found {pools : Sides P} (height coinbasevalue : ℕ)
      (shareLog : pools.outer.shared.shareLog = w.pools.outer.shared.shareLog)
      (rewards : pools.outer.shared.rewards = w.pools.outer.shared.rewards ++ [(height, coinbasevalue)])
      (inner : pools.inner = ⟨w.pools.inner.shared, w.pools.inner.calls ++
        [.reward (.processBlockFound settings w.clock height coinbasevalue)]⟩) : Does settings w none pools
  | resumes {pools : Sides P} {before after : List Pplns.Call} {u u' : Pplns.Call} {a' : Pplns.Answer} {r' : Pplns.PplnsState}
      (shareLog : pools.outer.shared.shareLog = w.pools.outer.shared.shareLog)
      (rewards : pools.outer.shared.rewards = w.pools.outer.shared.rewards)
      (unrecorded : ∀ share, u.shareLogWrite a' ≠ some (.record share)) (calls : w.pools.inner.calls = before ++ u :: after)
      (resumed : u.resume settings w.pools.inner.shared a' = some (r', u'))
      (inner : pools.inner = ⟨r', before ++ u' :: after⟩) : Does settings w (some (u, a')) pools
  | records {pools : Sides P} {before after : List Pplns.Call} (row : Stratum.ShareRecord)
      (shareLog : pools.outer.shared.shareLog = w.pools.outer.shared.shareLog ++ [row])
      (rewards : pools.outer.shared.rewards = w.pools.outer.shared.rewards)
      (calls : w.pools.inner.calls = before ++ .record (entityOf row) :: after)
      (inner : pools.inner = ⟨{ w.pools.inner.shared with shares := w.pools.inner.shared.shares ++ [entityOf row] },
        before ++ .shareLogDone :: after⟩) : Does settings w (some (.record (entityOf row), .executed)) pools

theorem set_append_cons {α : Type*} {l : List α} {j : ℕ} {u : α} (at_j : l[j]? = some u) (u' : α) :
    l = l.take j ++ u :: l.drop (j + 1) ∧ l.set j u' = l.take j ++ u' :: l.drop (j + 1) :=
  ⟨take_append_cons_drop at_j,
    by rw [List.set_eq_take_append_cons_drop, if_pos (List.getElem?_eq_some_iff.mp at_j).1]⟩

/-- What the end of `record` comes to. -/
theorem recorded_of_answers {a' : Pplns.Answer} (answers : (interface (P := P) settings).answers a' .shareLogDone a = true) :
    a' = .executed ∧ a = .recorded true ∨ a' = .dbError ∧ a = .recorded false := by
  cases a with
  | recorded success =>
    cases success <;> cases a' <;> first | exact .inl ⟨rfl, rfl⟩ | exact .inr ⟨rfl, rfl⟩ | cases answers
  | returned step => cases step <;> cases a' <;> cases answers
  | threw step => cases step <;> cases a' <;> cases answers
  | _ => cases a' <;> cases answers

/-- The handler that waits for the services goes on. -/
theorem World.does_reply {i j : ℕ} {a' : Pplns.Answer} {s' : Stratum.World P} {u u' : Pplns.Call} {r' : Pplns.PplnsState}
    (waits : (interface settings).waits t = true) (served : Serves settings t u) (at_j : w.pools.inner.calls[j]? = some u)
    (ended : u.resume settings w.pools.inner.shared a' = some (r', u'))
    (answers : (interface (P := P) settings).answers a' u' a = true) (seen : Seen w.pools.outer.shared t a s' t') :
    World.Does settings w (some (u, a')) (Nested.call (interface settings)
      ⟨⟨s', w.pools.outer.calls.set i t'⟩, ⟨r', w.pools.inner.calls.set j u'⟩, w.pools.waitsFor⟩ i a t') := by
  obtain ⟨calls, set⟩ := set_append_cons at_j u'
  cases t with
  | recording share minerAddress timestamp =>
    subst served
    have done : u' = .shareLogDone := by
      cases Pplns.Call.resumed_of_resume ended
      rfl
    subst done
    obtain ⟨rfl, rfl⟩ | ⟨rfl, rfl⟩ := recorded_of_answers answers
    · cases ended
      cases seen with
      | aside _ unrecorded => exact absurd rfl unrecorded
      | recorded _ _ _ aside =>
        rw [Nested.call_of_none (calls_of_idle aside.idle).1]
        exact .records _ aside.shareLog aside.rewards calls (by rw [set])
    · cases seen with
      | aside aside =>
        rw [Nested.call_of_none (calls_of_idle aside.idle).1]
        exact .resumes aside.shareLog aside.rewards (fun _ => nofun) calls ended (by rw [set])
  | awaiting share step =>
    cases step with
    | processBlockFound =>
      obtain ⟨call, rfl, -⟩ := served
      cases seen with
      | aside aside =>
        rw [Nested.call_of_none (calls_of_idle aside.idle).1]
        exact .resumes aside.shareLog aside.rewards (fun _ => nofun) calls ended (by rw [set])
    | _ => cases waits
  | _ => cases waits

/-- **What one event does to the whole pool.** -/
theorem World.does_of_moves (linked : Nested.Linked (interface settings) (Serves settings) w.pools)
    (is_now : IsNow settings w.clock e) (moves : World.Moves config settings w e pools) : World.Does settings w (w.pools.resumption e) pools := by
  cases moves with
  | outerStart => exact .aside rfl rfl rfl
  | outerResume at_i free resumed =>
    cases seen_of_resume resumed with
    | aside aside =>
      rw [Nested.call_of_none (calls_of_idle aside.idle).1]
      exact .aside aside.shareLog aside.rewards rfl
    | accepted share accepted shareLog rewards =>
      rw [Nested.call_of_none (by cases ‹Stratum.Answer› with
        | returned step => cases step <;> rfl
        | _ => rfl)]
      exact .aside shareLog rewards rfl
    | answered share minerAddress nowMs =>
      exact .starts (u := .record (entityOf (recordOf share minerAddress nowMs))) rfl rfl (fun _ => nofun) (fun _ => nofun)
        rfl
    | recorded => cases free
    | reported share nowMs =>
      have now : nowMs = w.clock := is_now nowMs rfl
      subst now
      exact .found share.jobTemplate.blockData.height share.jobTemplate.blockData.coinbasevalue rfl rfl rfl
  | @innerStart u own starts =>
    refine .starts rfl rfl (fun call same => ?_) (fun cutoffMs same => ?_) rfl
    · subst same
      cases own
    · subst same
      exact is_now
  | @innerResume j a' u u' r' at_j resumed goes_on =>
    obtain ⟨calls, set⟩ := set_append_cons at_j u'
    have here : w.pools.resumption (.inner (.resume j a') : SideEvent P) = some (u, a') := by
      rw [Nested.resumption, at_j, Option.map_some]
    rw [here]
    refine .resumes rfl rfl (fun share written => ?_) calls resumed (by rw [set])
    cases u with
    | record => cases goes_on
    | prune => cases a' <;> cases written
    | _ => cases written
  | @reply i j a a' t t' s' u u' r' at_i waits link at_j ended ends answers resumed =>
    have here : w.pools.resumption (.reply i a' a) = some (u, a') := by
      rw [Nested.resumption, link, Option.bind_some, at_j, Option.map_some]
    obtain ⟨j', v, link', at_j', served⟩ := linked.serves i t at_i waits
    cases link.symm.trans link'
    cases at_j.symm.trans at_j'
    rw [here]
    exact World.does_reply waits served at_j ended answers (seen_of_resume resumed)

/-- A run of the whole pool with a condition on either side, and its record. -/
theorem sides_of_run {γ : Type*} {record : γ → World P → PoolEvent P → World P → γ} {g₀ g : γ}
    {ok : World P × γ → PoolEvent P → Prop}
    {okServices : Pplns.Services → Pplns.ServiceEvent → Prop}
    (run : Reaches (recording (World.step config settings) record) ok (.initial P now, g₀) (w, g))
    (implies : ∀ q e, ok q (.happens e) → Nested.OnInner okServices q.1.pools e)
    (starts : ∀ p share, okServices p (.start (.record share)))
    (begins : ∀ p call, okServices p (.start (.reward call))) :
    Reaches (Stratum.Server.step config) Always (.initial P) w.pools.outer ∧
      Reaches (Pplns.Services.step settings) okServices ⟨.empty, []⟩ w.pools.inner ∧
      Nested.Linked (interface settings) (Serves settings) w.pools := by
  apply run.invariant_recording
  · exact ⟨.start, .start, Nested.linked_nil ..⟩
  · intro w g e w' holds allowed moved
    obtain ⟨ms, rfl, rfl⟩ | ⟨e', pools, rfl, -, moves, rfl⟩ := World.step_cases moved
    · exact holds
    · obtain ⟨sessions, services, linked⟩ := holds
      have entry : ∀ a t u, (interface (P := P) settings).calls a t = some u → Pplns.Call.isEntry u = true := by
        intro a t u called
        obtain ⟨_, _, _, -, rfl⟩ | ⟨_, _, -, -, rfl⟩ := calls_cases called <;> rfl
      have always : ∀ p a t u, (interface (P := P) settings).calls a t = some u → okServices p (.start u) := by
        intro p a t u called
        obtain ⟨_, _, _, -, rfl⟩ | ⟨_, _, -, -, rfl⟩ := calls_cases called
        · exact starts p _
        · exact begins p _
      refine ⟨sessions.trans (Nested.reaches_outer moves ?_),
        services.trans (Nested.reaches_inner moves entry always (implies _ _ allowed)),
        Nested.linked_step serving linked moves⟩
      cases e' with
      | inner => trivial
      | outer | reply => trivial

end

end

end ElektronPool.Whole
