import ElektronPool.Stratum.BlockFound
import ElektronPool.Stratum.Headers

/-!
# Replies that come late

Several `getblocktemplate` calls may be under way at once, and their replies come in any order.
A reply for a lower height than one before is taken like any other: its height is remembered,
so the next template of the higher height counts as a new tip (`clears_of_lateReply`), the
store is emptied, and the session goes back to the old template (`lateReply_built`).
-/

namespace ElektronPool.Stratum
set_option autoImplicit false
open Js Bitcoin Async

section
variable {P : Packages} {config : StratumConfig}

/-- The reply of the node that an event brings. -/
def Server.reply (p : Server P) : Event (Call P) Answer → Option Reply
  | .start _ => none
  | .resume k a => p.calls[k]?.bind fun t => t.reply a

theorem Server.reply_resume {p : Server P} {before after : List (Call P)} {t : Call P}
    (calls : p.calls = before ++ t :: after) (a : Answer) : p.reply (.resume before.length a) = t.reply a := by
  simp [Server.reply, calls]

/-! ## All replies are for the pool wallet -/

namespace Call
variable {s s' : World P} {t t' : Call P} {a : Answer}

/-- The address a call asks the node for a template for. -/
def coinbaseAddress : Call P → Option String
  | .refreshTemplate _ coinbaseAddress _ | .difficultyTemplate _ coinbaseAddress => some coinbaseAddress
  | _ => none

theorem coinbaseAddress_of_reply {r : Reply} (replied : t.reply a = some r) : t.coinbaseAddress = some r.coinbaseAddress := by
  unfold reply at replied
  split at replied
  · cases replied
    rfl
  · cases replied
    rfl
  · cases replied

theorem coinbaseAddress_of_past (past : t.isPast = true) : t.coinbaseAddress = none := by
  cases t <;> first | rfl | cases past

theorem coinbaseAddress_of_isEntry (entry : t.isEntry = true) : t.coinbaseAddress = none := by
  cases t <;> first | rfl | cases entry

theorem coinbaseAddress_send {i : ℕ} {c : Client} {template : JobTemplate} {nowMs : ℤ} {ends : Bool} :
    (send config s i c template nowMs ends).2.coinbaseAddress = none := by
  obtain ⟨-, sent⟩ | ⟨-, sent⟩ | ⟨job, -, -, sent⟩ := send_cases config s i c template nowMs ends <;> rw [sent] <;> rfl

theorem coinbaseAddress_refreshed {i : ℕ} {c : Client} {address : String} {blockTemplate : BlockTemplate} {nowMs : ℤ}
    {onNewBlock : Bool} : (refreshed config s i c address blockTemplate nowMs onNewBlock).2.coinbaseAddress = none := by
  unfold refreshed
  split
  · rfl
  · exact coinbaseAddress_send

theorem coinbaseAddress_difficultyBuilt {i : ℕ} {c : Client} {address : String} {blockTemplate : BlockTemplate}
    {nowMs : ℤ} : (difficultyBuilt config s i c address blockTemplate nowMs).2.coinbaseAddress = none := by
  unfold difficultyBuilt
  split
  · rfl
  · exact coinbaseAddress_send

theorem WorkBranch.coinbaseAddress {r : World P × Call P} (branch : WorkBranch config s t a r) :
    ∀ address ∈ r.2.coinbaseAddress, config.getPoolWalletAddress = some address := by
  have of_none : r.2.coinbaseAddress = none → ∀ address ∈ r.2.coinbaseAddress, config.getPoolWalletAddress = some address := by
    intro none address member
    rw [none] at member
    cases member
  cases branch with
  | asks _ _ _ _ configured | asksForDifficulty _ _ _ _ configured =>
    intro address member
    cases member
    exact configured
  | refreshed => exact of_none coinbaseAddress_refreshed
  | localWork | difficulty => exact of_none coinbaseAddress_send
  | difficultyBuilt => exact of_none coinbaseAddress_difficultyBuilt
  | _ => exact of_none rfl

theorem coinbaseAddress_of_resumeShare {r : World P × Call P} (resumed : resumeShare config s t a = some r) :
    r.2.coinbaseAddress = none := by
  have branch := shareBranch_of_resumeShare resumed
  have aside : resumeWork config s t a = none := by cases branch <;> rfl
  have whole : resume config s t a = some r := Option.or_eq_some_iff.mpr (.inr ⟨aside, resumed⟩)
  cases branch with
  | judged m nowMs at_i =>
    generalize handleMiningSubmission s.service _ _ m = verdict
    obtain ⟨c, refused | threw | accepted⟩ := verdict <;> rfl
  | authorized | replyFailed => rfl
  | unauthorized | recorded | recordFailed => exact coinbaseAddress_of_past (isPast_checkBlock _ _)
  | _ => exact coinbaseAddress_of_past (blocksSubmitted_of_past rfl whole).2

end Call

/-- Every call that asks for a template asks for one for the pool wallet. -/
theorem coinbaseAddress_run {ok : Server P → Event (Call P) Answer → Prop} {p : Server P}
    (run : Reaches (Server.step config) ok (.initial P) p) :
    ∀ t ∈ p.calls, ∀ address ∈ t.coinbaseAddress, config.getPoolWalletAddress = some address := by
  apply run.invariant
  · intro t member
    cases member
  · intro p e p' all _ moved
    obtain ⟨t, rfl, start, rfl⟩ | ⟨before, t, after, a, s', t', rfl, calls, resumed, rfl⟩ := Pool.step_cases moved
    · intro u member
      obtain old | new := List.mem_append.mp member
      · exact all u old
      · cases List.mem_singleton.mp new
        rw [Call.coinbaseAddress_of_isEntry start]
        exact nofun
    · intro u member
      obtain old | rfl | old : u ∈ before ∨ u = t' ∨ u ∈ after := by
        simpa using member
      · exact all u (by simp [calls, old])
      · rw [Call.resume, Option.or_eq_some_iff] at resumed
        obtain work | ⟨-, share⟩ := resumed
        · exact (Call.workBranch_of_resumeWork work).coinbaseAddress
        · rw [Call.coinbaseAddress_of_resumeShare share]
          exact nofun
      · exact all u (by simp [calls, old])

/-! ## What a late reply does -/

/-- No reply for a height. -/
def NoReply (height : ℕ) (p : Server P) (e : Event (Call P) Answer) : Prop :=
  ∀ r ∈ p.reply e, r.blockTemplate.height ≠ height

/-- In a run from the start, a reply for a height has been taken before the state `p`, and now comes
one for a lower height. -/
structure LateReply (config : StratumConfig) (height : ℕ) (p p' : Server P) (r : Reply) : Prop where
  earlier : ∃ p₁ e₁ p₂ r₁, Reaches (Server.step config) Always (.initial P) p₁ ∧ p₁.reply e₁ = some r₁ ∧
    r₁.blockTemplate.height = height ∧ Server.step config p₁ e₁ = some p₂ ∧ Reaches (Server.step config) Always p₂ p
  now : ∃ e, p.reply e = some r ∧ Server.step config p e = some p'
  lower : r.blockTemplate.height < height

/-- What a late reply has to leave alone: the jobs and the templates of the higher height, the next
template of that height, which is for no new tip, and the sessions that work on it. -/
structure Harmless (config : StratumConfig) (height : ℕ) (p p' : Server P) : Prop where
  jobs : ∀ e ∈ p.shared.service.jobs,
    (∃ t ∈ p.shared.service.getJobTemplateById e.2.jobTemplateId, t.blockData.height = height) →
      e ∈ p'.shared.service.jobs
  templates : ∀ e ∈ p.shared.service.blocks, e.2.blockData.height = height → e ∈ p'.shared.service.blocks
  next : ∀ q, Reaches (Server.step config) (NoReply height) p' q → ∀ address ∈ config.getPoolWalletAddress,
    q.shared.service.clearsJobs address height = false
  sessions : ∀ (i : ℕ) (c c' : Client) (t t' : JobTemplate), p.shared.clients[i]? = some c →
    c.currentJobTemplate = some t → t.blockData.height = height → p'.shared.clients[i]? = some c' →
    c'.currentJobTemplate = some t' → height ≤ t'.blockData.height

variable {p p' q : Server P} {e : Event (Call P) Answer} {r : Reply} {height : ℕ}

/-- Beside what a reply does, a step only files a job. -/
theorem Call.service_of_resume {s s' : World P} {t t' : Call P} {a : Answer}
    (resumed : Call.resume config s t a = some (s', t')) :
    s'.service.blocks = (s.service.afterReply (t.reply a)).blocks ∧
      s'.service.lastTemplateHeightByAddress = (s.service.afterReply (t.reply a)).lastTemplateHeightByAddress := by
  cases outcome_of_work (Call.work_of_resume resumed) with
  | unsent service notifies =>
    rw [service]
    exact ⟨rfl, rfl⟩
  | sent dispatched isOpen made service notifies =>
    rw [service]
    exact ⟨rfl, rfl⟩

/-- What one event does to the heights that are remembered. -/
theorem heights_step (moved : Server.step config p e = some p') : p'.shared.service.lastTemplateHeightByAddress =
    match p.reply e with
    | none => p.shared.service.lastTemplateHeightByAddress
    | some r => p.shared.service.lastTemplateHeightByAddress.set r.coinbaseAddress r.blockTemplate.height := by
  obtain ⟨t, rfl, start, rfl⟩ | ⟨before, t, after, a, s', t', rfl, calls, resumed, rfl⟩ := Pool.step_cases moved
  · rfl
  · rw [Server.reply_resume calls]
    show s'.service.lastTemplateHeightByAddress = _
    rw [(Call.service_of_resume resumed).2]
    cases t.reply a with
    | none => rfl
    | some r => exact JobsService.lastTemplateHeightByAddress_buildTemplateFor ..

theorem clearsJobs_eq_true_iff {service : JobsService P} {address : String} : service.clearsJobs address height = true ↔
    (service.lastTemplateHeightByAddress.get address).getD 0 ≠ height := decide_eq_true_iff

/-- **The next template of the higher height is a new tip again**, whatever happens in between. -/
theorem clears_of_lateReply (late : LateReply config height p p' r)
    (run : Reaches (Server.step config) (NoReply height) p' q) :
    config.getPoolWalletAddress = some r.coinbaseAddress ∧ q.shared.service.clearsJobs r.coinbaseAddress height = true := by
  obtain ⟨⟨p₁, e₁, p₂, r₁, first, -, -, moved₁, between⟩, ⟨e, replied, moved⟩, lower⟩ := late
  constructor
  · have from_start := (first.trans (.next e₁ .start trivial moved₁)).trans between
    cases e with
    | start t => cases replied
    | resume k a =>
      obtain ⟨t, at_k, replied⟩ := Option.bind_eq_some_iff.mp replied
      exact coinbaseAddress_run from_start t (List.mem_of_getElem? at_k) _ (Call.coinbaseAddress_of_reply replied)
  · apply run.invariant
    · rw [clearsJobs_eq_true_iff, heights_step moved, replied, OrderedMap.get_set, if_pos rfl, Option.getD_some]
      omega
    · intro q e q' clears other moved
      rw [clearsJobs_eq_true_iff] at clears ⊢
      rw [heights_step moved]
      cases replied : q.reply e with
      | none => exact clears
      | some x =>
        rw [OrderedMap.get_set]
        split
        · exact other x replied
        · exact clears

/-- A call that waits for a template is none that judges a share. -/
theorem Call.resumeWork_of_reply {s s' : World P} {t t' : Call P} {a : Answer}
    (resumed : Call.resume config s t a = some (s', t')) (replied : t.reply a = some r) :
    Call.resumeWork config s t a = some (s', t') := by
  refine (Option.or_eq_some_iff.mp resumed).resolve_right fun share => ?_
  unfold Call.reply at replied
  split at replied
  · cases share.2
  · cases share.2
  · cases replied

/-- A template that was built for a step of a session is dispatched. -/
theorem Call.dispatch_of_built {s s' : World P} {t t' : Call P} {a : Answer} {template : JobTemplate}
    (resumed : Call.resume config s t a = some (s', t')) (replied : t.reply a = some r)
    (built : (s.service.buildTemplateFor r.coinbaseAddress r.blockTemplate r.nowMs).2 = some template) :
    ∃ d, t.dispatch s a = some d ∧ d.base = template := by
  have worked := resumeWork_of_reply resumed replied
  unfold Call.reply at replied
  split at replied
  · cases replied
    obtain ⟨c, at_i, -⟩ := Option.map_eq_some_iff.mp worked
    exact ⟨_, by rw [dispatch, at_i, Option.bind_eq_bind, Option.bind_some, built]; rfl, rfl⟩
  · cases replied
    obtain ⟨c, at_i, -⟩ := Option.map_eq_some_iff.mp worked
    exact ⟨_, by rw [dispatch, at_i, Option.bind_eq_bind, Option.bind_some, built]; rfl, rfl⟩
  · cases replied

/-- Sending leaves the session with the template it had been given. -/
theorem Call.exists_client_send {s : World P} {c₀ c : Client} {i : ℕ} {base template : JobTemplate} {nowMs : ℤ} {ends : Bool}
    (at_i : s.clients[i]? = some c₀) (current : c.currentJobTemplate = some base) :
    ∃ c', (send config s i c template nowMs ends).1.clients[i]? = some c' ∧ c'.currentJobTemplate = some base := by
  obtain ⟨bound, -⟩ := List.getElem?_eq_some_iff.mp at_i
  have put : ∀ c' : Client, c'.currentJobTemplate = some base →
      ∃ c'', (s.clients.set i c')[i]? = some c'' ∧ c''.currentJobTemplate = some base :=
    fun c' same => ⟨c', List.getElem?_set_self bound, same⟩
  obtain ⟨-, sent⟩ | ⟨-, sent⟩ | ⟨job, -, -, sent⟩ := send_cases config s i c template nowMs ends
  all_goals
    rw [sent]
    exact put _ current

theorem Call.Work.adopts {s : World P} {t : Call P} {a : Answer} {x : World P × Call P} {d : Dispatch}
    (work : Work config s t a x) (dispatched : t.dispatch s a = some d) :
    ∃ c, x.1.clients[d.client]? = some c ∧ c.currentJobTemplate = some d.base := by
  cases work with
  | idle none service clients =>
    rw [none] at dispatched
    cases dispatched
  | connect sessionId is_call =>
    subst is_call
    cases dispatched
  | @sends d' c dispatched' at_i notified =>
    rw [dispatched] at dispatched'
    cases dispatched'
    exact exists_client_send at_i (copies_of_dispatch dispatched).current

/-- What else a late reply does whose template can be built: its session goes back to the lower
height, and nothing else is left in the store if the reply before was for another height. -/
theorem lateReply_built {t : JobTemplate} (late : LateReply config height p p' r)
    (built : (p.shared.service.buildTemplateFor r.coinbaseAddress r.blockTemplate r.nowMs).2 = some t) :
    (∃ (i : ℕ) (c : Client), p'.shared.clients[i]? = some c ∧ c.currentJobTemplate = some t ∧
      t.blockData.height < height) ∧
    (p.shared.service.clearsJobs r.coinbaseAddress r.blockTemplate.height = true →
      p'.shared.service.blocks = [(t.blockData.id, t)] ∧
        ∀ e ∈ p'.shared.service.jobs, e.2.jobTemplateId = t.blockData.id) := by
  obtain ⟨-, ⟨e, replied, moved⟩, lower⟩ := late
  obtain ⟨call, rfl, -, rfl⟩ | ⟨before, call, after, a, s', call', rfl, calls, resumed, rfl⟩ := Pool.step_cases moved
  · cases replied
  have answered : call.reply a = some r := (Server.reply_resume calls a).symm.trans replied
  obtain ⟨d, dispatched, base⟩ := Call.dispatch_of_built resumed answered built
  have facts := JobsService.built_of_eq_some built
  have work := Call.work_of_resume resumed
  constructor
  · obtain ⟨c, at_i, current⟩ := work.adopts dispatched
    rw [base] at current
    refine ⟨d.client, c, at_i, current, ?_⟩
    rw [facts.height]
    exact lower
  · intro clears
    rw [← facts.clearJobs] at clears
    have jobs : (p.shared.service.afterReply (some r)).jobs = [] := by
      rw [JobsService.afterReply, facts.jobs, clears]
      rfl
    have blocks : (p.shared.service.afterReply (some r)).blocks = [(t.blockData.id, t)] := by
      rw [JobsService.afterReply, facts.blocks, clears]
      rfl
    cases outcome_of_work work with
    | unsent service notifies =>
      rw [service, answered]
      refine ⟨blocks, fun e member => ?_⟩
      rw [jobs] at member
      cases member
    | @sent x job dispatched' isOpen made service notifies =>
      rw [dispatched] at dispatched'
      cases dispatched'
      rw [service, answered]
      refine ⟨blocks, fun e member => ?_⟩
      obtain old | rfl := JobsService.mem_jobs_addJob member
      · rw [jobs] at old
        cases old
      · rw [← base]
        exact (describes_of_newJob made (Call.copies_of_dispatch dispatched).template).1

end

/-- **A late reply is never harmless**: after a reply for a lower height, the next template of the
higher height counts as a new tip once more. -/
theorem not_harmless_of_lateReply {P : Packages} {config : StratumConfig} {height : ℕ} {p p' : Server P} {r : Reply}
    (late : LateReply config height p p' r) : ¬ Harmless config height p p' := by
  intro harmless
  obtain ⟨configured, clears⟩ := clears_of_lateReply late .start
  have kept := harmless.next p' .start _ configured
  rw [clears] at kept
  cases kept

namespace Regtest

/-- A session has asked for a template twice, for a new block and on its timer. -/
def twoRequests : List (Event (Call packages) Answer) :=
  [.start (.connect "01"), .resume 0 (.ran 0), .start (.authorize 0 ⟨"bcrt1qminer", "one"⟩), .resume 1 (.ran 0),
    .start (.refreshMiningJob 0 true), .resume 2 (.ran 0), .start (.refreshMiningJob 0 false), .resume 3 (.ran 0)]

/-- The reply to the second request is for height 101 and comes first. -/
def newerReply : Event (Call packages) Answer := .resume 3 (.template (template 101) 1700000000000)

def olderReply : Event (Call packages) Answer := .resume 2 (.template (template 100) 1700000000001)

/-- The templates of height 101 are gone after the reply for height 100. -/
theorem exists_lateReply : ∃ (p p' : Server packages) (r : Reply), LateReply config 101 p p' r ∧
    (∃ e ∈ p.shared.service.blocks, e.2.blockData.height = 101) ∧
    ∀ e ∈ p'.shared.service.blocks, e.2.blockData.height ≠ 101 := by
  have evaluated : (runWhere (Server.step config) Always (.initial packages) twoRequests).any (fun p₁ =>
      (p₁.reply newerReply).any fun r₁ => (Server.step config p₁ newerReply).any fun p =>
        (p.reply olderReply).any fun r => (Server.step config p olderReply).any fun p' =>
          decide (r₁.blockTemplate.height = 101 ∧ r.blockTemplate.height < 101 ∧
            (∃ e ∈ p.shared.service.blocks, e.2.blockData.height = 101) ∧
            ∀ e ∈ p'.shared.service.blocks, e.2.blockData.height ≠ 101)) = true := by decide +kernel
  obtain ⟨p₁, run, rest⟩ := (Option.any_eq_true ..).mp evaluated
  obtain ⟨r₁, newer, rest⟩ := (Option.any_eq_true ..).mp rest
  obtain ⟨p, moved₁, rest⟩ := (Option.any_eq_true ..).mp rest
  obtain ⟨r, older, rest⟩ := (Option.any_eq_true ..).mp rest
  obtain ⟨p', moved, checks⟩ := (Option.any_eq_true ..).mp rest
  obtain ⟨height, lower, there, gone⟩ := of_decide_eq_true checks
  have late : LateReply config 101 p p' r :=
    ⟨⟨p₁, _, p, r₁, reaches_of_runWhere run, newer, height, moved₁, .start⟩, ⟨_, older, moved⟩, lower⟩
  exact ⟨p, p', r, late, there, gone⟩

end Regtest

/-- The reply for 101 and then the one for 100. -/
theorem not_harmless_of_lateReply_two_requests : ∃ (p p' : Server Regtest.packages) (r : Reply),
    LateReply Regtest.config 101 p p' r ∧ ¬ Harmless Regtest.config 101 p p' := by
  obtain ⟨p, p', r, late, -, -⟩ := Regtest.exists_lateReply
  exact ⟨p, p', r, late, not_harmless_of_lateReply late⟩

/-- The older reply takes the newer template out of the store. -/
theorem not_forall_harmless_two_requests : ¬ ∀ (P : Packages) (config : StratumConfig) (height : ℕ) (p p' : Server P)
    (r : Reply), LateReply config height p p' r → Harmless config height p p' := by
  intro claim
  obtain ⟨p, p', r, late, ⟨e, stored, higher⟩, gone⟩ := Regtest.exists_lateReply
  exact gone e ((claim _ _ _ _ _ _ late).templates e stored higher) higher

end ElektronPool.Stratum
