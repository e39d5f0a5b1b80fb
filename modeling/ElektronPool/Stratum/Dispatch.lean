import ElektronPool.Stratum.Steps

/-!
# What work a step sends

Four handlers come to `sendNewMiningJob`: the two that have asked the node for a template, the
local refresh and the change of difficulty. `Call.reply` is the reply of the node that a step
builds a template from, and `Call.dispatch` the call of `sendNewMiningJob` it ends with. All a
step does to the store and to the work of the clients is to build and then to send (`Work`).
-/

namespace ElektronPool.Stratum
set_option autoImplicit false
open Js Bitcoin Async

/-- A call of `sendNewMiningJob`: the session then, its current template, and the copy of it
that is sent. -/
structure Dispatch where
  client : ℕ
  session : Client
  base : JobTemplate
  template : JobTemplate
  nowMs : ℤ
  ends : Bool

section
variable {P : Packages}

namespace Call

def reply : Call P → Answer → Option Reply
  | .refreshTemplate _ coinbaseAddress _, .template blockTemplate nowMs => some ⟨coinbaseAddress, blockTemplate, nowMs⟩
  | .difficultyTemplate _ coinbaseAddress, .template blockTemplate nowMs => some ⟨coinbaseAddress, blockTemplate, nowMs⟩
  | _, _ => none

end Call

namespace JobsService

/-- What `buildTemplateFor` makes of a reply, if there is one. -/
def afterReply (service : JobsService P) : Option Reply → JobsService P
  | some r => (service.buildTemplateFor r.coinbaseAddress r.blockTemplate r.nowMs).1
  | none => service

end JobsService

namespace Call

def dispatch (s : World P) : Call P → Answer → Option Dispatch
  | .refreshTemplate i coinbaseAddress onNewBlock, .template blockTemplate nowMs => do
    let c ← s.clients[i]?
    let t ← (s.service.buildTemplateFor coinbaseAddress blockTemplate nowMs).2
    return ⟨i, c.adoptTemplate t, t, t, nowMs, onNewBlock⟩
  | .refreshLocalMiningWork i, .ran nowMs => do
    let c ← s.clients[i]?
    let base ← c.currentJobTemplate
    let t ← c.localTemplate nowMs
    return ⟨i, c, base, t, nowMs, false⟩
  | .checkDifficulty i, .suggests (some targetDiff) nowMs => do
    let c ← s.clients[i]?
    if targetDiff.strictEq c.sessionDifficulty then none
    else
      let base ← c.currentJobTemplate
      return ⟨i, { c with sessionDifficulty := targetDiff, currentJobTemplate := some base }, base,
        c.difficultyTemplate base nowMs, nowMs, false⟩
  | .difficultyTemplate i coinbaseAddress, .template blockTemplate nowMs => do
    let c ← s.clients[i]?
    let base ← (s.service.buildTemplateFor coinbaseAddress blockTemplate nowMs).2
    return ⟨i, { c with currentJobTemplate := some base }, base, c.difficultyTemplate base nowMs, nowMs, false⟩
  | _, _ => none

end Call

/-- A local refresh sends a copy of the current template. -/
theorem Client.localTemplate_eq_some {c : Client} {nowMs : ℤ} {t : JobTemplate} (found : c.localTemplate nowMs = some t) :
    ∃ base, c.currentJobTemplate = some base ∧ t = base.retimed (max base.block.timestamp (nowMs / 1000)) false := by
  unfold localTemplate at found
  split at found
  · cases found
  · obtain ⟨base, current, copy⟩ := Option.map_eq_some_iff.mp found
    exact ⟨base, current, copy.symm⟩

namespace Call
variable {config : StratumConfig} {s s' : World P} {t t' : Call P} {a : Answer}

/-- What a step does to the store and to the work of the clients. -/
inductive Work (config : StratumConfig) (s : World P) (t : Call P) (a : Answer) : World P × Call P → Prop
  | idle {r : World P × Call P} : t.dispatch s a = none → r.1.service = s.service.afterReply (t.reply a) →
      List.Forall₂ Client.Quiet s.clients r.1.clients → Work config s t a r
  | connect (sessionId : String) : t = .connect sessionId →
      Work config s t a ({ s with clients := s.clients ++ [.new sessionId] }, .returned)
  | sends {d : Dispatch} {c : Client} : t.dispatch s a = some d → s.clients[d.client]? = some c →
      d.session.notified = c.notified → Work config s t a
        (send config { s with service := s.service.afterReply (t.reply a) } d.client d.session d.template d.nowMs d.ends)

/-- A handler that has not come to a template. -/
theorem Work.of_quiet {r : World P × Call P} (none : t.dispatch s a = none) (unasked : t.reply a = .none)
    (quiet : s.Quiet r.1) : Work config s t a r :=
  .idle none (by rw [unasked]; exact quiet.service) quiet.clients

theorem work_of_refreshed {i : ℕ} {coinbaseAddress : String} {onNewBlock : Bool} {blockTemplate : BlockTemplate}
    {nowMs : ℤ} {c : Client} (at_i : s.clients[i]? = some c) :
    Work config s (.refreshTemplate i coinbaseAddress onNewBlock) (.template blockTemplate nowMs)
      (refreshed config s i c coinbaseAddress blockTemplate nowMs onNewBlock) := by
  unfold refreshed
  split
  · rename_i service failed
    refine .idle ?_ ?_ (forall₂_set Client.Quiet.refl at_i (c.quiet_endSocket onNewBlock))
    · simp [dispatch, at_i, failed]
    · simp [reply, JobsService.afterReply, failed, World.setClient]
  · rename_i service template built
    have sent : dispatch s (.refreshTemplate i coinbaseAddress onNewBlock) (.template blockTemplate nowMs) =
        some ⟨i, c.adoptTemplate template, template, template, nowMs, onNewBlock⟩ := by simp [dispatch, at_i, built]
    have after : s.service.afterReply (reply (.refreshTemplate i coinbaseAddress onNewBlock : Call P)
        (.template blockTemplate nowMs)) = service := congrArg Prod.fst built
    rw [← after]
    exact .sends sent at_i rfl

theorem work_of_difficultyBuilt {i : ℕ} {coinbaseAddress : String} {blockTemplate : BlockTemplate} {nowMs : ℤ}
    {c : Client} (at_i : s.clients[i]? = some c) :
    Work config s (.difficultyTemplate i coinbaseAddress) (.template blockTemplate nowMs)
      (difficultyBuilt config s i c coinbaseAddress blockTemplate nowMs) := by
  unfold difficultyBuilt
  split
  · rename_i service failed
    refine .idle ?_ ?_ (World.Quiet.refl s).clients
    · simp [dispatch, at_i, failed]
    · simp [reply, JobsService.afterReply, failed]
  · rename_i service base built
    have sent : dispatch s (.difficultyTemplate i coinbaseAddress) (.template blockTemplate nowMs) =
        some ⟨i, { c with currentJobTemplate := some base }, base, c.difficultyTemplate base nowMs, nowMs, false⟩ := by
      simp [dispatch, at_i, built]
    have after : s.service.afterReply (reply (.difficultyTemplate i coinbaseAddress : Call P)
        (.template blockTemplate nowMs)) = service := congrArg Prod.fst built
    rw [← after]
    exact .sends sent at_i rfl

theorem WorkBranch.work {r : World P × Call P} (branch : WorkBranch config s t a r) : Work config s t a r := by
  have quiet : ∀ {i : ℕ} {f : Client → Client} {t' : Call P}, t.dispatch s a = none → t.reply a = none →
      (∀ c, Client.Quiet c (f c)) → Work config s t a (s.updateClient i f, t') :=
    fun none unasked kept => .of_quiet none unasked (World.quiet_updateClient kept)
  cases branch with
  | connect sessionId => exact .connect sessionId rfl
  | authorize | setDifficulty | notified => exact quiet rfl rfl fun c => ⟨rfl, .inl rfl, id, List.Subset.refl _⟩
  | disconnect | notifyFailed => exact quiet rfl rfl Client.quiet_destroy
  | refreshFailed i coinbaseAddress onNewBlock => exact quiet rfl rfl fun c => c.quiet_endSocket onNewBlock
  | unready | asks | noSuggestion | difficultyFailed => exact .of_quiet rfl rfl (World.Quiet.refl s)
  | unconfigured onNewBlock nowMs at_i =>
    exact .of_quiet rfl rfl (World.quiet_setClient at_i (Client.quiet_endSocket _ onNewBlock))
  | refreshed coinbaseAddress onNewBlock blockTemplate nowMs at_i => exact work_of_refreshed at_i
  | noLocalWork at_i early =>
    refine .of_quiet ?_ rfl (World.Quiet.refl s)
    simp [dispatch, at_i, early]
  | @localWork i nowMs c template at_i found =>
    obtain ⟨base, current, -⟩ := Client.localTemplate_eq_some found
    have sent : dispatch s (.refreshLocalMiningWork i) (.ran nowMs) = some ⟨i, c, base, template, nowMs, false⟩ := by
      simp [dispatch, at_i, current, found]
    exact .sends sent at_i rfl
  | sameDifficulty nowMs at_i same =>
    refine .of_quiet ?_ rfl (World.Quiet.refl s)
    simp [dispatch, at_i, same]
  | @difficulty nowMs i difficulty c base at_i other current =>
    have sent : dispatch s (.checkDifficulty i) (.suggests (some difficulty) nowMs) =
        some ⟨i, { c with sessionDifficulty := difficulty, currentJobTemplate := some base }, base,
          c.difficultyTemplate base nowMs, nowMs, false⟩ := by simp [dispatch, at_i, other, current]
    exact .sends sent at_i rfl
  | noWallet nowMs at_i other missing | asksForDifficulty nowMs at_i other missing =>
    refine .of_quiet ?_ rfl (World.quiet_setClient at_i ⟨rfl, .inl rfl, id, List.Subset.refl _⟩)
    simp [dispatch, at_i, other, missing]
  | difficultyBuilt coinbaseAddress blockTemplate nowMs at_i => exact work_of_difficultyBuilt at_i

theorem work_of_shareStep {r : World P × Call P} (none : t.dispatch s a = none) (unasked : t.reply a = .none)
    (share : ShareStep s t a r) : Work config s t a r := by
  cases share with
  | quiet quiet _ => exact .of_quiet none unasked quiet
  | judged is_call is_answer at_i =>
    obtain ⟨service, -, clients⟩ := judged_quiet at_i (quiet_handleMiningSubmission ..)
    exact .idle none (by rw [unasked]; exact service) clients
  | replied share is_call quiet => exact .of_quiet none unasked quiet
  | recorded share record is_call header quiet =>
    exact .idle none (by rw [unasked]; exact quiet.service) quiet.clients

theorem ShareBranch.work {r : World P × Call P} (branch : ShareBranch config s t a r) : Work config s t a r := by
  have aside : t.dispatch s a = none ∧ t.reply a = none := by
    cases branch <;> exact ⟨rfl, rfl⟩
  exact work_of_shareStep aside.1 aside.2 branch.shareStep.1

/-- What one step does. -/
theorem work_of_resume (resumed : resume config s t a = some (s', t')) : Work config s t a (s', t') := by
  rw [resume, Option.or_eq_some_iff] at resumed
  obtain work | ⟨-, share⟩ := resumed
  · exact (workBranch_of_resumeWork work).work
  · exact (shareBranch_of_resumeShare share).work

end Call

/-! ## The template that is sent -/

/-- Where the template of a dispatch comes from: the node has just sent it, or it is the current one
of the session. -/
inductive Dispatch.Origin (s : World P) (d : Dispatch) : Option Reply → Prop
  | built {r : Reply} : (s.service.buildTemplateFor r.coinbaseAddress r.blockTemplate r.nowMs).2 = some d.base →
      Origin s d (some r)
  | current {c : Client} : s.clients[d.client]? = some c → c.currentJobTemplate = some d.base → Origin s d none

/-- What is sent is a copy of the template the session has then. -/
structure Dispatch.Copies (s : World P) (r : Option Reply) (d : Dispatch) : Prop where
  current : d.session.currentJobTemplate = some d.base
  template : ∃ timestamp clearJobs, d.template = d.base.retimed timestamp clearJobs
  origin : d.Origin s r

theorem Call.copies_of_dispatch {s : World P} {t : Call P} {a : Answer} {d : Dispatch}
    (dispatched : t.dispatch s a = some d) : d.Copies s (t.reply a) := by
  unfold dispatch at dispatched
  split at dispatched
  case h_1 =>
    obtain ⟨c, at_i, rest⟩ := Option.bind_eq_some_iff.mp dispatched
    obtain ⟨t, built, same⟩ := Option.bind_eq_some_iff.mp rest
    cases same
    exact ⟨rfl, ⟨t.block.timestamp, t.blockData.clearJobs, rfl⟩, .built built⟩
  case h_2 =>
    obtain ⟨c, at_i, rest⟩ := Option.bind_eq_some_iff.mp dispatched
    obtain ⟨base, current, rest⟩ := Option.bind_eq_some_iff.mp rest
    obtain ⟨t, found, same⟩ := Option.bind_eq_some_iff.mp rest
    cases same
    obtain ⟨base', current', copy⟩ := Client.localTemplate_eq_some found
    rw [current] at current'
    cases current'
    exact ⟨current, ⟨_, _, copy⟩, .current at_i current⟩
  case h_3 =>
    obtain ⟨c, at_i, rest⟩ := Option.bind_eq_some_iff.mp dispatched
    split at rest
    · cases rest
    · obtain ⟨base, current, same⟩ := Option.bind_eq_some_iff.mp rest
      cases same
      exact ⟨rfl, ⟨_, _, rfl⟩, .current at_i current⟩
  case h_4 =>
    obtain ⟨c, at_i, rest⟩ := Option.bind_eq_some_iff.mp dispatched
    obtain ⟨base, built, same⟩ := Option.bind_eq_some_iff.mp rest
    cases same
    exact ⟨rfl, ⟨_, _, rfl⟩, .built built⟩
  case h_5 => cases dispatched

/-! ## All messages together -/

/-- Every `mining.notify` the pool has written, session by session. -/
def World.notifies (s : World P) : List Notify := s.clients.flatMap (·.notified)

/-- A template that is the current one of a session. -/
def World.Current (s : World P) (t : JobTemplate) : Prop := ∃ c ∈ s.clients, c.currentJobTemplate = some t

variable {config : StratumConfig} {s s' : World P} {t t' : Call P} {a : Answer}

theorem notifies_eq_of_quiet (clients : List.Forall₂ Client.Quiet s.clients s'.clients) : s'.notifies = s.notifies := by
  unfold World.notifies
  generalize s.clients = l, s'.clients = l' at clients
  induction clients with
  | nil => rfl
  | cons quiet _ ih => rw [List.flatMap_cons, List.flatMap_cons, ih, quiet.notified]

theorem current_of_quiet (clients : List.Forall₂ Client.Quiet s.clients s'.clients) {template : JobTemplate}
    (current : s'.Current template) : s.Current template := by
  obtain ⟨c', member, current⟩ := current
  obtain ⟨k, bound, rfl⟩ := List.mem_iff_getElem.mp member
  have before : k < s.clients.length := by
    rw [clients.length_eq]
    exact bound
  obtain same | gone := (clients.get before bound).template
  · exact ⟨_, List.get_mem _ ⟨k, before⟩, same.symm.trans current⟩
  · exact absurd (gone.symm.trans current) nofun

/-- One more message for one of the clients. -/
theorem flatMap_set_perm {α β : Type*} {f : α → List β} {b : β} {x y : α} {l : List α} {i : ℕ} (at_i : l[i]? = some x)
    (longer : f y = f x ++ [b]) : ((l.set i y).flatMap f).Perm (b :: l.flatMap f) := by
  induction l generalizing i with
  | nil => cases at_i
  | cons head tail ih =>
    cases i with
    | zero =>
      cases at_i
      show (f y ++ tail.flatMap f).Perm (b :: (f x ++ tail.flatMap f))
      rw [longer, List.append_assoc]
      exact List.perm_middle
    | succ i =>
      show (f head ++ (tail.set i y).flatMap f).Perm (b :: (f head ++ tail.flatMap f))
      exact ((ih at_i).append_left (f head)).trans List.perm_middle

theorem flatMap_set_eq {α β : Type*} {f : α → List β} {x y : α} {l : List α} {i : ℕ} (at_i : l[i]? = some x)
    (same : f y = f x) : (l.set i y).flatMap f = l.flatMap f := by
  induction l generalizing i with
  | nil => cases at_i
  | cons head tail ih =>
    cases i with
    | zero =>
      cases at_i
      show f y ++ tail.flatMap f = f x ++ tail.flatMap f
      rw [same]
    | succ i =>
      show f head ++ (tail.set i y).flatMap f = f head ++ tail.flatMap f
      rw [ih at_i]

/-- What a step leaves: a store that was rebuilt if the node has replied, and one more job and
message if work was sent. No session has got a template but the one that was dispatched. -/
inductive Outcome (config : StratumConfig) (s : World P) (r : Option Reply) (d : Option Dispatch) (s' : World P) : Prop
  | unsent : s'.service = s.service.afterReply r → s'.notifies = s.notifies → Outcome config s r d s'
  | sent {x : Dispatch} {job : MiningJob P} : d = some x → x.session.connectionClosed = false →
      Client.newJob P config (s.service.afterReply r) (x.session.versioned x.template) x.nowMs = some job →
      s'.service = (s.service.afterReply r).addJob job →
      s'.notifies.Perm (job.response (x.session.versioned x.template) :: s.notifies) → Outcome config s r d s'

theorem outcome_of_work {r : World P × Call P} (work : Call.Work config s t a r) :
    Outcome config s (t.reply a) (t.dispatch s a) r.1 := by
  cases work with
  | idle none service clients => exact .unsent service (notifies_eq_of_quiet clients)
  | connect sessionId is_call =>
    subst is_call
    refine .unsent rfl ?_
    rw [World.notifies, World.notifies, List.flatMap_append]
    exact List.append_nil _
  | @sends d c dispatched at_i notified =>
    obtain ⟨-, sent⟩ | ⟨-, sent⟩ | ⟨job, isOpen, made, sent⟩ := Call.send_cases config
      { s with service := s.service.afterReply (t.reply a) } d.client d.session d.template d.nowMs d.ends
    · rw [sent]
      exact .unsent rfl (flatMap_set_eq at_i notified)
    · rw [sent]
      exact .unsent rfl (flatMap_set_eq at_i notified)
    · rw [sent]
      refine .sent dispatched isOpen made rfl (flatMap_set_perm at_i ?_)
      rw [notified]

theorem current_of_work {r : World P × Call P} (work : Call.Work config s t a r) {template : JobTemplate}
    (current : r.1.Current template) : s.Current template ∨ ∃ d ∈ t.dispatch s a, d.base = template := by
  cases work with
  | idle none service clients => exact .inl (current_of_quiet clients current)
  | connect sessionId is_call =>
    obtain ⟨c, member, current⟩ := current
    obtain old | new := List.mem_append.mp member
    · exact .inl ⟨c, old, current⟩
    · cases List.mem_singleton.mp new
      cases current
  | @sends d c dispatched at_i notified =>
    have adopted := (Call.copies_of_dispatch dispatched).current
    obtain ⟨c', member, current⟩ := current
    obtain ⟨-, sent⟩ | ⟨-, sent⟩ | ⟨job, isOpen, made, sent⟩ := Call.send_cases config
      { s with service := s.service.afterReply (t.reply a) } d.client d.session d.template d.nowMs d.ends
    all_goals
      rw [sent] at member
      obtain old | rfl := List.mem_or_eq_of_mem_set member
      · exact .inl ⟨c', old, current⟩
      · exact .inr ⟨d, dispatched, Option.some.inj (adopted.symm.trans current)⟩

end

end ElektronPool.Stratum
