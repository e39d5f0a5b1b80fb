import ElektronPool.Stratum.Headers

/-!
# Jobs that can still be looked up

A submission is only looked at if its job and the job's template are in the store. All
sessions share the store, and any of them may empty it or let the old entries go, while the
others go on sending work from the templates they have kept. Where they do so only as long
as these are in the store (`Serves`), a job that was sent stays with its template until a
higher height comes or five minutes have passed (`found_of_serves`).
-/

namespace ElektronPool.Stratum
set_option autoImplicit false
open Js Bitcoin Async

section
variable {P : Packages} {config : StratumConfig}

/-- The height that is remembered for an address. -/
def JobsService.rememberedHeight (service : JobsService P) (address : String) : ℕ :=
  (service.lastTemplateHeightByAddress.get address).getD 0

/-- Five minutes have passed since something was created. -/
def Expired (creation nowMs : ℤ) : Prop := maxAgeMs < nowMs - creation

instance (creation nowMs : ℤ) : Decidable (Expired creation nowMs) :=
  inferInstanceAs (Decidable (maxAgeMs < nowMs - creation))

/-- A session sends work from the template it has kept only while that is in the store. -/
def ServesFromStore (config : StratumConfig) (s : World P) (d : Dispatch) : Prop :=
  d.session.connectionClosed = false →
    (Client.newJob P config s.service (d.session.versioned d.template) d.nowMs).isSome = true →
      (s.service.getJobTemplateById d.base.blockData.id).isSome = true

/-- A reply that brings no higher height is for the height that is remembered, and no job of the last
five minutes has an older template. -/
def SparesTheYoung (s : World P) (r : Reply) : Prop :=
  r.blockTemplate.height ≤ s.service.rememberedHeight r.coinbaseAddress → ∀ e ∈ s.service.jobs,
    ¬ Expired e.2.creation r.nowMs → r.blockTemplate.height = s.service.rememberedHeight r.coinbaseAddress ∧
      ∀ t ∈ s.service.getJobTemplateById e.2.jobTemplateId, ¬ Expired t.blockData.creation r.nowMs

instance (s : World P) (d : Dispatch) : Decidable (ServesFromStore config s d) :=
  inferInstanceAs (Decidable (d.session.connectionClosed = false →
    (Client.newJob P config s.service (d.session.versioned d.template) d.nowMs).isSome = true →
      (s.service.getJobTemplateById d.base.blockData.id).isSome = true))

instance (s : World P) (r : Reply) : Decidable (SparesTheYoung s r) :=
  inferInstanceAs (Decidable (r.blockTemplate.height ≤ s.service.rememberedHeight r.coinbaseAddress →
    ∀ e ∈ s.service.jobs, ¬ Expired e.2.creation r.nowMs →
      r.blockTemplate.height = s.service.rememberedHeight r.coinbaseAddress ∧
        ∀ t ∈ s.service.getJobTemplateById e.2.jobTemplateId, ¬ Expired t.blockData.creation r.nowMs))

/-- The condition on the events of the sessions. -/
def Serves (config : StratumConfig) (p : Server P) (e : Event (Call P) Answer) : Prop :=
  Pool.Allowed (fun _ _ => True) (fun s _ t a => (t.reply a = none → ∀ d ∈ t.dispatch s a, ServesFromStore config s d) ∧
    ∀ r ∈ t.reply a, SparesTheYoung s r) p e

/-- No reply brings a higher height, and none comes five minutes after a job was created. -/
def Spares (creation : ℤ) (p : Server P) (e : Event (Call P) Answer) : Prop :=
  Pool.Allowed (fun _ _ => True) (fun s _ t a => ∀ r ∈ t.reply a,
    r.blockTemplate.height ≤ s.service.rememberedHeight r.coinbaseAddress ∧ ¬ Expired creation r.nowMs) p e

instance (p : Server P) (e : Event (Call P) Answer) : Decidable (Serves config p e) :=
  inferInstanceAs (Decidable (Pool.Allowed (fun _ _ => True)
    (fun s _ t a => (t.reply a = none → ∀ d ∈ t.dispatch s a, ServesFromStore config s d) ∧
      ∀ r ∈ t.reply a, SparesTheYoung s r) p e))

instance (creation : ℤ) (p : Server P) (e : Event (Call P) Answer) : Decidable (Spares creation p e) :=
  inferInstanceAs (Decidable (Pool.Allowed (fun _ _ => True) (fun s _ t a => ∀ r ∈ t.reply a,
    r.blockTemplate.height ≤ s.service.rememberedHeight r.coinbaseAddress ∧ ¬ Expired creation r.nowMs) p e))

/-! ## One step -/

/-- A job that is in the store with its template. -/
structure Held (service : JobsService P) (jobId : String) (job : MiningJob P) : Prop where
  given : service.Given jobId
  found : service.getJobById jobId = some job
  template : (service.getJobTemplateById job.jobTemplateId).isSome = true

variable {s : World P} {service : JobsService P} {jobId : String} {job : MiningJob P} {t : Call P} {a : Answer}
  {q : World P × Call P}

/-- Setting an entry takes none away. -/
theorem isSome_get_set {κ β : Type*} [DecidableEq κ] {m : OrderedMap κ β} {key key' : κ} {value : β}
    (present : (m.get key').isSome = true) : ((m.set key value).get key').isSome = true := by
  rw [OrderedMap.get_set]
  split
  · rfl
  · exact present

/-- A reply that spares the job and its template. -/
theorem Held.afterReply (held : Held s.service jobId job) {r : Option Reply} (young : ∀ x ∈ r, SparesTheYoung s x)
    (spares : ∀ x ∈ r, x.blockTemplate.height ≤ s.service.rememberedHeight x.coinbaseAddress ∧
      ¬ Expired job.creation x.nowMs) : Held (s.service.afterReply r) jobId job := by
  cases r with
  | none => exact held
  | some x =>
    obtain ⟨low, fresh⟩ := spares x rfl
    obtain ⟨same, templates⟩ := young x rfl low _ (JobsService.mem_of_getJobById held.found) fresh
    obtain ⟨template, stored⟩ := Option.isSome_iff_exists.mp held.template
    obtain ⟨failed, unbuilt⟩ | ⟨built, found, facts⟩ := s.service.buildTemplateFor_cases x
    · refine ⟨held.given.mono unbuilt.latestJobId.ge, ?_, ?_⟩
      · rw [JobsService.afterReply, JobsService.getJobById, unbuilt.jobs]
        exact held.found
      · rw [JobsService.afterReply, JobsService.getJobTemplateById, unbuilt.blocks]
        exact held.template
    · have stays : built.blockData.clearJobs = false := by
        rw [facts.clearJobs, same]
        exact decide_eq_false (not_not_intro rfl)
      refine ⟨held.given.mono facts.latestJobId.ge, ?_, ?_⟩
      · rw [JobsService.afterReply, JobsService.getJobById, facts.jobs, stays]
        exact OrderedMap.get_filter held.found (decide_eq_true fresh)
      · rw [JobsService.afterReply, JobsService.getJobTemplateById, facts.blocks, stays]
        apply isSome_get_set
        rw [JobsService.evict, if_neg Bool.false_ne_true,
          OrderedMap.get_filter stored (decide_eq_true (templates template stored))]
        rfl

/-- A new job does not take the place of another. -/
theorem Held.addJob {new : MiningJob P} (held : Held service jobId job) (fresh : ¬ service.Given new.jobId) :
    Held (service.addJob new) jobId job := by
  refine ⟨held.given.mono (Nat.le_succ _), ?_, held.template⟩
  have other : jobId ≠ new.jobId := fun same => fresh (same ▸ held.given)
  rw [JobsService.getJobById, JobsService.addJob, OrderedMap.get_set, if_neg other]
  exact held.found

theorem Held.work (held : Held s.service jobId job) (young : ∀ x ∈ t.reply a, SparesTheYoung s x)
    (spares : ∀ x ∈ t.reply a, x.blockTemplate.height ≤ s.service.rememberedHeight x.coinbaseAddress ∧
      ¬ Expired job.creation x.nowMs) (work : Call.Work config s t a q) : Held q.1.service jobId job := by
  have after := held.afterReply young spares
  cases outcome_of_work work with
  | unsent service notifies =>
    rw [service]
    exact after
  | sent dispatched isOpen made service notifies =>
    rw [service]
    exact after.addJob (jobId_of_newJob made ▸ JobsService.not_given_getNextId)

/-- At the moment a message is sent, its job is there with its template. -/
theorem held_of_sent {n : Notify} (serves : t.reply a = none → ∀ d ∈ t.dispatch s a, ServesFromStore config s d)
    (work : Call.Work config s t a q) (sent : q.1.notifies.Perm (n :: s.notifies)) :
    ∃ job, Held q.1.service n.jobId job := by
  cases outcome_of_work work with
  | unsent service notifies =>
    have lengths := sent.length_eq
    rw [notifies, List.length_cons] at lengths
    omega
  | @sent d job dispatched isOpen made service notifies =>
    have copies := Call.copies_of_dispatch dispatched
    have same : job.response (d.session.versioned d.template) = n := by
      have both := Multiset.coe_eq_coe.mpr (notifies.symm.trans sent)
      rw [← Multiset.cons_coe, ← Multiset.cons_coe] at both
      exact (Multiset.cons_inj_left _).mp both
    obtain ⟨templateId, -, -⟩ := describes_of_newJob made copies.template
    refine ⟨job, ?_, ?_, ?_⟩
    all_goals rw [service]
    · rw [← same]
      exact ⟨_, Nat.lt_succ_self _, jobId_of_newJob made⟩
    · rw [← same]
      show ((s.service.afterReply (t.reply a)).jobs.set job.jobId job).get job.jobId = some job
      rw [OrderedMap.get_set, if_pos rfl]
    · show ((s.service.afterReply (t.reply a)).blocks.get job.jobTemplateId).isSome = true
      rw [templateId]
      have origin := copies.origin
      generalize replied : t.reply a = r at origin made
      cases origin with
      | current at_i current => exact serves replied d dispatched isOpen (Option.isSome_iff_exists.mpr ⟨job, made⟩)
      | @built r built =>
        rw [JobsService.afterReply, (JobsService.built_of_eq_some built).blocks, OrderedMap.get_set, if_pos rfl]
        rfl

/-- A submission for a job in the store is not refused for want of it. -/
theorem Held.not_refused (held : Held service jobId job) (i : ℕ) (c : Client) {m : MiningSubmitMessage}
    (names : m.jobId = jobId) (message : String) :
    (handleMiningSubmission service i c m).2 ≠ .refused .jobNotFound message := by
  obtain ⟨template, stored⟩ := Option.isSome_iff_exists.mp held.template
  have found := held.found
  rw [← names] at found
  unfold handleMiningSubmission
  rw [found]
  dsimp only
  rw [stored]
  dsimp only
  split
  · exact nofun
  · split
    · exact nofun
    · split <;> exact nofun

/-! ## Every run -/

variable {p p' : Server P} {e : Event (Call P) Answer}

theorem held_step (held : Held p.shared.service jobId job) (serves : Serves config p e) (spares : Spares job.creation p e)
    (moved : Server.step config p e = some p') : Held p'.shared.service jobId job := by
  obtain ⟨call, rfl, start, rfl⟩ | ⟨before, call, after, a, s', call', rfl, calls, resumed, rfl⟩ :=
    Pool.step_cases moved
  · exact held
  · have young : ∀ r ∈ call.reply a, SparesTheYoung p.shared r := (serves.continues calls).2
    exact held.work young (spares.continues calls) (Call.work_of_resume resumed)

theorem held_of_moved {n : Notify} (serves : Serves config p e) (moved : Server.step config p e = some p')
    (sent : p'.shared.notifies.Perm (n :: p.shared.notifies)) : ∃ job, Held p'.shared.service n.jobId job := by
  obtain ⟨call, rfl, start, rfl⟩ | ⟨before, call, after, a, s', call', rfl, calls, resumed, rfl⟩ :=
    Pool.step_cases moved
  · have lengths : p.shared.notifies.length = (n :: p.shared.notifies).length := sent.length_eq
    rw [List.length_cons] at lengths
    omega
  · exact held_of_sent (serves.continues calls).1 (Call.work_of_resume resumed) sent

end

/-- What is promised of a message from the state on in which it has been sent: its job and the job's
template are found, and stay so until a higher height comes or five minutes have passed; no
submission for the job is refused in the meantime because one of them is missing. -/
def StaysFound {P : Packages} (config : StratumConfig) (ok : Server P → Event (Call P) Answer → Prop) (p : Server P)
    (n : Notify) : Prop :=
  ∃ job, ∀ q : Server P, Reaches (Server.step config) (fun p e => ok p e ∧ Spares job.creation p e) p q →
    q.shared.service.getJobById n.jobId = some job ∧
      (q.shared.service.getJobTemplateById job.jobTemplateId).isSome = true ∧
      ∀ (i : ℕ) (c : Client) (m : MiningSubmitMessage) (message : String), m.jobId = n.jobId →
        (handleMiningSubmission q.shared.service i c m).2 ≠ .refused .jobNotFound message

end ElektronPool.Stratum
