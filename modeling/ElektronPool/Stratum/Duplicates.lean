import ElektronPool.Stratum.Regtest
import ElektronPool.Stratum.Steps
import Mathlib.Data.Multiset.AddSub

/-!
# No header is credited twice

The duplicate check compares texts within one session; what is credited is a header, which
is made of numbers (`HeaderFields`). The two agree as long as whoever asks for the header of
an accepted share again does so in the same session and in the same texts
(`RepeatsVerbatim`). A session forgets its keys only when the store is emptied, and job ids
are never used again, so a key that is gone belongs to a job that is gone (`Credits`).
-/

namespace ElektronPool.Stratum
set_option autoImplicit false
open Js Bitcoin Async

/-! ## What a header is made of -/

structure HeaderFields where
  version : BitVec 32
  prevHash : Hash
  merkleRoot : Hash
  timestamp : Option (BitVec 32)
  bits : BitVec 32
  nonce : Option (BitVec 32)
  deriving DecidableEq

section
variable {P : Packages}

/-- The fields of the header a submission asks for. The texts count only for the numbers they
read as, and the second extranonce not at all. -/
def headerFields (job : MiningJob P) (t : JobTemplate) (m : MiningSubmitMessage) : HeaderFields where
  version := job.jobVersion ^^^ m.versionMaskNumber.toInt32
  prevHash := t.block.prevHash
  merkleRoot := job.merkleRoot
  timestamp := writeUInt32LE m.timestampNumber
  bits := t.block.bits
  nonce := writeUInt32LE m.nonceNumber

/-- The header of a share. -/
def headerOf (job : MiningJob P) (t : JobTemplate) (m : MiningSubmitMessage) : Option Buffer :=
  job.buildHeaderBuffer t m.versionMaskNumber m.nonceNumber m.timestampNumber

/-- The same header has the same fields. -/
theorem headerFields_eq_of_headerOf {job job' : MiningJob P} {t t' : JobTemplate} {m m' : MiningSubmitMessage}
    {h : Buffer} (built : headerOf job t m = some h) (built' : headerOf job' t' m' = some h) :
    headerFields job t m = headerFields job' t' m' := by
  obtain ⟨prevHash, bits, root, version, timestamp, nonce⟩ := MiningJob.buildHeaderBuffer_inj built built'
  rw [headerFields, headerFields, prevHash, bits, root, version, timestamp, nonce]

/-! ## The history of shares -/

/-- What is known of the shares accepted so far, and of the store and the keys behind them. -/
structure Credits (s : World P) : Prop where
  numbered : s.service.Numbered
  given : ∀ e ∈ s.accepted, s.service.Given e.submission.jobId
  keyed : ∀ e ∈ s.accepted, ∀ job, (e.submission.jobId, job) ∈ s.service.jobs →
    ∃ c, s.clients[e.client]? = some c ∧ e.submission.submissionHash ∈ c.miningSubmissionHashes
  built : ∀ e ∈ s.accepted, headerOf e.job e.jobTemplate e.submission = some e.header
  nodup : (s.accepted.map (·.header)).Nodup

/-- A step that accepts no share: no job id comes back, and keys go only with all jobs. -/
structure Keeps (s s' : World P) : Prop where
  accepted : s'.accepted = s.accepted
  counts : s.service.latestJobId ≤ s'.service.latestJobId
  numbered : s.service.Numbered → s'.service.Numbered
  jobs : ∀ e ∈ s'.service.jobs, s.service.Given e.1 → e ∈ s.service.jobs
  keys : (∀ e ∈ s'.service.jobs, ¬ s.service.Given e.1) ∨ ∀ (i : ℕ) (c : Client), s.clients[i]? = some c →
    ∃ c' : Client, s'.clients[i]? = some c' ∧ c.miningSubmissionHashes ⊆ c'.miningSubmissionHashes

variable {s s' s'' : World P}

theorem Keeps.trans (first : Keeps s s') (second : Keeps s' s'') : Keeps s s'' where
  accepted := second.accepted.trans first.accepted
  counts := first.counts.trans second.counts
  numbered n := second.numbered (first.numbered n)
  jobs e member given := first.jobs e (second.jobs e member (given.mono first.counts)) given
  keys := by
    cases first.keys with
    | inl gone =>
      refine .inl fun e member given => ?_
      exact gone e (second.jobs e member (given.mono first.counts)) given
    | inr kept =>
      cases second.keys with
      | inl gone => exact .inl fun e member given => gone e member (given.mono first.counts)
      | inr kept' =>
        refine .inr fun i c at_i => ?_
        obtain ⟨c', at_i', sub⟩ := kept i c at_i
        obtain ⟨c'', at_i'', sub'⟩ := kept' i c' at_i'
        exact ⟨c'', at_i'', List.Subset.trans sub sub'⟩

theorem Credits.keeps (credits : Credits s) (keeps : Keeps s s') : Credits s' := by
  refine ⟨keeps.numbered credits.numbered, ?_, ?_, ?_, ?_⟩
  all_goals rw [keeps.accepted]
  · exact fun e member => (credits.given e member).mono keeps.counts
  · intro e member job stored
    cases keeps.keys with
    | inl gone => exact absurd (credits.given e member) (gone _ stored)
    | inr kept =>
      obtain ⟨c, at_i, key⟩ := credits.keyed e member job (keeps.jobs _ stored (credits.given e member))
      obtain ⟨c', at_i', sub⟩ := kept _ c at_i
      exact ⟨c', at_i', sub key⟩
  · exact credits.built
  · exact credits.nodup

/-! ## Steps that accept no share -/

theorem keys_of_forall₂ (clients : List.Forall₂ Client.Quiet s.clients s'.clients) (i : ℕ) (c : Client)
    (at_i : s.clients[i]? = some c) :
    ∃ c', s'.clients[i]? = some c' ∧ c.miningSubmissionHashes ⊆ c'.miningSubmissionHashes := by
  obtain ⟨bound, rfl⟩ := List.getElem?_eq_some_iff.mp at_i
  have bound' : i < s'.clients.length := by
    rw [← clients.length_eq]
    exact bound
  exact ⟨_, List.getElem?_eq_getElem bound', (clients.get bound bound').keys⟩

theorem keeps_of_clients (service : s'.service = s.service) (accepted : s'.accepted = s.accepted)
    (clients : List.Forall₂ Client.Quiet s.clients s'.clients) : Keeps s s' := by
  refine ⟨accepted, by rw [service], by rw [service]; exact id, ?_, .inr (keys_of_forall₂ clients)⟩
  rw [service]
  exact fun e member _ => member

theorem keeps_of_quiet (quiet : s.Quiet s') : Keeps s s' := keeps_of_clients quiet.service quiet.accepted quiet.clients

/-- A template that was built is only a loss to the jobs. -/
theorem keeps_built (s : World P) (coinbaseAddress : String) (blockTemplate : BlockTemplate) (nowMs : ℤ) :
    Keeps s { s with service := (s.service.buildTemplateFor coinbaseAddress blockTemplate nowMs).1 } := by
  obtain ⟨jobs, latest⟩ :=
    JobsService.jobs_buildTemplateFor s.service coinbaseAddress blockTemplate nowMs
  refine ⟨rfl, latest.ge, fun numbered e member => ?_, fun e member _ => jobs member,
    .inr fun i c at_i => ⟨c, at_i, List.Subset.refl _⟩⟩
  exact (numbered e (jobs member)).mono latest.ge

theorem jobId_of_newJob {config : StratumConfig} {service : JobsService P} {t : JobTemplate} {nowMs : ℤ}
    {job : MiningJob P} (made : Client.newJob P config service t nowMs = some job) : job.jobId = service.getNextId := by
  obtain ⟨address, -, rest⟩ := Option.bind_eq_some_iff.mp made
  obtain ⟨network, -, built⟩ := Option.bind_eq_some_iff.mp rest
  exact (MiningJob.new_eq_some built).1

theorem set_keys {i : ℕ} {c₀ c : Client} (at_i : s.clients[i]? = some c₀)
    (sub : c₀.miningSubmissionHashes ⊆ c.miningSubmissionHashes) (j : ℕ) (d : Client) (at_j : s.clients[j]? = some d) :
    ∃ d', (s.clients.set i c)[j]? = some d' ∧ d.miningSubmissionHashes ⊆ d'.miningSubmissionHashes := by
  rw [List.getElem?_set]
  split
  · rename_i same
    subst same
    obtain ⟨bound, -⟩ := List.getElem?_eq_some_iff.mp at_i
    rw [at_i] at at_j
    cases at_j
    exact ⟨c, by simp [bound], sub⟩
  · exact ⟨d, at_j, List.Subset.refl _⟩

/-- Sending adds at most one job, under an id that was never used. The client may have lost its
keys if there were no jobs. -/
theorem keeps_send {config : StratumConfig} {i : ℕ} {c₀ c : Client} {t : JobTemplate} {nowMs : ℤ} {ends : Bool}
    (at_i : s.clients[i]? = some c₀)
    (keys : s.service.jobs = [] ∨ c₀.miningSubmissionHashes ⊆ c.miningSubmissionHashes) :
    Keeps s (Call.send config s i c t nowMs ends).1 := by
  have unsent : ∀ c' : Client, c'.miningSubmissionHashes = c.miningSubmissionHashes → Keeps s (s.setClient i c') := by
    intro c' same
    refine ⟨rfl, Nat.le_refl _, id, fun e member _ => member, ?_⟩
    obtain none | sub := keys
    · refine .inl fun e member => ?_
      rw [show (s.setClient i c').service.jobs = [] from none] at member
      cases member
    · exact .inr (set_keys at_i (same ▸ sub))
  obtain ⟨-, sent⟩ | ⟨-, sent⟩ | ⟨job, -, made, sent⟩ := Call.send_cases config s i c t nowMs ends
  · rw [sent]
    exact unsent c rfl
  · rw [sent]
    exact unsent _ rfl
  · rw [sent]
    have fresh : ¬ s.service.Given job.jobId := jobId_of_newJob made ▸ JobsService.not_given_getNextId
    refine ⟨rfl, Nat.le_succ _, fun numbered e member => ?_, fun e member given => ?_, ?_⟩
    · obtain old | new := JobsService.mem_jobs_addJob member
      · exact (numbered e old).mono (Nat.le_succ _)
      · rw [new]
        exact ⟨s.service.latestJobId, Nat.lt_succ_self _, jobId_of_newJob made⟩
    · obtain old | new := JobsService.mem_jobs_addJob member
      · exact old
      · rw [new] at given
        exact absurd given fresh
    · obtain none | sub := keys
      · refine .inl fun e member => ?_
        obtain old | new := JobsService.mem_jobs_addJob member
        · rw [none] at old
          cases old
        · rw [new]
          exact fresh
      · exact .inr (set_keys at_i sub)

variable {config : StratumConfig} {i : ℕ} {c : Client} {blockTemplate : BlockTemplate} {coinbaseAddress : String}
  {nowMs : ℤ}

/-- A refresh takes the keys of its session only if it has emptied the store. -/
theorem keeps_refreshed {onNewBlock : Bool} (at_i : s.clients[i]? = some c) :
    Keeps s (Call.refreshed config s i c coinbaseAddress blockTemplate nowMs onNewBlock).1 := by
  have keeps := keeps_built s coinbaseAddress blockTemplate nowMs
  unfold Call.refreshed
  split
  · rename_i service failed
    rw [failed] at keeps
    exact keeps.trans (keeps_of_quiet (World.quiet_setClient at_i (c.quiet_endSocket onNewBlock)))
  · rename_i service t built
    rw [built] at keeps
    apply keeps.trans (keeps_send at_i _)
    have result : (s.service.buildTemplateFor coinbaseAddress blockTemplate nowMs).2 = some t := by rw [built]
    cases clears : t.blockData.clearJobs with
    | true =>
      have none := JobsService.jobs_eq_nil_of_clearJobs result clears
      rw [built] at none
      exact .inl none
    | false => exact .inr (by simp [Client.adoptTemplate, clears])

theorem keeps_sendDifficultyTemplate {t : JobTemplate} (difficulty : Number) (at_i : s.clients[i]? = some c) :
    Keeps s (Call.sendDifficultyTemplate config s i { c with sessionDifficulty := difficulty } t nowMs).1 :=
  keeps_send at_i (.inr (List.Subset.refl _))

theorem keeps_difficultyBuilt (at_i : s.clients[i]? = some c) :
    Keeps s (Call.difficultyBuilt config s i c coinbaseAddress blockTemplate nowMs).1 := by
  have keeps := keeps_built s coinbaseAddress blockTemplate nowMs
  unfold Call.difficultyBuilt
  split
  · rename_i service failed
    rw [failed] at keeps
    exact keeps
  · rename_i service t built
    rw [built] at keeps
    exact keeps.trans (keeps_sendDifficultyTemplate c.sessionDifficulty at_i)

variable {call : Call P} {a : Answer} {r : World P × Call P}

theorem keeps_work (work : Call.WorkStep config s call a r) : Keeps s r.1 := by
  cases work with
  | quiet quiet pending => exact keeps_of_quiet quiet
  | connect sessionId =>
    refine ⟨rfl, Nat.le_refl _, id, fun e member _ => member, .inr fun j d at_j => ?_⟩
    obtain ⟨bound, -⟩ := List.getElem?_eq_some_iff.mp at_j
    refine ⟨d, ?_, List.Subset.refl _⟩
    show (s.clients ++ _)[j]? = some d
    rw [List.getElem?_append_left bound, at_j]
  | refreshed is_call is_answer at_i => exact keeps_refreshed at_i
  | localWork at_i found => exact keeps_send at_i (.inr (List.Subset.refl _))
  | difficulty d at_i current => exact keeps_sendDifficultyTemplate d at_i
  | difficultyBuilt coinbaseAddress blockTemplate at_i => exact keeps_difficultyBuilt at_i

/-! ## A share that is accepted -/

/-- The submission a handler begins with. -/
def Call.submission : Call P → Option (ℕ × MiningSubmitMessage)
  | .submit i m => some (i, m)
  | _ => none

/-- A submission that asks for the header of an accepted share is that share sent again: by the
same session, for the same job, in the same texts. -/
def RepeatsVerbatim (s : World P) (i : ℕ) (m : MiningSubmitMessage) : Prop :=
  ∀ job ∈ s.service.getJobById m.jobId, ∀ t ∈ s.service.getJobTemplateById job.jobTemplateId, ∀ e ∈ s.accepted,
    headerFields e.job e.jobTemplate e.submission = headerFields job t m →
      e.client = i ∧ e.submission.jobId = m.jobId ∧ e.submission.submissionHash = m.submissionHash

instance (s : World P) (i : ℕ) (m : MiningSubmitMessage) : Decidable (RepeatsVerbatim s i m) :=
  inferInstanceAs (Decidable (∀ job ∈ s.service.getJobById m.jobId,
    ∀ t ∈ s.service.getJobTemplateById job.jobTemplateId, ∀ e ∈ s.accepted,
      headerFields e.job e.jobTemplate e.submission = headerFields job t m →
        e.client = i ∧ e.submission.jobId = m.jobId ∧ e.submission.submissionHash = m.submissionHash))

/-- **The step of the duplicate check**: a share that passes it has a new header. -/
theorem Credits.judged {m : MiningSubmitMessage} (credits : Credits s) (at_i : s.clients[i]? = some c)
    (repeats : RepeatsVerbatim s i m) :
    Credits (Call.judged s i (handleMiningSubmission s.service i c m)).1 := by
  have quiet := Call.quiet_handleMiningSubmission s.service i c m
  obtain ⟨service, shareLog, clients⟩ := Call.judged_quiet at_i quiet
  cases handled : handleMiningSubmission s.service i c m with
  | mk c' verdict =>
    rw [handled] at quiet service clients
    cases verdict with
    | refused code message => exact credits.keeps (keeps_of_clients service rfl clients)
    | threw => exact credits.keeps (keeps_of_clients service rfl clients)
    | accepted share =>
      obtain ⟨job, t, header, found, foundTemplate, unseen, built, keys, rfl⟩ :=
        Call.accepted_of_handleMiningSubmission handled
      have kept : ∀ (j : ℕ) (d : Client), s.clients[j]? = some d → ∃ d' : Client,
          (s.clients.set i c')[j]? = some d' ∧ d.miningSubmissionHashes ⊆ d'.miningSubmissionHashes :=
        set_keys at_i quiet.keys
      have stored := JobsService.mem_of_getJobById found
      -- an accepted share with this header would be this submission, whose key is not there yet
      have fresh : ∀ e ∈ s.accepted, e.header ≠ header := by
        intro e member same
        have fields := headerFields_eq_of_headerOf (same ▸ credits.built e member) built
        obtain ⟨client, jobId, key⟩ := repeats job found t foundTemplate e member fields
        obtain ⟨d, at_e, seen⟩ := credits.keyed e member job (jobId ▸ stored)
        rw [client, at_i] at at_e
        cases at_e
        exact unseen (key ▸ seen)
      refine ⟨credits.numbered, ?_, ?_, ?_, ?_⟩
      · intro e member
        obtain old | new := List.mem_append.mp member
        · exact credits.given e old
        · cases List.mem_singleton.mp new
          exact credits.numbered _ stored
      · intro e member job' stored'
        obtain old | new := List.mem_append.mp member
        · obtain ⟨d, at_e, key⟩ := credits.keyed e old job' stored'
          obtain ⟨d', at_e', sub⟩ := kept e.client d at_e
          exact ⟨d', at_e', sub key⟩
        · cases List.mem_singleton.mp new
          obtain ⟨bound, -⟩ := List.getElem?_eq_some_iff.mp at_i
          refine ⟨c', List.getElem?_set_self bound, ?_⟩
          rw [keys]
          exact List.mem_append_right _ (List.mem_singleton_self _)
      · intro e member
        obtain old | new := List.mem_append.mp member
        · exact credits.built e old
        · cases List.mem_singleton.mp new
          exact built
      · show (List.map (·.header) (s.accepted ++ [_])).Nodup
        rw [List.map_append, List.map_singleton, List.nodup_append]
        refine ⟨credits.nodup, List.nodup_singleton _, ?_⟩
        intro h old h' new
        obtain ⟨e, member, rfl⟩ := List.mem_map.mp old
        rw [List.mem_singleton.mp new]
        exact fresh e member

theorem credits_share (credits : Credits s) (repeats : ∀ x ∈ call.submission, RepeatsVerbatim s x.1 x.2)
    (share : Call.ShareStep s call a r) : Credits r.1 := by
  cases share with
  | quiet quiet pending => exact credits.keeps (keeps_of_quiet quiet)
  | judged is_call is_answer at_i =>
    subst is_call is_answer
    exact credits.judged at_i (repeats _ rfl)
  | replied share is_call quiet pending => exact credits.keeps (keeps_of_quiet quiet)
  | recorded share record is_call header quiet pending =>
    exact credits.keeps (keeps_of_clients quiet.service quiet.accepted quiet.clients)

/-! ## Shares on their way to the share log -/

/-- The headers that are credited, and those on their way (`held`), all belong to different
accepted shares. -/
def Backed (s : World P) (held : Multiset Buffer) : Prop :=
  ↑(s.shareLog.map (·.header)) + held ≤ (↑(s.accepted.map (·.header)) : Multiset Buffer)

/-- A call may drop what it holds. -/
theorem Backed.drop {dropped rest : Multiset Buffer} (backed : Backed s (dropped + rest))
    (shareLog : s'.shareLog = s.shareLog) (accepted : s'.accepted = s.accepted) : Backed s' (0 + rest) := by
  rw [Backed, shareLog, accepted, zero_add]
  calc ↑(s.shareLog.map (·.header)) + rest
      ≤ ↑(s.shareLog.map (·.header)) + (dropped + rest) := by
        apply add_le_add (le_refl _)
        exact Multiset.le_add_left rest dropped
    _ ≤ _ := backed

theorem records_send {t : JobTemplate} {ends : Bool} :
    (Call.send config s i c t nowMs ends).1.shareLog = s.shareLog ∧
      (Call.send config s i c t nowMs ends).2.pending = [] := by
  obtain ⟨-, sent⟩ | ⟨-, sent⟩ | ⟨job, -, -, sent⟩ := Call.send_cases config s i c t nowMs ends
  all_goals
    rw [sent]
    exact ⟨rfl, rfl⟩

/-- Work never touches the share log. -/
theorem records_work (work : Call.WorkStep config s call a r) : r.1.shareLog = s.shareLog ∧ r.2.pending = [] := by
  cases work with
  | quiet quiet pending => exact ⟨quiet.shareLog, pending⟩
  | connect sessionId => exact ⟨rfl, rfl⟩
  | @refreshed i coinbaseAddress onNewBlock blockTemplate nowMs c is_call is_answer at_i =>
    unfold Call.refreshed
    split
    · exact ⟨rfl, rfl⟩
    · obtain ⟨shareLog, pending⟩ := records_send
      exact ⟨shareLog, pending⟩
  | localWork at_i found => exact records_send
  | difficulty d at_i current => exact records_send
  | @difficultyBuilt i nowMs c coinbaseAddress blockTemplate at_i =>
    unfold Call.difficultyBuilt
    split
    · exact ⟨rfl, rfl⟩
    · obtain ⟨shareLog, pending⟩ := records_send
      exact ⟨shareLog, pending⟩

theorem backed_share {rest : Multiset Buffer} (backed : Backed s (↑call.pending + rest))
    (share : Call.ShareStep s call a r) : Backed r.1 (↑r.2.pending + rest) := by
  cases share with
  | quiet quiet pending =>
    rw [pending]
    exact backed.drop quiet.shareLog quiet.accepted
  | @judged i m nowMs c is_call is_answer at_i =>
    cases handled : handleMiningSubmission s.service i c m with
    | mk c' verdict =>
      cases verdict with
      | refused code message => exact backed.drop rfl rfl
      | threw => exact backed.drop rfl rfl
      | accepted share =>
        have more := add_le_add (backed.drop rfl rfl) (le_refl {share.header})
        show ↑(s.shareLog.map (·.header)) + (↑[share.header] + rest) ≤
          (↑((s.accepted ++ [share]).map (·.header)) : Multiset Buffer)
        rw [List.map_append, List.map_singleton, ← Multiset.coe_add, Multiset.coe_singleton]
        calc ↑(s.shareLog.map (·.header)) + ({share.header} + rest)
            = ↑(s.shareLog.map (·.header)) + (0 + rest) + {share.header} := by
              rw [zero_add, add_comm {share.header} rest, add_assoc]
          _ ≤ _ := more
  | replied share is_call quiet pending =>
    subst is_call
    rw [Backed, quiet.shareLog, quiet.accepted, pending]
    exact backed
  | recorded share record is_call header quiet pending =>
    subst is_call
    rw [Backed, quiet.shareLog, quiet.accepted, pending, List.map_append, List.map_singleton, header,
      ← Multiset.coe_add, Multiset.coe_nil, zero_add, add_assoc]
    exact backed

theorem backed_step {p p' : Server P} {e : Event (Call P) Answer}
    (backed : Backed p.shared (p.calls.map fun call => (↑call.pending : Multiset Buffer)).sum)
    (moved : Server.step config p e = some p') :
    Backed p'.shared (p'.calls.map fun call => (↑call.pending : Multiset Buffer)).sum := by
  refine Pool.total_step Backed (fun call begins => ?_) ?_ backed moved
  · cases call <;> first | rfl | cases begins
  · intro call _ k a s' call' rest _ resumed backed
    obtain work | share := Call.step_of_resume resumed
    · obtain ⟨shareLog, pending⟩ := records_work work
      rw [show call'.pending = [] from pending]
      exact backed.drop shareLog (keeps_work work).accepted
    · exact backed_share backed share

/-- The condition on the events of the sessions. -/
def Verbatim (p : Server P) (e : Event (Call P) Answer) : Prop :=
  Pool.Allowed (fun _ _ => True) (fun s _ t _ => ∀ x ∈ t.submission, RepeatsVerbatim s x.1 x.2) p e

instance (p : Server P) (e : Event (Call P) Answer) : Decidable (Verbatim p e) :=
  inferInstanceAs (Decidable (Pool.Allowed (fun _ _ => True) (fun s _ t _ => ∀ x ∈ t.submission, RepeatsVerbatim s x.1 x.2) p e))

theorem credits_step {p p' : Server P} {e : Event (Call P) Answer} (credits : Credits p.shared)
    (verbatim : Verbatim p e) (moved : Server.step config p e = some p') : Credits p'.shared := by
  obtain ⟨call, rfl, start, rfl⟩ | ⟨before, call, after, a, s', call', rfl, calls, resumed, rfl⟩ :=
    Pool.step_cases moved
  · exact credits
  · have repeats : ∀ x ∈ call.submission, RepeatsVerbatim p.shared x.1 x.2 := verbatim.continues calls
    obtain work | share := Call.step_of_resume resumed
    · exact credits.keeps (keeps_work work)
    · exact credits_share credits repeats share

end

/-- **No header is credited twice**: in every run in which whoever asks for the header of an
accepted share again repeats that share in its session and word for word, the records of the
share log have different headers. -/
theorem nodup_shareLog_of_verbatim {P : Packages} {config : StratumConfig} {p : Server P}
    (run : Reaches (Server.step config) Verbatim (.initial P) p) : (p.shared.shareLog.map (·.header)).Nodup := by
  have both : Credits p.shared ∧
      Backed p.shared (p.calls.map fun call => (↑call.pending : Multiset Buffer)).sum := by
    apply run.invariant
    · refine ⟨⟨?_, ?_, ?_, ?_, List.nodup_nil⟩, le_refl _⟩
      all_goals
        intro e member
        cases member
    · exact fun _ _ _ both verbatim moved => ⟨credits_step both.1 verbatim moved, backed_step both.2 moved⟩
  have credited : (↑(p.shared.shareLog.map (·.header)) : Multiset Buffer) ≤ ↑(p.shared.accepted.map (·.header)) :=
    le_trans (Multiset.le_add_right _ _) both.2
  exact Multiset.coe_nodup.mp (Multiset.nodup_of_le credited (Multiset.coe_nodup.mpr both.1.nodup))

/-- Two nonces, two records. -/
theorem nodup_shareLog_of_verbatim_two_nonces : ∃ p : Server Regtest.packages,
    p.shared.shareLog.length = 2 ∧ (p.shared.shareLog.map (·.header)).Nodup := by
  obtain ⟨p, run, two⟩ := exists_reaches (Server.step Regtest.config) Verbatim (.initial Regtest.packages)
    (Regtest.twoShares (Regtest.submission "00000002") (Regtest.submission "00000004"))
    (fun p => p.shared.shareLog.length = 2) (by decide +kernel)
  exact ⟨p, two, nodup_shareLog_of_verbatim run⟩

/-- The same nonce with another second extranonce is credited again. -/
theorem not_nodup_shareLog_other_extraNonce2 : ¬ ∀ (P : Packages) (config : StratumConfig) (p : Server P),
    Reaches (Server.step config) Always (.initial P) p → (p.shared.shareLog.map (·.header)).Nodup := by
  intro claim
  obtain ⟨p, run, twice⟩ := exists_reaches (Server.step Regtest.config) Always (.initial Regtest.packages)
    (Regtest.twoShares (Regtest.submission "00000004") { Regtest.submission "00000004" with extraNonce2 := "00" })
    (fun p => ¬ (p.shared.shareLog.map (·.header)).Nodup) (by decide +kernel)
  exact twice (claim _ _ p run)

end ElektronPool.Stratum
