import ElektronPool.Stratum.Regtest
import ElektronPool.Stratum.Steps

/-!
# clean_jobs on new heights

A miner must be told to drop its jobs when the height changes. The flag of a template comes
from a height remembered for the pool wallet, which all sessions share; a session's own
miner has seen the height of the last message it was sent. Work that is sent again, or for
a new difficulty, is for the session's current template, whose height is that of the last
message unless no job can be made of it (`Announces`).
-/

namespace ElektronPool.Stratum
set_option autoImplicit false
open Js Bitcoin Async

/-- A message for another height than the one before clears the jobs. -/
def ClearsOnNewHeight (m n : Notify) : Prop := n.height ≠ m.height → n.clearJobs = true

instance (m n : Notify) : Decidable (ClearsOnNewHeight m n) :=
  inferInstanceAs (Decidable (n.height ≠ m.height → n.clearJobs = true))

section
variable (P : Packages) (config : StratumConfig)

/-- A job can be made of the template. -/
def sendable (t : JobTemplate) : Bool :=
  config.getPoolWalletAddress.any fun address => config.networkOf.any fun network =>
    (coinbaseTransaction P network [⟨address, 100⟩] t).any fun tx =>
      !decide (maxBlockWeight < P.weight tx + P.blockWeight t.block.transactions) && (P.serialize tx).isSome

variable {P config}

theorem isSome_newJob (service : JobsService P) (t : JobTemplate) (nowMs : ℤ) :
    (Client.newJob P config service t nowMs).isSome = sendable P config t := by
  unfold Client.newJob sendable
  cases config.getPoolWalletAddress with
  | none => rfl
  | some address =>
    cases config.networkOf with
    | none => rfl
    | some network => simpa using MiningJob.isSome_new

/-- The messages of a client are in order, and its current template is the one its miner
knows, as long as there is anything to be sent. -/
structure Announces (P : Packages) (config : StratumConfig) (c : Client) : Prop where
  chain : c.notified.IsChain ClearsOnNewHeight
  current : c.connectionClosed = false → ∀ t ∈ c.currentJobTemplate, ∀ n ∈ c.notified.getLast?,
    t.blockData.height = n.height ∨ sendable P config t = false

theorem Announces.quiet {c c' : Client} (announces : Announces P config c) (quiet : c.Quiet c') :
    Announces P config c' := by
  refine ⟨quiet.notified ▸ announces.chain, fun isOpen t current n last => ?_⟩
  have wasOpen : c.connectionClosed = false := by
    cases was : c.connectionClosed with
    | true => rw [quiet.closed was] at isOpen; cases isOpen
    | false => rfl
  rw [quiet.notified] at last
  obtain same | gone := quiet.template
  · exact announces.current wasOpen t (same ▸ current) n last
  · rw [gone] at current
    cases current

variable {s : World P} {i : ℕ} {c : Client} {t : JobTemplate} {nowMs : ℤ} {ends : Bool}

theorem announces_setClient (all : ∀ c ∈ s.clients, Announces P config c) (announces : Announces P config c) :
    ∀ c' ∈ (s.setClient i c).clients, Announces P config c' := by
  intro c' member
  obtain old | rfl := List.mem_or_eq_of_mem_set member
  · exact all c' old
  · exact announces

/-- Sending a template to a client whose current template it is made from. -/
theorem announces_send (all : ∀ c ∈ s.clients, Announces P config c) (chain : c.notified.IsChain ClearsOnNewHeight)
    (made : ∀ current ∈ c.currentJobTemplate, current.blockData.height = t.blockData.height ∧
      sendable P config current = sendable P config t)
    (flag : c.connectionClosed = false → sendable P config t = true → ∀ n ∈ c.notified.getLast?,
      t.blockData.height ≠ n.height → t.blockData.clearJobs = true) :
    ∀ c' ∈ (Call.send config s i c t nowMs ends).1.clients, Announces P config c' := by
  have possible : sendable P config (c.versioned t) = sendable P config t := rfl
  obtain ⟨closed, sent⟩ | ⟨failed, sent⟩ | ⟨job, isOpen, some_job, sent⟩ :=
    Call.send_cases config s i c t nowMs ends
  · rw [sent]
    refine announces_setClient all ⟨chain, fun isOpen => ?_⟩
    rw [closed] at isOpen
    cases isOpen
  · rw [sent]
    refine announces_setClient all ⟨chain, fun _ current is_current _ _ => .inr ?_⟩
    rw [(made current is_current).2, ← possible, ← isSome_newJob s.service _ nowMs, failed]
    rfl
  · have can : sendable P config t = true := by
      rw [← possible, ← isSome_newJob s.service _ nowMs, some_job]
      rfl
    rw [sent]
    refine announces_setClient (s := { s with service := s.service.addJob job }) all ⟨?_, ?_⟩
    · refine chain.append (List.isChain_singleton _) fun n last m single => ?_
      cases single
      exact flag isOpen can n last
    · intro _ current is_current n last
      rw [List.getLast?_concat] at last
      cases last
      exact .inl (made current is_current).1

/-! ## Every step -/

/-- The reply of the node to a refresh for another height than the session's last message:
the height remembered for the pool wallet is another one, too. -/
def HeightIsNews (s : World P) : Call P → Answer → Prop
  | .refreshTemplate i coinbaseAddress _, .template blockTemplate _ => ∀ c ∈ s.clients[i]?,
    c.connectionClosed = false → ∀ n ∈ c.notified.getLast?, n.height ≠ blockTemplate.height →
      (s.service.lastTemplateHeightByAddress.get coinbaseAddress).getD 0 ≠ blockTemplate.height
  | _, _ => True

instance (s : World P) (t : Call P) (a : Answer) : Decidable (HeightIsNews s t a) := by
  cases t with
  | refreshTemplate i coinbaseAddress onNewBlock =>
    cases a with
    | template blockTemplate nowMs =>
      exact inferInstanceAs (Decidable (∀ c ∈ s.clients[i]?, c.connectionClosed = false →
        ∀ n ∈ c.notified.getLast?, n.height ≠ blockTemplate.height →
          (s.service.lastTemplateHeightByAddress.get coinbaseAddress).getD 0 ≠ blockTemplate.height))
    | _ => exact .isTrue trivial
  | _ => exact .isTrue trivial

theorem announces_refreshed {coinbaseAddress : String} {blockTemplate : BlockTemplate} {onNewBlock : Bool}
    (all : ∀ c ∈ s.clients, Announces P config c) (at_i : s.clients[i]? = some c)
    (news : c.connectionClosed = false → ∀ n ∈ c.notified.getLast?, n.height ≠ blockTemplate.height →
      (s.service.lastTemplateHeightByAddress.get coinbaseAddress).getD 0 ≠ blockTemplate.height) :
    ∀ c' ∈ (Call.refreshed config s i c coinbaseAddress blockTemplate nowMs onNewBlock).1.clients,
      Announces P config c' := by
  have own := all c (List.mem_of_getElem? at_i)
  unfold Call.refreshed
  split
  · exact announces_setClient (s := { s with service := _ }) all (own.quiet (c.quiet_endSocket onNewBlock))
  · rename_i service t built
    have result : (s.service.buildTemplateFor coinbaseAddress blockTemplate nowMs).2 = some t := by rw [built]
    refine announces_send (s := { s with service := service }) all own.chain ?_ ?_
    · intro current is_current
      cases is_current
      exact ⟨rfl, rfl⟩
    · intro isOpen _ n last different
      rw [JobsService.height_buildTemplateFor result] at different
      rw [JobsService.clearJobs_buildTemplateFor result, JobsService.clearsJobs, decide_eq_true_eq]
      exact news isOpen n last (Ne.symm different)

theorem announces_sendDifficultyTemplate (all : ∀ c ∈ s.clients, Announces P config c)
    (chain : c.notified.IsChain ClearsOnNewHeight) :
    ∀ c' ∈ (Call.sendDifficultyTemplate config s i c t nowMs).1.clients, Announces P config c' := by
  refine announces_send all chain ?_ fun _ _ _ _ _ => rfl
  intro current is_current
  cases is_current
  exact ⟨rfl, rfl⟩

theorem announces_quiet {s' : World P} (all : ∀ c ∈ s.clients, Announces P config c)
    (clients : List.Forall₂ Client.Quiet s.clients s'.clients) : ∀ c ∈ s'.clients, Announces P config c := by
  intro c' member
  obtain ⟨k, bound, rfl⟩ := List.mem_iff_getElem.mp member
  have related := clients.get (by rw [clients.length_eq]; exact bound) bound
  exact (all _ (List.get_mem _ _)).quiet related

theorem announces_work {call : Call P} {a : Answer} {r : World P × Call P}
    (all : ∀ c ∈ s.clients, Announces P config c) (news : HeightIsNews s call a)
    (work : Call.WorkStep config s call a r) : ∀ c ∈ r.1.clients, Announces P config c := by
  cases work with
  | quiet quiet pending => exact announces_quiet all quiet.clients
  | connect sessionId =>
    intro c member
    obtain old | new := List.mem_append.mp member
    · exact all c old
    · cases List.mem_singleton.mp new
      exact ⟨.nil, fun _ t none => nomatch none⟩
  | refreshed is_call is_answer at_i =>
    subst is_call is_answer
    exact announces_refreshed all at_i (news _ at_i)
  | @localWork i nowMs c template at_i found =>
    have own := all c (List.mem_of_getElem? at_i)
    unfold Client.localTemplate at found
    split at found
    · cases found
    obtain ⟨t, current, rfl⟩ := Option.map_eq_some_iff.mp found
    refine announces_send all own.chain ?_ ?_
    · intro current' is_current
      rw [current] at is_current
      cases is_current
      exact ⟨rfl, rfl⟩
    · -- the template is not new, so its height is that of the last message
      intro isOpen can n last different
      obtain same | cannot := own.current isOpen t current n last
      · exact absurd same different
      · have possible : sendable P config t = true := can
        rw [cannot] at possible
        cases possible
  | difficulty d at_i current =>
    exact announces_sendDifficultyTemplate all (all _ (List.mem_of_getElem? at_i)).chain
  | @difficultyBuilt i nowMs c coinbaseAddress blockTemplate at_i =>
    have own := all c (List.mem_of_getElem? at_i)
    unfold Call.difficultyBuilt
    split
    · exact all
    · exact announces_sendDifficultyTemplate (s := { s with service := _ }) all own.chain

theorem announces_share {call : Call P} {a : Answer} {r : World P × Call P}
    (all : ∀ c ∈ s.clients, Announces P config c) (share : Call.ShareStep s call a r) :
    ∀ c ∈ r.1.clients, Announces P config c := by
  cases share with
  | quiet quiet pending => exact announces_quiet all quiet.clients
  | @judged i m nowMs c is_call is_answer at_i =>
    exact announces_quiet all
      (Call.judged_quiet at_i (Call.quiet_handleMiningSubmission s.service i c m)).2.2
  | replied share is_call quiet pending => exact announces_quiet all quiet.clients
  | recorded share record is_call header quiet pending => exact announces_quiet all quiet.clients

/-- The condition on the events of the sessions. -/
def Heralded (p : Server P) (e : Event (Call P) Answer) : Prop :=
  Pool.Allowed (fun _ _ => True) (fun s _ t a => HeightIsNews s t a) p e

instance (p : Server P) (e : Event (Call P) Answer) : Decidable (Heralded p e) :=
  inferInstanceAs (Decidable (Pool.Allowed (fun _ _ => True) (fun s _ t a => HeightIsNews s t a) p e))

theorem announces_step {p p' : Server P} {e : Event (Call P) Answer}
    (all : ∀ c ∈ p.shared.clients, Announces P config c) (heralded : Heralded p e)
    (moved : Server.step config p e = some p') : ∀ c ∈ p'.shared.clients, Announces P config c := by
  obtain ⟨call, rfl, start, rfl⟩ | ⟨before, call, after, a, s', call', rfl, calls, resumed, rfl⟩ :=
    Pool.step_cases moved
  · exact all
  · have news : HeightIsNews p.shared call a := heralded.continues calls
    obtain work | share := Call.step_of_resume resumed
    · exact announces_work all news work
    · exact announces_share all share

end

/-- **Every new height clears the jobs**: in every run in which no refresh of a session finds
its new height remembered already, each `mining.notify` whose height differs from the one
before to the same session has its `clean_jobs` flag set. -/
theorem clearsOnNewHeight_of_heralded {P : Packages} {config : StratumConfig} {p : Server P}
    (run : Reaches (Server.step config) Heralded (.initial P) p) :
    ∀ c ∈ p.shared.clients, c.notified.IsChain ClearsOnNewHeight := by
  have announces : ∀ c ∈ p.shared.clients, Announces P config c := by
    apply run.invariant
    · intro c member
      cases member
    · exact fun _ _ _ all heralded moved => announces_step all heralded moved
  exact fun c member => (announces c member).chain

/-- One session is sent work at height 100 and then at height 101. -/
theorem clearsOnNewHeight_of_heralded_one_session : ∃ p : Server Regtest.packages,
    (∃ c ∈ p.shared.clients, c.notified.map (·.height) = [100, 101]) ∧
      ∀ c ∈ p.shared.clients, c.notified.IsChain ClearsOnNewHeight := by
  obtain ⟨p, run, heights⟩ := exists_reaches (Server.step Regtest.config) Heralded (.initial Regtest.packages)
    [.start (.connect "01"), .resume 0 (.ran 0), .start (.authorize 0 ⟨"bcrt1qminer", "one"⟩), .resume 1 (.ran 0),
      .start (.refreshMiningJob 0 true), .resume 2 (.ran 0), .resume 2 (.template (Regtest.template 100) 1700000000000),
      .resume 2 (.written true 1700000000000),
      .start (.refreshMiningJob 0 true), .resume 3 (.ran 0), .resume 3 (.template (Regtest.template 101) 1700000060000)]
    (fun p => ∃ c ∈ p.shared.clients, c.notified.map (·.height) = [100, 101]) (by decide +kernel)
  exact ⟨p, heights, clearsOnNewHeight_of_heralded run⟩

/-- Two sessions work at height 100. The first one refreshes at height 101, and the second finds
that height remembered: its message for 101 does not clear the jobs. -/
theorem not_clearsOnNewHeight_two_sessions : ¬ ∀ (P : Packages) (config : StratumConfig) (p : Server P),
    Reaches (Server.step config) Always (.initial P) p →
    ∀ c ∈ p.shared.clients, c.notified.IsChain ClearsOnNewHeight := by
  intro claim
  obtain ⟨p, run, broken⟩ := exists_reaches (Server.step Regtest.config) Always (.initial Regtest.packages)
    [.start (.connect "01"), .resume 0 (.ran 0), .start (.authorize 0 ⟨"bcrt1qminer", "one"⟩), .resume 1 (.ran 0),
      .start (.connect "02"), .resume 2 (.ran 0), .start (.authorize 1 ⟨"bcrt1qminer", "two"⟩), .resume 3 (.ran 0),
      .start (.refreshMiningJob 0 true), .resume 4 (.ran 0), .resume 4 (.template (Regtest.template 100) 1700000000000),
      .start (.refreshMiningJob 1 true), .resume 5 (.ran 0), .resume 5 (.template (Regtest.template 100) 1700000000000),
      .start (.refreshMiningJob 0 true), .resume 6 (.ran 0), .resume 6 (.template (Regtest.template 101) 1700000060000),
      .start (.refreshMiningJob 1 true), .resume 7 (.ran 0), .resume 7 (.template (Regtest.template 101) 1700000060000)]
    (fun p => ¬ ∀ c ∈ p.shared.clients, c.notified.IsChain ClearsOnNewHeight) (by decide +kernel)
  exact broken (claim _ _ p run)

end ElektronPool.Stratum
