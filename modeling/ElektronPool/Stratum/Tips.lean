import ElektronPool.Stratum.LateReplies

/-!
# Shares on an abandoned tip

`buildTemplateFor` takes a new height for a new tip and the height it remembers for the old
one. Where another block takes the place of the tip at the same height, the templates of both
stand in the store together, with their jobs. `newestTip` records, beside the state, the
previous block of the template that was built last.
-/

namespace ElektronPool.Stratum
set_option autoImplicit false
open Js Bitcoin Async

section
variable {P : Packages} {config : StratumConfig}

/-- The template that an event has built. -/
def Server.built (p : Server P) (e : Event (Call P) Answer) : Option JobTemplate :=
  (p.reply e).bind fun r => (p.shared.service.buildTemplateFor r.coinbaseAddress r.blockTemplate r.nowMs).2

def newestTip (tip : Option Hash) (p : Server P) (e : Event (Call P) Answer) (_ : Server P) : Option Hash :=
  ((p.built e).map (·.block.prevHash)).or tip

/-- A template that can be built for the height remembered names the previous block of every
template that it leaves in the store. -/
def OneTip (p : Server P) (e : Event (Call P) Answer) : Prop :=
  ∀ r ∈ p.reply e, (templateTransactions P r.blockTemplate).isSome →
    p.shared.service.clearsJobs r.coinbaseAddress r.blockTemplate.height = false →
    ∀ x ∈ (p.shared.service.evict false r.nowMs).blocks, x.2.block.prevHash = r.blockTemplate.previousblockhash.reverse

instance (p : Server P) (e : Event (Call P) Answer) : Decidable (OneTip p e) := by
  unfold OneTip
  infer_instance

/-- Whatever a submission can find in the store, and be accepted for, is on the tip. -/
structure OnTip (service : JobsService P) (tip : Option Hash) : Prop where
  resolved : ∀ jobId job t, service.getJobById jobId = some job →
    service.getJobTemplateById job.jobTemplateId = some t → tip = some t.block.prevHash
  accepted : ∀ i c m c' share, handleMiningSubmission service i c m = (c', .accepted share) →
    tip = some share.jobTemplate.block.prevHash

theorem onTip_of_blocks {service : JobsService P} {tip : Option Hash}
    (blocks : ∀ x ∈ service.blocks, tip = some x.2.block.prevHash) : OnTip service tip where
  resolved jobId job t _ found := blocks _ (OrderedMap.mem_of_get found)
  accepted i c m c' share handled := by
    obtain ⟨job, t, header, -, found, -, -, -, rfl⟩ := Call.accepted_of_handleMiningSubmission handled
    exact blocks _ (OrderedMap.mem_of_get found)

/-- A template that can be built has been. -/
theorem isSome_buildTemplateFor (service : JobsService P) (r : Reply) :
    (service.buildTemplateFor r.coinbaseAddress r.blockTemplate r.nowMs).2.isSome =
      (templateTransactions P r.blockTemplate).isSome := by
  unfold JobsService.buildTemplateFor
  dsimp only
  split
  · rename_i failed
    rw [failed]
    rfl
  · rename_i built
    rw [built]
    rfl

/-- A reply of the node leaves one tip in the store, if it names that of the templates left. -/
theorem blocks_afterReply {service : JobsService P} {tip : Option Hash} {r : Reply}
    (blocks : ∀ x ∈ service.blocks, tip = some x.2.block.prevHash)
    (same : (templateTransactions P r.blockTemplate).isSome →
      service.clearsJobs r.coinbaseAddress r.blockTemplate.height = false →
      ∀ x ∈ (service.evict false r.nowMs).blocks, x.2.block.prevHash = r.blockTemplate.previousblockhash.reverse) :
    ∀ x ∈ (service.afterReply (some r)).blocks,
      (((service.buildTemplateFor r.coinbaseAddress r.blockTemplate r.nowMs).2.map (·.block.prevHash)).or tip) =
        some x.2.block.prevHash := by
  obtain ⟨failed, unbuilt⟩ | ⟨t, found, built⟩ := service.buildTemplateFor_cases r
  · rw [failed, JobsService.afterReply, unbuilt.blocks]
    exact blocks
  · intro x member
    have can : (templateTransactions P r.blockTemplate).isSome := by
      rw [← isSome_buildTemplateFor service r, found]
      rfl
    rw [found, Option.map_some, Option.some_or]
    rw [JobsService.afterReply, built.blocks] at member
    obtain old | ⟨-, -, rfl⟩ := OrderedMap.mem_setWith member
    · cases clears : service.clearsJobs r.coinbaseAddress r.blockTemplate.height with
      | true =>
        rw [built.clearJobs, clears] at old
        cases old
      | false =>
        rw [built.clearJobs, clears] at old
        rw [built.prevHash, same can clears x old]
    · rfl

theorem blocks_step {p p' : Server P} {tip : Option Hash} {e : Event (Call P) Answer}
    (blocks : ∀ x ∈ p.shared.service.blocks, tip = some x.2.block.prevHash) (one : OneTip p e)
    (moved : Server.step config p e = some p') :
    ∀ x ∈ p'.shared.service.blocks, newestTip tip p e p' = some x.2.block.prevHash := by
  obtain ⟨t, rfl, start, rfl⟩ | ⟨before, t, after, a, s', t', rfl, calls, resumed, rfl⟩ := Pool.step_cases moved
  · exact blocks
  · rw [OneTip, Server.reply_resume calls] at one
    rw [newestTip, Server.built, Server.reply_resume calls]
    show ∀ x ∈ s'.service.blocks, _
    rw [(Call.service_of_resume resumed).1]
    cases replied : t.reply a with
    | none => exact blocks
    | some r => exact blocks_afterReply blocks (one r replied)

end

/-- **Everything in the store is on the newest tip**: in every run in which no template for the
height remembered meets one with another previous block in the store, each job that can be
submitted to, with its template, is for the previous block of the template built last. -/
theorem onTip_of_oneTip {P : Packages} {config : StratumConfig} {p : Server P} {tip : Option Hash}
    (run : Reaches (recording (Server.step config) newestTip) (fun q e => OneTip q.1 e) (.initial P, none) (p, tip)) :
    OnTip p.shared.service tip := by
  have blocks : ∀ x ∈ p.shared.service.blocks, tip = some x.2.block.prevHash := by
    apply run.invariant_recording
    · intro x member
      cases member
    · exact fun _ _ _ _ blocks one moved => blocks_step blocks one moved
  exact onTip_of_blocks blocks

namespace Regtest

/-- The reply of the node at a height, on another previous block. -/
def rivalTemplate (height : ℕ) : BlockTemplate := { template height with previousblockhash := .ofHex 7 }

/-- A session is sent job 1 at height 100, and asks again. -/
def secondRequest : List (Event (Call packages) Answer) :=
  [.start (.connect "01"), .resume 0 (.ran 0), .start (.authorize 0 ⟨"bcrt1qminer", "one"⟩), .resume 1 (.ran 0),
    .start (.refreshMiningJob 0 true), .resume 2 (.ran 0), .resume 2 (.template (template 100) 1700000000000),
    .start (.refreshMiningJob 0 false), .resume 3 (.ran 0)]

/-- Job 1 and its template are in the store, and the template built last is on the other block. -/
def Abandoned (q : Server packages × Option Hash) (abandoned : Bool) : Prop :=
  ∃ job ∈ q.1.shared.service.getJobById "1", ∃ t ∈ q.1.shared.service.getJobTemplateById job.jobTemplateId,
    decide (q.2 ≠ some t.block.prevHash) = abandoned

instance (q : Server packages × Option Hash) (abandoned : Bool) : Decidable (Abandoned q abandoned) := by
  unfold Abandoned
  infer_instance

end Regtest

/-- The second template is on the same block. -/
theorem onTip_of_oneTip_same_block : ∃ (p : Server Regtest.packages) (tip : Option Hash),
    Regtest.Abandoned (p, tip) false ∧ OnTip p.shared.service tip := by
  obtain ⟨⟨p, tip⟩, run, resolved⟩ := exists_reaches (recording (Server.step Regtest.config) newestTip)
    (fun q e => OneTip q.1 e) (.initial Regtest.packages, none)
    (Regtest.secondRequest ++ [.resume 3 (.template (Regtest.template 100) 1700000001000)])
    (fun q => Regtest.Abandoned q false) (by decide +kernel)
  exact ⟨p, tip, resolved, onTip_of_oneTip run⟩

/-- The second template is on another block of the same height. -/
theorem not_onTip_rival_block : ¬ ∀ (P : Packages) (config : StratumConfig) (p : Server P) (tip : Option Hash),
    Reaches (recording (Server.step config) newestTip) Always (.initial P, none) (p, tip) →
    OnTip p.shared.service tip := by
  intro claim
  obtain ⟨⟨p, tip⟩, run, job, stored, t, resolved, other⟩ := exists_reaches
    (recording (Server.step Regtest.config) newestTip) Always (.initial Regtest.packages, none)
    (Regtest.secondRequest ++ [.resume 3 (.template (Regtest.rivalTemplate 100) 1700000001000)])
    (fun q => Regtest.Abandoned q true) (by decide +kernel)
  exact of_decide_eq_true other ((claim _ _ _ _ run).resolved _ job t stored resolved)

end ElektronPool.Stratum
