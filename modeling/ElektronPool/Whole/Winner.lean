import ElektronPool.Stratum.HighScores
import ElektronPool.Whole.Work

/-!
# The share that finds a block

A handler writes the share log before it looks for a block, so that the winning share is in the window
of its own block. It is, unless the statement failed, nobody was authorized, or the share has left
the window before the services were called (`winner_in_window`).
-/

namespace ElektronPool.Whole
set_option autoImplicit false
open Js Async

section
variable {P : Stratum.Packages} {config : Stratum.StratumConfig} {settings : Pplns.Settings}
  {s s' : Stratum.World P} {t t' : Stratum.Call P} {a : Stratum.Answer} {share : Stratum.Share P}

/-! ## Past the share log -/

/-- The share of a handler that is past the share log. -/
def logged : Stratum.Call P → Option (Stratum.Share P)
  | .submitting share | .awaiting share _ => some share
  | _ => none

/-- A handler gets past the share log without a row. -/
def skips (s : Stratum.World P) : Stratum.Call P → Stratum.Answer → List (Stratum.Share P)
  | .replyWritten share, .written true _ =>
    if (s.clients[share.client]?.bind (·.clientAuthorization)).isNone then [share] else []
  | .recording share .., .recorded false => [share]
  | _, _ => []

theorem share_of_logged (past : logged t = some share) : t.share = some share := by
  cases t with
  | submitting | awaiting => exact past
  | _ => cases past

/-- How a handler gets past the share log. -/
theorem logged_of_resume (resumed : Stratum.Call.resume config s t a = some (s', t')) (past : logged t' = some share) :
    logged t = some share ∨ share ∈ skips s t a ∨
      ∃ minerAddress timestamp, t = .recording share minerAddress timestamp ∧ a = .recorded true := by
  have held := share_of_logged past
  rw [Stratum.Call.resume, Option.or_eq_some_iff] at resumed
  obtain work | ⟨-, handled⟩ := resumed
  · have nothing := (Stratum.Call.workBranch_of_resumeWork work).share_eq.2
    rw [held] at nothing
    cases nothing
  · have branch := Stratum.Call.shareBranch_of_resumeShare handled
    generalize after : (s', t') = r at branch
    have same : t' = r.2 := congrArg Prod.snd after
    rw [same] at past held
    clear after same handled
    cases before : t.share with
    | none =>
      cases branch with
      | judged m nowMs at_i =>
        rename_i i c
        generalize Stratum.handleMiningSubmission s.service i c m = verdict at past
        obtain ⟨c', refused | threw | accepted⟩ := verdict <;> cases past
      | errorWritten | errorFailed => cases past
      | _ => cases before
    | some earlier =>
      obtain finished | kept := branch.holds before
      · rw [Stratum.Call.share_of_finished finished] at held
        cases held
      · cases kept.symm.trans held
        cases branch with
        | unauthorized nowMs isOpen nobody =>
          cases before
          refine .inr (.inl ?_)
          rw [skips, nobody]
          exact List.mem_cons_self
        | recorded share minerAddress timestamp =>
          cases before
          exact .inr (.inr ⟨minerAddress, timestamp, rfl, rfl⟩)
        | recordFailed =>
          cases before
          exact .inr (.inl List.mem_cons_self)
        | submitted | subscribers | returned | threw =>
          cases before
          exact .inl rfl
        | authorized | replyFailed => cases past
        | judged | errorWritten | errorFailed => cases before

/-- No row is taken back. -/
theorem shareLog_subset_of_seen (seen : Seen s t a s' t') : s.shareLog ⊆ s'.shareLog := by
  cases seen with
  | aside aside => exact aside.shareLog ▸ List.Subset.refl _
  | accepted share accepted shareLog => exact shareLog ▸ List.Subset.refl _
  | answered | reported => exact List.Subset.refl _
  | recorded share minerAddress timestamp aside =>
    rw [aside.shareLog]
    exact List.subset_append_left ..

/-! ## All handlers -/

/-- Every handler that is past the share log has left a row there, or has missed it. -/
structure Logs (clock : ℤ) (p : Stratum.Server P) (missed : List (Stratum.Share P)) : Prop where
  recording : ∀ share minerAddress timestamp, .recording share minerAddress timestamp ∈ p.calls → timestamp ≤ clock
  past : ∀ t ∈ p.calls, ∀ share, logged t = some share → share ∈ missed ∨
    ∃ minerAddress, ∃ timestamp ≤ clock, recordOf share minerAddress timestamp ∈ p.shared.shareLog

variable {clock : ℤ} {p : Stratum.Server P} {missed : List (Stratum.Share P)} {i : ℕ}

theorem Logs.start (logs : Logs clock p missed) (entry : t.isEntry = true) :
    Logs clock ⟨p.shared, p.calls ++ [t]⟩ missed := by
  constructor
  · intro share minerAddress timestamp member
    rcases List.mem_append.mp member with old | new
    · exact logs.recording share minerAddress timestamp old
    · rw [← List.mem_singleton.mp new] at entry
      cases entry
  · intro u member share past
    rcases List.mem_append.mp member with old | new
    · exact logs.past u old share past
    · have fresh : logged t = none := by cases t <;> first | rfl | cases entry
      rw [List.mem_singleton.mp new, fresh] at past
      cases past

theorem Logs.resume (logs : Logs clock p missed) (at_i : p.calls[i]? = some t)
    (resumed : Stratum.Call.resume config p.shared t a = some (s', t')) (is_now : ∀ now ∈ nowOf a, now = clock) :
    Logs clock ⟨s', p.calls.set i t'⟩ (missed ++ skips p.shared t a) := by
  have seen := seen_of_resume resumed
  have here : t ∈ p.calls := List.mem_of_getElem? at_i
  have grows := shareLog_subset_of_seen seen
  constructor
  · intro share minerAddress timestamp member
    rcases List.mem_or_eq_of_mem_set member with old | rfl
    · exact logs.recording share minerAddress timestamp old
    · cases seen with
      | aside aside | recorded _ _ _ aside => cases aside.idle
      | answered => exact (is_now timestamp rfl).le
  · intro u member share past
    have earlier : ∀ u ∈ p.calls, logged u = some share → share ∈ missed ++ skips p.shared t a ∨
        ∃ minerAddress, ∃ timestamp ≤ clock, recordOf share minerAddress timestamp ∈ s'.shareLog := by
      intro u old past
      obtain missing | ⟨minerAddress, timestamp, then_, row⟩ := logs.past u old share past
      · exact .inl (List.mem_append_left _ missing)
      · exact .inr ⟨minerAddress, timestamp, then_, grows row⟩
    rcases List.mem_or_eq_of_mem_set member with old | rfl
    · exact earlier u old past
    · obtain was | skipped | ⟨minerAddress, timestamp, rfl, rfl⟩ := logged_of_resume resumed past
      · exact earlier t here was
      · exact .inl (List.mem_append_right _ skipped)
      · refine .inr ⟨minerAddress, timestamp, logs.recording share minerAddress timestamp here, ?_⟩
        cases seen with
        | aside _ unrecorded => exact absurd rfl unrecorded
        | recorded _ _ _ aside =>
          rw [aside.shareLog]
          exact List.mem_append_right _ List.mem_cons_self

theorem Logs.mono (logs : Logs clock p missed) {later : ℤ} (passed : clock ≤ later) : Logs later p missed where
  recording share minerAddress timestamp member := (logs.recording share minerAddress timestamp member).trans passed
  past t member share past := (logs.past t member share past).imp_right
    fun ⟨minerAddress, timestamp, then_, row⟩ => ⟨minerAddress, timestamp, then_.trans passed, row⟩

end

/-! ## The window of a block -/

section
variable {P : Stratum.Packages} {config : Stratum.StratumConfig} {settings : Pplns.Settings} {now : ℤ}

/-- Which shares miss the share log. -/
def missing (w : World P) : SideEvent P → List (Stratum.Share P)
  | .outer (.resume i a) | .reply i _ a =>
    (w.pools.outer.calls[i]?.map fun t => skips w.pools.outer.shared t a).getD []
  | _ => []

def recordMissed (missed : List (Stratum.Share P)) (w : World P) : PoolEvent P → World P → List (Stratum.Share P)
  | .pass _, _ => missed
  | .happens e, _ => missed ++ missing w e

variable {w : World P} {missed : List (Stratum.Share P)}

theorem logs_of_moves {e : SideEvent P} {pools : Sides P} (logs : Logs w.clock w.pools.outer missed)
    (is_now : IsNow settings w.clock e) (moves : World.Moves config settings w e pools) :
    Logs w.clock pools.outer (missed ++ missing w e) := by
  cases moves with
  | outerStart starts =>
    show Logs _ _ (missed ++ [])
    rw [List.append_nil]
    exact logs.start starts
  | outerResume at_i free resumed =>
    rw [Nested.outer_call, missing, at_i, Option.map_some, Option.getD_some]
    exact logs.resume at_i resumed is_now
  | innerStart | innerResume =>
    show Logs _ _ (missed ++ [])
    rw [List.append_nil]
    exact logs
  | reply at_i waits link at_j ended ends answers resumed =>
    rw [Nested.outer_call, missing, at_i, Option.map_some, Option.getD_some]
    exact logs.resume at_i resumed is_now

theorem logs_of_run {ok : World P × List (Stratum.Share P) → PoolEvent P → Prop}
    (run : Reaches (recording (World.step config settings) recordMissed) ok (.initial P now, []) (w, missed)) :
    Logs w.clock w.pools.outer missed := by
  refine invariant_of_does (fun w missed => Logs w.clock w.pools.outer missed) ?_ ?_ ?_ run
  · exact ⟨by rintro _ _ _ ⟨⟩, by rintro _ ⟨⟩⟩
  · intro w missed ms logs _
    exact logs.mono (Int.le_add_of_nonneg_right (Int.natCast_nonneg ms))
  · intro w missed e pools logs _ is_now moves _ _ _
    exact logs_of_moves logs is_now moves

/-- **The winning share is in its window**: where the services are about to read the window of a block,
it has the share that found the block, unless that has missed the share log or is older than the window. -/
theorem winner_in_window
    (run : Reaches (recording (World.step config settings) recordMissed) Always (.initial P now, []) (w, missed))
    {i : ℕ} {share : Stratum.Share P} (stands : w.pools.outer.calls[i]? = some (.awaiting share .processBlockFound)) :
    ∃ j call, w.pools.waitsFor i = some j ∧ w.pools.inner.calls[j]? = some (.reward call) ∧
      ∀ blockHeight reward windowStart, call = .shares blockHeight reward windowStart →
        (∃ nowMs, call = .processBlockFound settings nowMs share.jobTemplate.blockData.height
          share.jobTemplate.blockData.coinbasevalue) ∧
        (share ∈ missed ∨ ∃ minerAddress, ∃ timestamp ≤ w.clock,
          recordOf share minerAddress timestamp ∈ w.pools.outer.shared.shareLog ∧
          (windowStart ≤ timestamp → Pplns.pruneCutoffMs settings w.clock ≤ windowStart →
            entityOf (recordOf share minerAddress timestamp) ∈
              (Pplns.Call.reward call).window w.pools.inner.shared)) := by
  obtain ⟨j, u, link, at_j, call, rfl, reads⟩ := (sessions_of_run run).2.2.serves i _ stands rfl
  refine ⟨j, call, link, at_j, ?_⟩
  rintro blockHeight reward windowStart rfl
  refine ⟨reads _ _ _ rfl, ?_⟩
  obtain missing | ⟨minerAddress, timestamp, then_, row⟩ :=
    (logs_of_run run).past _ (List.mem_of_getElem? stands) share rfl
  · exact .inl missing
  · refine .inr ⟨minerAddress, timestamp, then_, row, fun inside inTime => ?_⟩
    rw [Pplns.Call.window, (kept_of_run run).table windowStart inTime]
    exact List.mem_filter.mpr ⟨List.mem_map_of_mem row, decide_eq_true inside⟩

/-- The first share is a block, and all the work in its window. -/
theorem winner_in_window_first : ∃ (w : World Stratum.Regtest.packages) (share : Stratum.Share Stratum.Regtest.packages)
    (minerAddress : String) (timestamp : ℤ),
    w.pools.outer.calls[4]? = some (.awaiting share .processBlockFound) ∧
      entityOf (recordOf share minerAddress timestamp) ∈
        Pplns.getSharesInWindow w.pools.inner.shared.shares 1699994601000 := by
  obtain ⟨⟨w, missed⟩, run, waits, past, nothing, ⟨waiting, reading⟩, inside, inTime⟩ := exists_reaches
    (recording (World.step Stratum.Regtest.config .defaults) recordMissed) Always
    (.initial Stratum.Regtest.packages 0, []) Regtest.blockFound
    (fun q => q.1.pools.outer.calls[4]?.any (interface .defaults).waits = true ∧
      (q.1.pools.outer.calls[4]?.bind logged).isSome = true ∧ q.2.isEmpty = true ∧
      (q.1.pools.waitsFor 4 = some 1 ∧
        q.1.pools.inner.calls[1]? = some (.reward (.shares 101 5000000000 1699994601000))) ∧
      (∀ row ∈ q.1.pools.outer.shared.shareLog, 1699994601000 ≤ row.timestamp) ∧
      Pplns.pruneCutoffMs .defaults q.1.clock ≤ 1699994601000) (by decide +kernel)
  obtain ⟨share, held⟩ := Option.isSome_iff_exists.mp past
  obtain ⟨t, stands, is_past⟩ := Option.bind_eq_some_iff.mp held
  have waits_here : (interface .defaults).waits t = true := by
    obtain ⟨u, at_4, waits⟩ := (Option.any_eq_true ..).mp waits
    exact Option.some.inj (stands.symm.trans at_4) ▸ waits
  have is_awaiting : t = .awaiting share .processBlockFound := by
    cases t with
    | awaiting _ step =>
      cases is_past
      cases step <;> first | rfl | cases waits_here
    | submitting => cases waits_here
    | _ => cases is_past
  subst is_awaiting
  obtain ⟨j, call, link, at_j, reads⟩ := winner_in_window run stands
  cases waiting.symm.trans link
  cases reading.symm.trans at_j
  obtain ⟨-, missing | ⟨minerAddress, timestamp, -, row, inWindow⟩⟩ := reads _ _ _ rfl
  · have none_missed : missed = [] := List.isEmpty_iff.mp nothing
    rw [none_missed] at missing
    cases missing
  · exact ⟨w, share, minerAddress, timestamp, stands, inWindow (inside _ row) inTime⟩

end

end ElektronPool.Whole
