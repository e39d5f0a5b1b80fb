import ElektronPool.Whole.Pool

/-!
# The share log of the sessions and of the services

The sessions know every row they have written, the services a table that is pruned meanwhile. Every row
is a share that was accepted (`provenance_of_run`), and what a window can still ask for is the same on
both sides (`kept_of_run`). Facts about runs of the whole pool come from `invariant_of_does`.
-/

namespace ElektronPool.Whole
set_option autoImplicit false
open Js Async

/-! ## The rows of the share log -/

section
variable {P : Stratum.Packages} {config : Stratum.StratumConfig}

/-- The share that a handler has still to record. -/
def upcoming : Stratum.Call P → Option (Stratum.Share P)
  | .replyWritten share | .recording share .. => some share
  | _ => none

/-- Where the rows come from. -/
def provenance (P : Stratum.Packages) : Outline (Stratum.World P) (Stratum.Call P) where
  shared s := (∀ share ∈ s.accepted, (Number.fin 0).lt share.submissionDifficulty = true) ∧
    ∀ row ∈ s.shareLog, ∃ share ∈ s.accepted, row = recordOf share row.minerAddress row.timestamp
  call s t := ∀ share ∈ upcoming t, share ∈ s.accepted
  pair _ _ _ := True
  symm _ _ _ _ := trivial

variable {s s' : Stratum.World P} {t t' : Stratum.Call P} {a : Stratum.Answer} {p : Stratum.Server P}

theorem provenance_of_idle (is_idle : idle t = true) : (provenance P).call s t := by
  have nothing : upcoming t = none := by cases t <;> first | rfl | cases is_idle
  intro share held
  rw [nothing] at held
  cases held

theorem provenance_of_seen (seen : Seen s t a s' t') (shared : (provenance P).shared s) (own : (provenance P).call s t) :
    (provenance P).shared s' ∧ (provenance P).call s' t' ∧ s.accepted ⊆ s'.accepted := by
  obtain ⟨positive, rows⟩ := shared
  cases seen with
  | aside aside =>
    refine ⟨⟨aside.accepted ▸ positive, ?_⟩, provenance_of_idle aside.idle, fun _ member => aside.accepted ▸ member⟩
    rw [aside.shareLog, aside.accepted]
    exact rows
  | accepted share accepted shareLog rewards above =>
    have grows : s.accepted ⊆ s'.accepted := accepted ▸ List.subset_append_left ..
    refine ⟨⟨fun other member => ?_, fun row member => ?_⟩, ?_, grows⟩
    · rcases List.mem_append.mp (accepted ▸ member) with old | new
      · exact positive other old
      · exact List.mem_singleton.mp new ▸ above
    · obtain ⟨other, old, same⟩ := rows row (shareLog ▸ member)
      exact ⟨other, grows old, same⟩
    · rintro _ ⟨⟩
      exact accepted ▸ List.mem_append_right _ List.mem_cons_self
  | answered share minerAddress nowMs => exact ⟨⟨positive, rows⟩, own, List.Subset.refl _⟩
  | recorded share minerAddress timestamp aside =>
    refine ⟨⟨aside.accepted ▸ positive, fun row member => ?_⟩, provenance_of_idle aside.idle,
      fun _ member => aside.accepted ▸ member⟩
    rw [aside.accepted]
    rcases List.mem_append.mp (aside.shareLog ▸ member) with old | new
    · exact rows row old
    · rw [List.mem_singleton.mp new]
      exact ⟨share, own share rfl, rfl⟩
  | reported share nowMs =>
    refine ⟨⟨positive, rows⟩, ?_, List.Subset.refl _⟩
    rintro _ ⟨⟩

/-- **Every row is an accepted share.** -/
theorem provenance_of_run (run : Reaches (Stratum.Server.step config) Always (.initial P) p) : (provenance P).Holds p := by
  refine run.invariant ⟨⟨by rintro _ ⟨⟩, by rintro _ ⟨⟩⟩, by rintro _ ⟨⟩, .nil⟩ fun p e p' holds _ moved => ?_
  refine holds.step (fun t _ entry => ⟨?_, fun _ _ => trivial⟩) ?_ moved
  · exact provenance_of_idle (by cases t <;> first | rfl | cases entry)
  · intro before t after a s' t' _ _ resumed own others
    obtain ⟨shared, mine, grows⟩ := provenance_of_seen (seen_of_resume resumed) holds.shared own
    exact ⟨shared, mine, fun u member share held => grows ((others u member).1 share held), fun _ _ => trivial,
      fun _ _ _ _ _ => trivial⟩

theorem difficulty_nonneg_of_provenance (holds : (provenance P).Holds p) {row : Stratum.ShareRecord}
    (member : row ∈ p.shared.shareLog) : 0 ≤ (entityOf row).difficulty := by
  obtain ⟨share, accepted, same⟩ := holds.shared.2 row member
  have positive := holds.shared.1 share accepted
  rw [same]
  simp only [entityOf, recordOf]
  cases difficulty : share.submissionDifficulty with
  | fin d =>
    rw [difficulty] at positive
    exact (of_decide_eq_true positive : (0 : ℚ) < d).le
  | _ => exact le_refl 0

end

/-! ## The table and the log -/

section
variable {P : Stratum.Packages} {config : Stratum.StratumConfig} {settings : Pplns.Settings} {now : ℤ} {w : World P}
  {pools : Sides P} {resumed : Option (Pplns.Call × Pplns.Answer)} {γ : Type*} {g g₀ : γ}
  {record : γ → World P → PoolEvent P → World P → γ} {ok : World P × γ → PoolEvent P → Prop}

/-- From the cutoff of a prune at this time on, the table is what the sessions have recorded. -/
structure Kept (settings : Pplns.Settings) (w : World P) : Prop where
  table : ∀ windowStart, Pplns.pruneCutoffMs settings w.clock ≤ windowStart →
    Pplns.getSharesInWindow w.pools.inner.shared.shares windowStart =
      Pplns.getSharesInWindow (w.pools.outer.shared.shareLog.map entityOf) windowStart
  prunes : ∀ cutoffMs, .prune cutoffMs ∈ w.pools.inner.calls → cutoffMs ≤ Pplns.pruneCutoffMs settings w.clock

theorem mem_replaced {before after : List Pplns.Call} {u u' v : Pplns.Call} (member : v ∈ before ++ u' :: after) :
    v = u' ∨ v ∈ before ++ u :: after := by
  rcases List.mem_append.mp member with left | right
  · exact .inr (List.mem_append_left _ left)
  · exact (List.mem_cons.mp right).imp_right fun right => List.mem_append_right _ (List.mem_cons_of_mem _ right)

/-- A window that no prune has reached stays as it is when a service goes on. -/
theorem window_of_resume {s s' : Pplns.PplnsState} {u u' : Pplns.Call} {a : Pplns.Answer} {windowStart : ℤ}
    (resumed : u.resume settings s a = some (s', u')) (unrecorded : ∀ share, u.shareLogWrite a ≠ some (.record share))
    (old : ∀ cutoffMs, u = .prune cutoffMs → cutoffMs ≤ windowStart) :
    Pplns.getSharesInWindow s'.shares windowStart = Pplns.getSharesInWindow s.shares windowStart := by
  rw [Pplns.Call.shares_resume resumed]
  cases written : u.shareLogWrite a with
  | none => rfl
  | some write =>
    cases write with
    | record share => exact absurd written (unrecorded share)
    | prune cutoffMs =>
      have is_prune : u = .prune cutoffMs := by
        unfold Pplns.Call.shareLogWrite at written
        split at written <;> cases written
        rfl
      rw [Option.toList_some, Pplns.getSharesInWindow_writes]
      · exact List.append_nil _
      · rintro cutoff member
        cases List.mem_singleton.mp member
        exact old cutoffMs is_prune

theorem kept_of_does (kept : Kept settings w) (does : World.Does settings w resumed pools) :
    Kept settings { w with pools := pools } := by
  obtain ⟨table, prunes⟩ := kept
  cases does with
  | aside shareLog rewards inner =>
    exact ⟨by simpa only [inner, shareLog] using table, by simpa only [inner] using prunes⟩
  | starts shareLog rewards other cutoff inner =>
    refine ⟨by simpa only [inner, shareLog] using table, fun cutoffMs member => ?_⟩
    rw [inner] at member
    rcases List.mem_append.mp member with old | new
    · exact prunes cutoffMs old
    · exact (cutoff cutoffMs (List.mem_singleton.mp new).symm).le
  | found height coinbasevalue shareLog rewards inner =>
    refine ⟨by simpa only [inner, shareLog] using table, fun cutoffMs member => ?_⟩
    rw [inner] at member
    rcases List.mem_append.mp member with old | new
    · exact prunes cutoffMs old
    · cases List.mem_singleton.mp new
  | resumes shareLog rewards unrecorded calls resumed inner =>
    refine ⟨fun windowStart later => ?_, fun cutoffMs member => ?_⟩
    · rw [inner, shareLog, ← table windowStart later]
      refine window_of_resume resumed unrecorded fun cutoffMs same => ?_
      have waiting : .prune cutoffMs ∈ w.pools.inner.calls := by
        rw [calls, same]
        exact List.mem_append_right _ List.mem_cons_self
      exact (prunes cutoffMs waiting).trans later
    · rw [inner] at member
      refine prunes cutoffMs ?_
      rw [calls]
      rcases mem_replaced member with own | other
      · cases Pplns.Call.resumed_of_resume resumed <;> cases own
      · exact other
  | records row shareLog rewards calls inner =>
    refine ⟨fun windowStart later => ?_, fun cutoffMs member => ?_⟩
    · rw [inner, shareLog, List.map_append, Pplns.getSharesInWindow, Pplns.getSharesInWindow, List.filter_append,
        List.filter_append]
      exact congrArg (· ++ _) (table windowStart later)
    · rw [inner] at member
      refine prunes cutoffMs ?_
      rw [calls]
      rcases mem_replaced member with own | other
      · cases own
      · exact other

theorem Kept.pass (kept : Kept settings w) (ms : ℕ) : Kept settings { w with clock := w.clock + ms } := by
  have passed : Pplns.pruneCutoffMs settings w.clock ≤ Pplns.pruneCutoffMs settings (w.clock + ms) := by
    simp only [Pplns.pruneCutoffMs]
    omega
  exact ⟨fun windowStart later => kept.table windowStart (passed.trans later),
    fun cutoffMs member => (kept.prunes cutoffMs member).trans passed⟩

/-- Both sides in a run of the whole pool. -/
theorem sessions_of_run (run : Reaches (recording (World.step config settings) record) ok (.initial P now, g₀) (w, g)) :
    (provenance P).Holds w.pools.outer ∧ Reaches (Pplns.Services.step settings) Always ⟨.empty, []⟩ w.pools.inner ∧
      Nested.Linked (interface settings) (Serves settings) w.pools := by
  have always : ∀ q e, ok q (.happens e) →
      Nested.OnInner (Always : Pplns.Services → Pplns.ServiceEvent → Prop) q.1.pools e := by
    intro q e _
    cases e with
    | outer | inner => trivial
    | reply => exact fun _ _ => trivial
  obtain ⟨sessions, services, linked⟩ := sides_of_run run always (fun _ _ => trivial) fun _ _ => trivial
  exact ⟨provenance_of_run sessions, services, linked⟩

/-- What every event keeps, by what it does to the two sides. -/
theorem invariant_of_does (Inv : World P → γ → Prop) (init : Inv (.initial P now) g₀)
    (pass : ∀ w g ms, Inv w g → ok (w, g) (.pass ms) →
      Inv { w with clock := w.clock + ms } (record g w (.pass ms) { w with clock := w.clock + ms }))
    (happens : ∀ w g e pools, Inv w g → ok (w, g) (.happens e) → IsNow settings w.clock e →
      World.Moves config settings w e pools → (provenance P).Holds w.pools.outer →
      Nested.Linked (interface settings) (Serves settings) w.pools → World.Does settings w (w.pools.resumption e) pools →
      Inv { w with pools := pools } (record g w (.happens e) { w with pools := pools }))
    (run : Reaches (recording (World.step config settings) record) ok (.initial P now, g₀) (w, g)) : Inv w g := by
  have every : ∀ q, Reaches (recording (World.step config settings) record) ok (.initial P now, g₀) q → Inv q.1 q.2 := by
    intro q reached
    induction reached with
    | start => exact init
    | @next q q' e before allowed moved holds =>
      obtain ⟨stepped, recorded⟩ := recording_eq_some.mp moved
      rw [recorded]
      obtain ⟨ms, rfl, same⟩ | ⟨e', pools, rfl, is_now, moves, same⟩ := World.step_cases stepped
      · rw [same]
        exact pass q.1 q.2 ms holds allowed
      · obtain ⟨sessions, -, linked⟩ := sessions_of_run (w := q.1) (g := q.2) before
        rw [same]
        exact happens q.1 q.2 e' pools holds allowed is_now moves sessions linked (World.does_of_moves linked is_now moves)
  exact every _ run

/-- **No window loses a share to pruning before it is an hour old.** -/
theorem kept_of_run (run : Reaches (recording (World.step config settings) record) ok (.initial P now, g₀) (w, g)) :
    Kept settings w :=
  invariant_of_does (fun w _ => Kept settings w) ⟨fun _ _ => rfl, by rintro _ ⟨⟩⟩ (fun _ _ ms kept _ => kept.pass ms)
    (fun _ _ _ _ kept _ _ _ _ _ does => kept_of_does kept does) run

end

end ElektronPool.Whole
