import ElektronPool.Pplns.PayoutScheduler

/-!
# The window of a block that is rewarded late

Between the record of the winning share and the query of `processBlockFound` the handler
awaits the node, notifications and the registry, and other calls write the share log
(`shareLogWrites`). The window ends where the query runs and begins a window's length
before the call, not before the winning share (`window_eq_iff`).
-/

namespace ElektronPool.Pplns
set_option autoImplicit false
open Async

/-! ## What a run writes to the share log -/

/-- A write of the share log that took effect. -/
inductive ShareLogWrite where
  | record (share : PplnsShareEntity)
  | prune (cutoffMs : ℤ)
  deriving DecidableEq

namespace ShareLogWrite

def apply (shares : List PplnsShareEntity) : ShareLogWrite → List PplnsShareEntity
  | .record share => shares ++ [share]
  | .prune cutoffMs => pruneOlderThan shares cutoffMs

def recorded : ShareLogWrite → Option PplnsShareEntity
  | .record share => some share
  | .prune _ => none

end ShareLogWrite

/-- What a resumption of a call writes. -/
def Call.shareLogWrite : Call → Answer → Option ShareLogWrite
  | .record share, .executed => some (.record share)
  | .prune cutoffMs, .executed => some (.prune cutoffMs)
  | _, _ => none

/-- What one event writes. -/
def shareLogWrite (p : Services) : ServiceEvent → List ShareLogWrite
  | .start _ => []
  | .resume k a => (p.calls[k]?.bind fun t => t.shareLogWrite a).toList

/-- What the events of a run write, in order. -/
def shareLogWrites (settings : Settings) : Services → List ServiceEvent → List ShareLogWrite :=
  history (Services.step settings) shareLogWrite

/-- The shares recorded in a run. -/
def recordedShares (settings : Settings) (p : Services) (es : List ServiceEvent) : List PplnsShareEntity :=
  (shareLogWrites settings p es).filterMap ShareLogWrite.recorded

section
variable {settings : Settings} {p p' : Services}

/-- Only the two writes of the share log change it. -/
theorem Call.shares_resume {s s' : PplnsState} {t t' : Call} {a : Answer}
    (resumed : t.resume settings s a = some (s', t')) :
    s'.shares = (t.shareLogWrite a).toList.foldl ShareLogWrite.apply s.shares := by
  cases Call.resumed_of_resume resumed with
  | reward step =>
    unfold RewardCall.resume at step
    split at step <;> cases step <;> rfl
  | cycle step => exact (PayoutCycle.leavesCredits step).shares
  | reconcile step => exact (Reconciliation.leavesCredits step).shares
  | record log | prune log => obtain ⟨rfl, rfl⟩ | ⟨rfl, rfl⟩ := log <;> rfl

theorem shares_step (p : Services) (e : ServiceEvent) (p' : Services) (moved : Services.step settings p e = some p') :
    p'.shared.shares = (shareLogWrite p e).foldl ShareLogWrite.apply p.shared.shares := by
  obtain ⟨t, rfl, -, rfl⟩ | ⟨before, t, after, a, s', t', rfl, calls, resumed, rfl⟩ := Pool.step_cases moved
  · rfl
  · have here : p.calls[before.length]? = some t := by simp [calls]
    rw [shareLogWrite, here, Option.bind_some]
    exact Call.shares_resume resumed

/-- The share log after a run. -/
theorem shares_run {es : List ServiceEvent} (run : runWhere (Services.step settings) Always p es = some p') :
    p'.shared.shares = (shareLogWrites settings p es).foldl ShareLogWrite.apply p.shared.shares :=
  @foldl_history _ _ _ _ _ _ (fun p => p.shared.shares) _ shares_step _ _ _ run

end

/-- Pruning below the start of a window does not touch the window. -/
theorem getSharesInWindow_writes {windowStart : ℤ} (writes : List ShareLogWrite) (shares : List PplnsShareEntity)
    (old : ∀ cutoffMs, .prune cutoffMs ∈ writes → cutoffMs ≤ windowStart) :
    getSharesInWindow (writes.foldl ShareLogWrite.apply shares) windowStart =
      getSharesInWindow shares windowStart ++ getSharesInWindow (writes.filterMap ShareLogWrite.recorded) windowStart := by
  induction writes generalizing shares with
  | nil => exact (List.append_nil _).symm
  | cons write rest ih =>
    rw [List.foldl_cons, ih _ fun cutoffMs member => old cutoffMs (List.mem_cons_of_mem _ member)]
    cases write with
    | record share =>
      simp only [ShareLogWrite.apply, getSharesInWindow, ← List.filter_append, List.append_assoc,
        List.filterMap_cons, ShareLogWrite.recorded, List.singleton_append]
    | prune cutoffMs =>
      have cutoff := old cutoffMs List.mem_cons_self
      have same : getSharesInWindow (pruneOlderThan shares cutoffMs) windowStart = getSharesInWindow shares windowStart := by
        rw [getSharesInWindow, getSharesInWindow, pruneOlderThan, List.filter_filter]
        apply List.filter_congr
        intro share _
        by_cases inside : windowStart ≤ share.timestamp
        · simp [inside, not_lt.mpr (cutoff.trans inside)]
        · simp [inside]
      rw [ShareLogWrite.apply, same]
      rfl

/-- A window that starts later over a log that has grown is the same exactly when nothing lies between
the starts and nothing new lies in it. -/
theorem getSharesInWindow_eq_iff {first second : ℤ} (shares added : List PplnsShareEntity) (later : first ≤ second) :
    getSharesInWindow shares second ++ getSharesInWindow added second = getSharesInWindow shares first ↔
      (∀ share ∈ shares, first ≤ share.timestamp → second ≤ share.timestamp) ∧
        ∀ share ∈ added, share.timestamp < second := by
  constructor
  · intro same
    have inside : ∀ share ∈ shares, first ≤ share.timestamp → second ≤ share.timestamp := by
      intro share member from_first
      have used : share ∈ getSharesInWindow shares first := List.mem_filter.mpr ⟨member, decide_eq_true from_first⟩
      rw [← same] at used
      rcases List.mem_append.mp used with old | new
      · exact of_decide_eq_true (List.mem_filter.mp old).2
      · exact of_decide_eq_true (List.mem_filter.mp new).2
    have equal : getSharesInWindow shares first = getSharesInWindow shares second := by
      apply List.filter_congr
      intro share member
      exact decide_eq_decide.mpr ⟨inside share member, later.trans⟩
    rw [equal, List.append_right_eq_self] at same
    refine ⟨inside, fun share member => ?_⟩
    by_contra from_second
    have used : share ∈ getSharesInWindow added second :=
      List.mem_filter.mpr ⟨member, decide_eq_true (not_lt.mp from_second)⟩
    rw [same] at used
    cases used
  · rintro ⟨inside, outside⟩
    have nothing : getSharesInWindow added second = [] :=
      List.filter_eq_nil_iff.mpr fun share member selected =>
        absurd (of_decide_eq_true selected) (not_le.mpr (outside share member))
    rw [nothing, List.append_nil]
    apply List.filter_congr
    intro share member
    exact decide_eq_decide.mpr ⟨later.trans, inside share member⟩

/-! ## The block -/

/-- `getWindowMinutes() * 60 * 1000`. -/
def windowMs (settings : Settings) : ℤ := settings.windowMinutes * 60 * 1000

/-- The cutoff of the pruning timer. -/
def pruneCutoffMs (settings : Settings) (nowMs : ℤ) : ℤ := nowMs - windowMs settings - 60 * 60 * 1000

/-- **The split does not see the delay** exactly when no share lies in the part of the window that has
passed since the winning share, and no share was recorded since. -/
theorem window_eq_iff {settings : Settings} {p p' : Services} {es : List ServiceEvent}
    (before : List PplnsShareEntity) (winning : PplnsShareEntity) (nowMs blockHeight : ℤ) (blockRewardSats : ℕ)
    (recorded : p.shared.shares = before ++ [winning])
    (run : runWhere (Services.step settings) Always p es = some p')
    (pruned : ∀ cutoffMs, .prune cutoffMs ∈ shareLogWrites settings p es →
      ∃ atMs ≤ nowMs, cutoffMs = pruneCutoffMs settings atMs)
    (delayed : winning.timestamp ≤ nowMs) (within : nowMs ≤ winning.timestamp + windowMs settings) :
    (Call.reward (.processBlockFound settings nowMs blockHeight blockRewardSats)).window p'.shared =
        getSharesInWindow p.shared.shares (winning.timestamp - windowMs settings) ↔
      (∀ share ∈ before, winning.timestamp - windowMs settings ≤ share.timestamp →
          nowMs - windowMs settings ≤ share.timestamp) ∧
        ∀ share ∈ recordedShares settings p es, share.timestamp < nowMs - windowMs settings := by
  have old : ∀ cutoffMs, .prune cutoffMs ∈ shareLogWrites settings p es → cutoffMs ≤ nowMs - windowMs settings := by
    intro cutoffMs member
    obtain ⟨atMs, earlier, rfl⟩ := pruned cutoffMs member
    rw [pruneCutoffMs]
    omega
  have used : (Call.reward (.processBlockFound settings nowMs blockHeight blockRewardSats)).window p'.shared =
      getSharesInWindow p.shared.shares (nowMs - windowMs settings) ++
        getSharesInWindow (recordedShares settings p es) (nowMs - windowMs settings) := by
    show getSharesInWindow p'.shared.shares (nowMs - windowMs settings) = _
    rw [shares_run run, getSharesInWindow_writes _ _ old]
    rfl
  rw [used, getSharesInWindow_eq_iff _ _ (by omega)]
  apply and_congr_left
  intro _
  rw [recorded]
  constructor
  · exact fun inside share member => inside share (List.mem_append_left _ member)
  · intro inside share member
    rcases List.mem_append.mp member with earlier | last
    · exact inside share earlier
    · rw [List.mem_singleton.mp last]
      omega

/-- A share of a at this time, and the winning share of b after 90 minutes. -/
def twoMiners (firstMs : ℤ) : Services :=
  ⟨{ PplnsState.empty with shares := [⟨"a", 1, firstMs, 7⟩, ⟨"b", 1, 5400000, 7⟩] }, []⟩

/-- The reward is computed 50 milliseconds late, and old shares are pruned meanwhile: the share of a
at 100 milliseconds still counts. -/
theorem window_eq_iff_pruned : ∃ p', runWhere (Services.step .defaults) Always (twoMiners 100)
      [.start (.prune (pruneCutoffMs .defaults 5400010)), .resume 0 .executed] = some p' ∧
    (Call.reward (.processBlockFound .defaults 5400050 7 1000)).window p'.shared =
      getSharesInWindow (twoMiners 100).shared.shares (5400000 - windowMs .defaults) := by
  have runs : (runWhere (Services.step .defaults) Always (twoMiners 100)
      [.start (.prune (pruneCutoffMs .defaults 5400010)), .resume 0 .executed]).isSome = true := by decide +kernel
  obtain ⟨p', run⟩ := Option.isSome_iff_exists.mp runs
  have writes : shareLogWrites .defaults (twoMiners 100)
      [.start (.prune (pruneCutoffMs .defaults 5400010)), .resume 0 .executed] =
      [.prune (pruneCutoffMs .defaults 5400010)] := by decide +kernel
  refine ⟨p', run, ?_⟩
  apply (window_eq_iff [⟨"a", 1, 100, 7⟩] ⟨"b", 1, 5400000, 7⟩ 5400050 7 1000 rfl run ?_ (by decide)
    (by decide +kernel)).mpr
  · rw [recordedShares, writes]
    decide +kernel
  · rw [writes]
    intro cutoffMs member
    exact ⟨5400010, by decide, ShareLogWrite.prune.inj (List.mem_singleton.mp member)⟩

/-- The reward is computed a second late: the share of a at the beginning of the window is lost, and
the share of c that was recorded half a second after the winning one counts. -/
theorem not_window_eq_one_second : ¬ ∀ (settings : Settings) (p p' : Services) (es : List ServiceEvent)
    (before : List PplnsShareEntity) (winning : PplnsShareEntity) (nowMs blockHeight : ℤ) (blockRewardSats : ℕ),
    p.shared.shares = before ++ [winning] → runWhere (Services.step settings) Always p es = some p' →
    (∀ cutoffMs, .prune cutoffMs ∈ shareLogWrites settings p es →
      ∃ atMs ≤ nowMs, cutoffMs = pruneCutoffMs settings atMs) →
    winning.timestamp ≤ nowMs → nowMs ≤ winning.timestamp + windowMs settings →
    (Call.reward (.processBlockFound settings nowMs blockHeight blockRewardSats)).window p'.shared =
      getSharesInWindow p.shared.shares (winning.timestamp - windowMs settings) := by
  intro claim
  have uses : (runWhere (Services.step .defaults) Always (twoMiners 0)
      [.start (.record ⟨"c", 1, 5400500, 7⟩), .resume 0 .executed]).any (fun p' => decide
        ((Call.reward (.processBlockFound .defaults 5401000 7 1000)).window p'.shared =
          [⟨"b", 1, 5400000, 7⟩, ⟨"c", 1, 5400500, 7⟩])) = true := by decide +kernel
  obtain ⟨p', run, used⟩ := (Option.any_eq_true ..).mp uses
  have same := claim .defaults (twoMiners 0) p' _ [⟨"a", 1, 0, 7⟩] ⟨"b", 1, 5400000, 7⟩ 5401000 7 1000 rfl run ?_
    (by decide) (by decide +kernel)
  · rw [of_decide_eq_true used] at same
    revert same
    decide +kernel
  · have writes : shareLogWrites .defaults (twoMiners 0)
        [.start (.record ⟨"c", 1, 5400500, 7⟩), .resume 0 .executed] = [.record ⟨"c", 1, 5400500, 7⟩] := by
      decide +kernel
    rw [writes]
    intro cutoffMs member
    cases List.mem_singleton.mp member

end ElektronPool.Pplns
