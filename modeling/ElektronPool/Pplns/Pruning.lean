import ElektronPool.Pplns.WindowDelay

/-!
# Pruning the share log

Each operation reads the clock and its settings and hands one statement on the share log to the
database; the later statements of a reward call do not touch the log (`goOn`). What a prune
deletes is older than every window that is asked for later, by the margin of an hour.
-/

namespace ElektronPool.Pplns
set_option autoImplicit false
open Async Js

/-- What is done to the share log, or by a reward call behind its window query. -/
inductive ShareLogOperation where
  | record (minerAddress : String) (difficulty : ℚ) (blockHeight : ℤ)
  | prune
  | windowStats
  | blockFound (blockHeight : ℤ) (blockRewardSats : ℕ)
  | goOn (index : ℕ) (answer : Answer)
  deriving DecidableEq

/-- An operation with the clock and the settings as it reads them. -/
structure TimedOperation where
  operation : ShareLogOperation
  nowMs : ℤ
  settings : Settings

/-- What comes out of an operation: the statistics, or how a reward is split. -/
inductive Observed where
  | windowStats (stats : ℚ × ℕ)
  | split (call : RewardCall)
  deriving DecidableEq

namespace TimedOperation

def isPrune (e : TimedOperation) : Bool := decide (e.operation = .prune)

/-- The operation asks for the shares of the window. -/
def readsWindow (e : TimedOperation) : Bool :=
  match e.operation with
  | .windowStats | .blockFound .. => true
  | _ => false

def windowStart (e : TimedOperation) : ℤ := e.nowMs - windowMs e.settings

def perform (e : TimedOperation) (p : Services) : Option (Services × List Observed) :=
  match e.operation with
  | .record minerAddress difficulty blockHeight =>
    ((Call.record ⟨minerAddress, difficulty, e.nowMs, blockHeight⟩).resume e.settings p.shared .executed).map
      fun r => (⟨r.1, p.calls⟩, [])
  | .prune =>
    ((Call.prune (pruneCutoffMs e.settings e.nowMs)).resume e.settings p.shared .executed).map
      fun r => (⟨r.1, p.calls⟩, [])
  | .windowStats => some (p, [.windowStats (getWindowStats p.shared.shares e.windowStart)])
  | .blockFound blockHeight blockRewardSats =>
    ((RewardCall.processBlockFound e.settings e.nowMs blockHeight blockRewardSats).resume e.settings p.shared
      .executed).map fun r => (⟨r.1, p.calls ++ [.reward r.2]⟩, [.split r.2])
  | .goOn index answer => (Services.step e.settings p (.resume index answer)).map fun p' => (p', [])

/-- The operations in turn, with all that comes out. -/
def performAll : List TimedOperation → Services → Option (Services × List Observed)
  | [], p => some (p, [])
  | e :: es, p => (e.perform p).bind fun q => (performAll es q.1).map fun r => (r.1, q.2 ++ r.2)

end TimedOperation

/-- A reward call behind its window query. -/
def Call.IsSplit : Call → Prop
  | .reward (.shares ..) => False
  | .reward _ => True
  | _ => False

/-- The services with another share log. -/
def Services.withShares (p : Services) (shares : List PplnsShareEntity) : Services :=
  ⟨{ p.shared with shares := shares }, p.calls⟩

theorem RewardCall.isSplit_nextCredit {blockHeight fee distributable allocated : ℤ} {reward : ℕ}
    (totals : OrderedMap String ℤ) :
    Call.IsSplit (.reward (nextCredit blockHeight reward fee distributable allocated totals)) := by
  induction totals with
  | nil => trivial
  | cons entry rest ih =>
    unfold nextCredit
    split
    · exact ih
    · trivial

theorem RewardCall.isSplit_splitReward (settings : Settings) (shares : List PplnsShareEntity) (blockHeight : ℤ)
    (reward : ℕ) : Call.IsSplit (.reward (splitReward settings shares blockHeight reward)) := by
  unfold splitReward
  dsimp only
  split
  · trivial
  · exact isSplit_nextCredit _

/-- Behind its query a reward call does not look at the share log. -/
theorem Call.resume_withShares {settings : Settings} {s : PplnsState} {t : Call} {a : Answer} (split : t.IsSplit)
    (shares : List PplnsShareEntity) :
    t.resume settings { s with shares := shares } a =
      (t.resume settings s a).map fun r => ({ r.1 with shares := shares }, r.2) := by
  cases t with
  | reward call =>
    cases call with
    | shares => cases split
    | credit | insertAccounting | updateAccounting | returned | rejected => cases a <;> rfl
  | cycle | reconcile | record | prune | shareLogDone => cases split

theorem Call.isSplit_resume {settings : Settings} {s s' : PplnsState} {t t' : Call} {a : Answer} (split : t.IsSplit)
    (resumed : t.resume settings s a = some (s', t')) : t'.IsSplit := by
  cases t with
  | reward call =>
    cases call with
    | shares => cases split
    | credit =>
      cases a <;> cases resumed
      · exact RewardCall.isSplit_nextCredit _
      · trivial
    | insertAccounting | updateAccounting => cases a <;> cases resumed <;> trivial
    | returned | rejected => cases a <;> cases resumed
  | cycle | reconcile | record | prune | shareLogDone => cases split

/-- A reward call goes on in the same way beside any share log. -/
theorem Services.step_withShares {settings : Settings} {p p' : Services} {index : ℕ} {a : Answer}
    (split : ∀ t ∈ p.calls, t.IsSplit) (moved : Services.step settings p (.resume index a) = some p')
    (shares : List PplnsShareEntity) :
    Services.step settings (p.withShares shares) (.resume index a) = some (p'.withShares shares) ∧
      p'.shared.shares = p.shared.shares ∧ ∀ t ∈ p'.calls, t.IsSplit := by
  obtain ⟨t, found, went⟩ := Option.bind_eq_some_iff.mp moved
  obtain ⟨⟨s', t'⟩, resumed, rfl⟩ := Option.map_eq_some_iff.mp went
  have was_split := split t (List.mem_of_getElem? found)
  have beside : t.resume settings { p.shared with shares := shares } a = some ({ s' with shares := shares }, t') := by
    rw [Call.resume_withShares was_split, resumed, Option.map_some]
  refine ⟨?_, ?_, fun u member => ?_⟩
  · show ((p.withShares shares).calls[index]?.bind fun t =>
      (t.resume settings (p.withShares shares).shared a).map fun r => _) = _
    rw [Services.withShares, found, Option.bind_some, beside]
    rfl
  · have written := Call.shares_resume resumed
    cases t with
    | reward call => exact written
    | cycle | reconcile | record | prune | shareLogDone => cases was_split
  · rcases List.mem_or_eq_of_mem_set member with old | new
    · exact split u old
    · rw [new]
      exact Call.isSplit_resume was_split resumed

/-! ## With and without pruning -/

/-- Services that differ in the share log only, and not in any window that is asked for later. -/
structure Alike (p q : Services) (later : List TimedOperation) : Prop where
  same : q = p.withShares q.shared.shares
  split : ∀ t ∈ p.calls, t.IsSplit
  windows : ∀ e ∈ later, e.readsWindow = true →
    getSharesInWindow p.shared.shares e.windowStart = getSharesInWindow q.shared.shares e.windowStart

section
variable {p q p' : Services} {e : TimedOperation} {es : List TimedOperation} {out : List Observed}

theorem Alike.tail (alike : Alike p q (e :: es)) : Alike p q es :=
  ⟨alike.same, alike.split, fun e' member => alike.windows e' (List.mem_cons_of_mem _ member)⟩

/-- Pruning what is older than every later window. -/
theorem Alike.prune (alike : Alike p q es) {cutoffMs : ℤ}
    (old : ∀ e ∈ es, e.readsWindow = true → cutoffMs ≤ e.windowStart) :
    Alike (p.withShares (pruneOlderThan p.shared.shares cutoffMs)) q es := by
  refine ⟨alike.same, alike.split, fun e member reads => ?_⟩
  have kept := getSharesInWindow_writes [.prune cutoffMs] p.shared.shares fun c single => by
    cases List.mem_singleton.mp single
    exact old e member reads
  have nothing : getSharesInWindow [] e.windowStart = [] := rfl
  rw [List.foldl_cons, List.foldl_nil, ShareLogWrite.apply, List.filterMap_cons, ShareLogWrite.recorded,
    List.filterMap_nil, nothing, List.append_nil] at kept
  exact kept.trans (alike.windows e member reads)

/-- Recording a share on both sides. -/
theorem Alike.record (alike : Alike p q es) (share : PplnsShareEntity) :
    Alike (p.withShares (p.shared.shares ++ [share])) (q.withShares (q.shared.shares ++ [share])) es := by
  refine ⟨by rw [alike.same]; rfl, alike.split, fun e member reads => ?_⟩
  have windows := alike.windows e member reads
  simp only [getSharesInWindow] at windows
  simp only [Services.withShares, getSharesInWindow, List.filter_append, windows]

/-- An operation other than a prune comes to the same on both sides. -/
theorem Alike.perform (alike : Alike p q (e :: es)) (keeps : e.isPrune = false)
    (performed : e.perform p = some (p', out)) : ∃ q', e.perform q = some (q', out) ∧ Alike p' q' es := by
  obtain ⟨operation, nowMs, settings⟩ := e
  have here := alike.windows _ List.mem_cons_self
  cases operation with
  | record minerAddress difficulty blockHeight =>
    cases performed
    exact ⟨_, rfl, alike.tail.record _⟩
  | prune => cases keeps
  | windowStats =>
    cases performed
    refine ⟨q, ?_, alike.tail⟩
    simp only [TimedOperation.perform, getWindowStats, here rfl]
  | blockFound blockHeight blockRewardSats =>
    cases performed
    have window : getSharesInWindow p.shared.shares (nowMs - settings.windowMinutes * 60 * 1000) =
        getSharesInWindow q.shared.shares (nowMs - settings.windowMinutes * 60 * 1000) := here rfl
    refine ⟨⟨q.shared, q.calls ++ [.reward (RewardCall.splitReward settings
      (getSharesInWindow p.shared.shares (nowMs - settings.windowMinutes * 60 * 1000)) blockHeight blockRewardSats)]⟩,
      ?_, ?_, ?_, alike.tail.windows⟩
    · rw [window]
      rfl
    · rw [alike.same]
      rfl
    · intro t member
      rcases List.mem_append.mp member with old | new
      · exact alike.split t old
      · rw [List.mem_singleton.mp new]
        exact RewardCall.isSplit_splitReward ..
  | goOn index answer =>
    obtain ⟨p₁, moved, ended⟩ := Option.map_eq_some_iff.mp performed
    cases ended
    obtain ⟨beside, shares, split⟩ := Services.step_withShares alike.split moved q.shared.shares
    rw [← alike.same] at beside
    refine ⟨Services.withShares p' q.shared.shares, ?_, rfl, split, fun e member reads => ?_⟩
    · simp only [TimedOperation.perform, beside, Option.map_some]
    · rw [shares]
      exact alike.tail.windows e member reads

end

/-- A prune deletes nothing from the window of a later operation whose settings make the window wider
by an hour at most. -/
theorem pruneCutoffMs_le_windowStart {e e' : TimedOperation} (later : e.nowMs ≤ e'.nowMs)
    (margin : windowMs e'.settings ≤ windowMs e.settings + 60 * 60 * 1000) :
    pruneCutoffMs e.settings e.nowMs ≤ e'.windowStart := by
  rw [pruneCutoffMs, TimedOperation.windowStart]
  omega

/-- Leaving out the prunes from services that are alike. -/
theorem Alike.performAll {p p' q : Services} {es : List TimedOperation} {out : List Observed}
    (alike : Alike p q es) (run : TimedOperation.performAll es p = some (p', out))
    (clock : es.Pairwise fun e e' => e.nowMs ≤ e'.nowMs)
    (margin : es.Pairwise fun e e' => e.isPrune = true → e'.readsWindow = true →
      windowMs e'.settings ≤ windowMs e.settings + 60 * 60 * 1000) :
    ∃ shares, TimedOperation.performAll (es.filter fun e => !e.isPrune) q = some (p'.withShares shares, out) := by
  induction es generalizing p q out with
  | nil =>
    cases run
    exact ⟨q.shared.shares, by rw [← alike.same]; rfl⟩
  | cons e es ih =>
    obtain ⟨⟨p₁, first⟩, performed, rest⟩ := Option.bind_eq_some_iff.mp run
    obtain ⟨⟨p₂, others⟩, remaining, ended⟩ := Option.map_eq_some_iff.mp rest
    cases ended
    obtain ⟨after, clock⟩ := List.pairwise_cons.mp clock
    obtain ⟨wider, margin⟩ := List.pairwise_cons.mp margin
    by_cases prunes : e.isPrune = true
    · have operation : e.operation = .prune := of_decide_eq_true prunes
      rw [TimedOperation.perform, operation] at performed
      cases performed
      have old : ∀ e' ∈ es, e'.readsWindow = true → pruneCutoffMs e.settings e.nowMs ≤ e'.windowStart :=
        fun e' member reads => pruneCutoffMs_le_windowStart (after e' member) (wider e' member prunes reads)
      obtain ⟨shares, same⟩ := ih (alike.tail.prune old) remaining clock margin
      refine ⟨shares, ?_⟩
      rw [List.filter_cons_of_neg (by simp [prunes])]
      exact same
    · obtain ⟨q₁, beside, alike⟩ := alike.perform (Bool.eq_false_iff.mpr prunes) performed
      obtain ⟨shares, same⟩ := ih alike remaining clock margin
      refine ⟨shares, ?_⟩
      rw [List.filter_cons_of_pos (by simp [prunes]), TimedOperation.performAll, beside, Option.bind_some, same]
      rfl

/-- **Pruning is unobservable**: whatever comes out of a run, and the calls, the ledger and the
accounting it ends with, are the same with all prunes left out, as long as no window is wider
than that of an earlier prune by more than an hour. -/
theorem performAll_without_prunes {s : PplnsState} {p : Services} {es : List TimedOperation} {out : List Observed}
    (run : TimedOperation.performAll es ⟨s, []⟩ = some (p, out))
    (clock : es.Pairwise fun e e' => e.nowMs ≤ e'.nowMs)
    (margin : es.Pairwise fun e e' => e.isPrune = true → e'.readsWindow = true →
      windowMs e'.settings ≤ windowMs e.settings + 60 * 60 * 1000) :
    ∃ shares, TimedOperation.performAll (es.filter fun e => !e.isPrune) ⟨s, []⟩ = some (p.withShares shares, out) := by
  have alike : Alike ⟨s, []⟩ ⟨s, []⟩ es := ⟨rfl, fun _ member => absurd member List.not_mem_nil, fun _ _ _ => rfl⟩
  exact alike.performAll run clock margin

/-- A share is recorded, and two and a half hours later another one; the first is pruned, and then a
block is found, with a window of two and a half hours instead of one and a half. -/
def Regtest.pruned : List TimedOperation :=
  let wide : Settings := { Settings.defaults with windowMinutes := 150 }
  [⟨.record "a" 1 100, 0, .defaults⟩, ⟨.record "b" 1 100, 9000001, .defaults⟩, ⟨.prune, 9000001, .defaults⟩,
    ⟨.windowStats, 9000001, wide⟩, ⟨.blockFound 101 5000000000, 9000002, wide⟩, ⟨.goOn 0 .executed, 9000003, wide⟩]

/-- The miner of the first share gets nothing, with or without the prune. -/
theorem performAll_without_prunes_wider_window : ∃ (p : Services) (shares : List PplnsShareEntity),
    p.shared.shares.length = 1 ∧ p.shared.ledger.rows.map (·.minerAddress) = ["b"] ∧
      (TimedOperation.performAll (Regtest.pruned.filter fun e => !e.isPrune) ⟨.empty, []⟩).map Prod.fst =
        some (p.withShares shares) := by
  have runs : (TimedOperation.performAll Regtest.pruned ⟨.empty, []⟩).any (fun r => decide
      (r.1.shared.shares.length = 1 ∧ r.1.shared.ledger.rows.map (·.minerAddress) = ["b"])) = true := by decide +kernel
  obtain ⟨⟨p, out⟩, run, ends⟩ := (Option.any_eq_true ..).mp runs
  obtain ⟨one, paid⟩ := of_decide_eq_true ends
  obtain ⟨shares, same⟩ := performAll_without_prunes run (by decide +kernel) (by decide +kernel)
  exact ⟨p, shares, one, paid, by rw [same, Option.map_some]⟩

end ElektronPool.Pplns
