import ElektronPool.Pplns.LedgerHistory
import ElektronPool.Pplns.Payments
import ElektronPool.Pplns.Proportional
import ElektronPool.Stratum.Regtest
import ElektronPool.Whole.ShareLog

/-!
# From the work to the credits

The rewards of a run of the whole pool are split over what the sessions have accepted: each block
once, over all the rows of its window, although the table the window is read from is pruned
meanwhile.
-/

namespace ElektronPool.Whole
set_option autoImplicit false
open Js Async

/-! ## The work of a run -/

/-- A reward that has been split, with the rows of its window. -/
structure BlockSplit where
  blockHeight : ℤ
  blockRewardSats : ℕ
  rows : List Stratum.ShareRecord

/-- What its shares in the window earn a miner, each rounded down. -/
def BlockSplit.earned (settings : Pplns.Settings) (split : BlockSplit) (minerAddress : String) : ℤ :=
  let shares := split.rows.map entityOf
  let total := Pplns.totalDifficulty shares
  if total ≤ 0 then 0
  else ((Pplns.sharesOf shares minerAddress).map
    (Pplns.shareAmount (Pplns.distributableSats settings split.blockRewardSats) total)).sum

/-- The part of a reward that a miner has by its work in the window. -/
def BlockSplit.part (settings : Pplns.Settings) (split : BlockSplit) (minerAddress : String) : ℚ :=
  let shares := split.rows.map entityOf
  Pplns.exactAmount (Pplns.distributableSats settings split.blockRewardSats) (Pplns.totalDifficulty shares)
    (Pplns.sharesOf shares minerAddress)

/-- What the statements behind the blocks of a run have come to: the rewards that were split, those whose
window could not be read, and the credits that were given up with a statement that failed. -/
structure WorkLog where
  splits : List BlockSplit
  unread : List (ℤ × ℕ)
  lost : List (String × ℤ)

/-- The entries of a miner. -/
def sumTo (minerAddress : String) (entries : List (String × ℤ)) : ℤ :=
  ((entries.filter fun e => e.1 = minerAddress).map Prod.snd).sum

/-- The credits that a call has still to write. -/
def unpaid : Pplns.Call → List (String × ℤ)
  | .reward (.credit _ _ _ _ _ address amount rest) => ((address, amount) :: rest).filter fun e => 0 < e.2
  | _ => []

/-- The reward that a call has still to split. -/
def unsplit : Pplns.Call → Multiset (ℤ × ℕ)
  | .reward (.shares blockHeight blockRewardSats _) => {(blockHeight, blockRewardSats)}
  | _ => 0

namespace WorkLog

def empty : WorkLog := ⟨[], [], []⟩

/-- A service goes on while the sessions have written these rows. -/
def resumed (g : WorkLog) (shareLog : List Stratum.ShareRecord) : Option (Pplns.Call × Pplns.Answer) → WorkLog
  | some (.reward (.shares blockHeight blockRewardSats windowStart), .executed) =>
    { g with splits := g.splits ++
        [⟨blockHeight, blockRewardSats, shareLog.filter fun row => windowStart ≤ row.timestamp⟩] }
  | some (.reward (.shares blockHeight blockRewardSats _), .dbError) =>
    { g with unread := g.unread ++ [(blockHeight, blockRewardSats)] }
  | some (.reward call, .dbError) => { g with lost := g.lost ++ unpaid (.reward call) }
  | _ => g

def rewards (g : WorkLog) : Multiset (ℤ × ℕ) :=
  ↑(g.splits.map fun split => (split.blockHeight, split.blockRewardSats)) + ↑g.unread

def earned (g : WorkLog) (settings : Pplns.Settings) (minerAddress : String) : ℤ :=
  (g.splits.map fun split => split.earned settings minerAddress).sum

end WorkLog

section
variable {P : Stratum.Packages}

def recordWork (g : WorkLog) (w : World P) : PoolEvent P → World P → WorkLog
  | .pass _, _ => g
  | .happens e, _ => g.resumed w.pools.outer.shared.shareLog (w.pools.resumption e)

/-- The window of a block is read within an hour of the call: before that, pruning leaves it as it is. -/
def ReadInTime (settings : Pplns.Settings) (clock : ℤ) : Option (Pplns.Call × Pplns.Answer) → Prop
  | some (.reward (.shares _ _ windowStart), .executed) => Pplns.pruneCutoffMs settings clock ≤ windowStart
  | _ => True

/-- The rows recorded so far have finite difficulties, and windows are read in time. -/
def Ordinary (settings : Pplns.Settings) (w : World P) : PoolEvent P → Prop
  | .pass _ => True
  | .happens e => (∀ row ∈ w.pools.outer.shared.shareLog, row.difficulty = .fin (entityOf row).difficulty) ∧
    ReadInTime settings w.clock (w.pools.resumption e)

instance (settings : Pplns.Settings) (clock : ℤ) : DecidablePred (ReadInTime settings clock) := by
  intro resumed
  unfold ReadInTime
  split <;> infer_instance

instance (settings : Pplns.Settings) (w : World P) : DecidablePred (Ordinary settings w)
  | .pass _ => .isTrue trivial
  | .happens _ => inferInstanceAs (Decidable (_ ∧ _))

/-- Besides, a payout cycle begins when the last one has ended, and every payment is heard of and marked. -/
def Careful (settings : Pplns.Settings) (w : World P) : PoolEvent P → Prop
  | .pass _ => True
  | .happens e => Ordinary settings w (.happens e) ∧
    Nested.OnInner (Pool.Allowed Pplns.OneAfterAnother fun _ _ => Pplns.PaymentsAreMarked) w.pools e

instance (settings : Pplns.Settings) (w : World P) : DecidablePred (Careful settings w)
  | .pass _ => .isTrue trivial
  | .happens _ => inferInstanceAs (Decidable (_ ∧ _))

end

/-! ## One call -/

section
variable {settings : Pplns.Settings} {s s' : Pplns.PplnsState} {u u' : Pplns.Call} {a : Pplns.Answer}
  {minerAddress : String} {blockHeight fee distributable allocated : ℤ} {reward : ℕ} {g : WorkLog}
  {shareLog : List Stratum.ShareRecord}

theorem sumTo_append (first second : List (String × ℤ)) :
    sumTo minerAddress (first ++ second) = sumTo minerAddress first + sumTo minerAddress second := by
  rw [sumTo, List.filter_append, List.map_append, List.sum_append]
  rfl

theorem unpaid_nextCredit (totals : OrderedMap String ℤ) :
    unpaid (.reward (Pplns.RewardCall.nextCredit blockHeight reward fee distributable allocated totals)) =
      totals.filter fun e => 0 < e.2 := by
  induction totals with
  | nil => rfl
  | cons entry rest ih =>
    simp only [Pplns.RewardCall.nextCredit]
    split
    · rw [ih, List.filter_cons_of_neg (by simpa using ‹_›)]
    · rfl

theorem unsplit_nextCredit (totals : OrderedMap String ℤ) :
    unsplit (.reward (Pplns.RewardCall.nextCredit blockHeight reward fee distributable allocated totals)) = 0 := by
  induction totals with
  | nil => rfl
  | cons entry rest ih =>
    simp only [Pplns.RewardCall.nextCredit]
    split
    · exact ih
    · rfl

theorem unsplit_splitReward (shares : List Pplns.PplnsShareEntity) :
    unsplit (.reward (Pplns.RewardCall.splitReward settings shares blockHeight reward)) = 0 := by
  simp only [Pplns.RewardCall.splitReward]
  split
  · rfl
  · exact unsplit_nextCredit _

/-- The credits that follow from a window are what the shares in it earn. -/
theorem sumTo_splitReward (rows : List Stratum.ShareRecord) (nonneg : ∀ row ∈ rows, 0 ≤ (entityOf row).difficulty) :
    sumTo minerAddress (unpaid (.reward (Pplns.RewardCall.splitReward settings (rows.map entityOf) blockHeight reward))) =
      (BlockSplit.mk blockHeight reward rows).earned settings minerAddress := by
  simp only [Pplns.RewardCall.splitReward, BlockSplit.earned]
  split
  · rfl
  · have difficulties : ∀ share ∈ rows.map entityOf, 0 ≤ share.difficulty := List.forall_mem_map.mpr nonneg
    have each := Pplns.perMinerTotals_nonneg (Pplns.distributableSats_nonneg settings reward) (not_le.mp ‹_›).le difficulties
    rw [unpaid_nextCredit, sumTo, Pplns.sum_filter_pos each fun miner => miner = minerAddress,
      Pplns.sum_filter_perMinerTotals fun miner => miner = minerAddress]
    rfl

/-- A window as the sessions have written it. -/
def Reads (shareLog : List Stratum.ShareRecord) (s : Pplns.PplnsState) : Option (Pplns.Call × Pplns.Answer) → Prop
  | some (.reward (.shares _ _ windowStart), .executed) => Pplns.getSharesInWindow s.shares windowStart =
      (shareLog.filter fun row => windowStart ≤ row.timestamp).map entityOf
  | _ => True

theorem totalCredited_of_leavesCredits (leaves : Pplns.LeavesCredits s s') :
    s'.ledger.totalCredited minerAddress = s.ledger.totalCredited minerAddress := by
  obtain ⟨f, keeps, ledger⟩ := leaves.ledger
  rw [ledger, Pplns.PayoutLedger.totalCredited, Pplns.PayoutLedger.totalCredited, Pplns.PayoutLedger.update, List.filter_map,
    Pplns.sumSats, Pplns.sumSats, List.map_map]
  simp only [Function.comp_def, keeps.minerAddress, keeps.amountSats]

/-- One resumption: what it takes from the credits still to be written it writes or gives up. -/
theorem credits_of_resume (minerAddress : String) (resumed : u.resume settings s a = some (s', u'))
    (reads : Reads shareLog s (some (u, a))) (nonneg : ∀ row ∈ shareLog, 0 ≤ (entityOf row).difficulty) :
    s'.ledger.totalCredited minerAddress + sumTo minerAddress (unpaid u') +
        sumTo minerAddress (g.resumed shareLog (some (u, a))).lost + g.earned settings minerAddress =
      s.ledger.totalCredited minerAddress + sumTo minerAddress (unpaid u) + sumTo minerAddress g.lost +
        (g.resumed shareLog (some (u, a))).earned settings minerAddress := by
  cases Pplns.Call.resumed_of_resume resumed with
  | reward step =>
    unfold Pplns.RewardCall.resume at step
    split at step <;> cases step
    · rename_i height reward windowStart
      have window : Pplns.getSharesInWindow s.shares windowStart = _ := reads
      rw [window, sumTo_splitReward _ fun row member => nonneg row (List.mem_of_mem_filter member)]
      simp only [WorkLog.resumed, WorkLog.earned, List.map_append, List.map_singleton, List.sum_append, List.sum_singleton]
      show _ + _ + _ + _ = _ + 0 + _ + _
      ring
    · rename_i height reward fee distributable allocated address amount rest
      have credited := Pplns.PayoutLedger.totalCredited_perform s.ledger (.credit address amount height) minerAddress
      rw [Pplns.PayoutLedger.perform, Pplns.LedgerCall.creditedTo] at credited
      rw [credited, unpaid_nextCredit]
      by_cases positive : 0 < amount <;> by_cases same : address = minerAddress <;>
        simp [WorkLog.resumed, WorkLog.earned, unpaid, sumTo, positive, same, -List.filter_filter]
      ring
    · rfl
    · rfl
    · rename_i call _ _ _ _
      cases call with
      | shares => rfl
      | _ =>
        simp only [WorkLog.resumed, sumTo_append, WorkLog.earned]
        show _ + 0 + _ + _ = _
        ring
  | cycle step => rw [totalCredited_of_leavesCredits (Pplns.PayoutCycle.leavesCredits step)]; rfl
  | reconcile step => rw [totalCredited_of_leavesCredits (Pplns.Reconciliation.leavesCredits step)]; rfl
  | record | prune => rfl

theorem rewards_of_resume (resumed : u.resume settings s a = some (s', u')) :
    (g.resumed shareLog (some (u, a))).rewards + unsplit u' = g.rewards + unsplit u := by
  cases Pplns.Call.resumed_of_resume resumed with
  | reward step =>
    unfold Pplns.RewardCall.resume at step
    split at step <;> cases step
    · rw [unsplit_splitReward]
      simp only [WorkLog.resumed, WorkLog.rewards, List.map_append, List.map_singleton, ← Multiset.coe_add, unsplit,
        Multiset.coe_singleton]
      abel
    · rw [unsplit_nextCredit]
      rfl
    · rfl
    · rfl
    · rename_i call _ _ _ _
      cases call with
      | shares =>
        simp only [WorkLog.resumed, WorkLog.rewards, ← Multiset.coe_add, unsplit, Multiset.coe_singleton]
        abel
      | _ => rfl
  | cycle | reconcile | record | prune => rfl

end

/-! ## A block on regtest -/

namespace Regtest
open Stratum.Regtest

def sessions (es : List (Event (Stratum.Call packages) Stratum.Answer)) : List (PoolEvent packages) :=
  es.map fun e => .happens (.outer e)

def services (es : List Pplns.ServiceEvent) : List (PoolEvent packages) := es.map fun e => .happens (.inner e)

/-- A session works at height 101, and the node takes its first share as a block. -/
def blockFound : List (PoolEvent packages) :=
  sessions ((mining (.fin (1 / 10 ^ 10))).take 8) ++ [.pass 1700000000000] ++
    sessions ((mining (.fin (1 / 10 ^ 10))).drop 8) ++ [.pass 1000] ++
    sessions [.start (.submit 0 (submission "00000002")), .resume 4 (.ran 1700000001000),
      .resume 4 (.written true 1700000001000)] ++
    [.happens (.reply 4 .executed (.recorded true))] ++
    sessions [.resume 4 (.submitted "SUCCESS!"), .resume 4 (.returned .save 1700000001000), .resume 4 (.subscribers 0),
      .resume 4 (.returned .resetBestDifficultyAndShares 1700000001000),
      .resume 4 (.returned .reportBlockFound 1700000001000)]

/-- The reward is split while old shares are pruned, and the next payout cycle pays it. -/
def rewardPaid : List (PoolEvent packages) :=
  services [.start (.prune (Pplns.pruneCutoffMs .defaults 1700000001000)), .resume 2 .executed,
      .resume 1 .executed, .resume 1 .executed, .resume 1 .executed] ++
    [.happens (.reply 4 .executed (.returned .processBlockFound 1700000001000))] ++
    services [.start (.cycle .miningInfo), .resume 3 (.miningInfo (some 200)), .resume 3 .executed,
      .resume 3 (.overrides []), .resume 3 (.balance 5000000000), .resume 3 (.sent "t" 0), .resume 3 .executed,
      .resume 3 .executed]

end Regtest

/-! ## Every lep of a block -/

section
variable {P : Stratum.Packages} {config : Stratum.StratumConfig} {settings : Pplns.Settings} {now : ℤ} {w : World P}
  {pools : Sides P} {resumed : Option (Pplns.Call × Pplns.Answer)} {g : WorkLog}

/-- The part of a reward that its call has not written. -/
def unwritten : Pplns.Call → ℤ
  | .reward call => call.unwritten
  | _ => 0

theorem blockRewardSats_of_resume {s s' : Pplns.PplnsState} {u u' : Pplns.Call} {a : Pplns.Answer}
    (resumed : u.resume settings s a = some (s', u')) : u'.blockRewardSats = u.blockRewardSats := by
  cases Pplns.Call.resumed_of_resume resumed with
  | reward step =>
    unfold Pplns.RewardCall.resume at step
    split at step <;> cases step
    · exact Pplns.RewardCall.blockRewardSats_splitReward ..
    · exact Pplns.RewardCall.blockRewardSats_nextCredit _
    all_goals rfl
  | cycle | reconcile | record | prune => rfl

/-- A call for each block, and a block for each call. -/
theorem blockRewardSats_of_does (does : World.Does settings w resumed pools)
    (same : (w.pools.inner.calls.map Pplns.Call.blockRewardSats).sum = (w.pools.outer.shared.rewards.map Prod.snd).sum) :
    (pools.inner.calls.map Pplns.Call.blockRewardSats).sum = (pools.outer.shared.rewards.map Prod.snd).sum := by
  cases does with
  | aside shareLog rewards inner => rw [inner, rewards, same]
  | @starts _ u shareLog rewards other cutoff inner =>
    have nothing : u.blockRewardSats = 0 := by
      cases u with
      | reward call => exact absurd rfl (other call)
      | _ => rfl
    rw [inner, rewards, List.map_append, List.sum_append, same, List.map_singleton, List.sum_singleton, nothing, add_zero]
  | found height coinbasevalue shareLog rewards inner =>
    rw [inner, rewards, List.map_append, List.sum_append, same, List.map_append, List.sum_append]
    rfl
  | resumes shareLog rewards unrecorded calls resumed inner =>
    rw [calls] at same
    rw [inner, rewards, ← same, List.map_append, List.map_append, List.map_cons, List.map_cons,
      blockRewardSats_of_resume resumed]
  | records row shareLog rewards calls inner =>
    rw [calls] at same
    rw [inner, rewards, ← same, List.map_append, List.map_append]
    rfl

theorem sum_owed_add (calls : List Pplns.Call) :
    (calls.map Pplns.Call.owed).sum + ((calls.map Pplns.Call.blockRewardSats).sum : ℕ) = (calls.map unwritten).sum := by
  induction calls with
  | nil => rfl
  | cons u rest ih =>
    have head : u.owed + u.blockRewardSats = unwritten u := by
      cases u with
      | reward call => exact sub_add_cancel ..
      | _ => rfl
    rw [List.map_cons, List.sum_cons, List.map_cons, List.sum_cons, List.map_cons, List.sum_cons, ← ih, ← head, Nat.cast_add]
    ring

end

/-! ## The books of a run -/

section
variable {P : Stratum.Packages} {config : Stratum.StratumConfig} {settings : Pplns.Settings} {now : ℤ} {w : World P}
  {g : WorkLog} {pools : Sides P} {resumed : Option (Pplns.Call × Pplns.Answer)} {e : PoolEvent P}

/-- The blocks, the windows and the credits, at any point of a run. -/
structure Books (settings : Pplns.Settings) (w : World P) (g : WorkLog) : Prop where
  kept : Kept settings w
  rows : ∀ split ∈ g.splits, ∀ row ∈ split.rows,
    row ∈ w.pools.outer.shared.shareLog ∧ row.difficulty = .fin (entityOf row).difficulty
  lost : ∀ entry ∈ g.lost, 0 < entry.2
  rewards : (↑(w.pools.outer.shared.rewards.map fun r => ((r.1 : ℤ), r.2)) : Multiset (ℤ × ℕ)) =
    g.rewards + (w.pools.inner.calls.map unsplit).sum
  credits : ∀ minerAddress, w.pools.inner.shared.ledger.totalCredited minerAddress +
      (w.pools.inner.calls.map fun t => sumTo minerAddress (unpaid t)).sum + sumTo minerAddress g.lost =
    g.earned settings minerAddress

theorem pos_of_mem_unpaid {u : Pplns.Call} {entry : String × ℤ} (member : entry ∈ unpaid u) : 0 < entry.2 := by
  unfold unpaid at member
  split at member
  · exact of_decide_eq_true (List.mem_filter.mp member).2
  · cases member

/-- What is new in the log. -/
theorem mem_resumed (g : WorkLog) (shareLog : List Stratum.ShareRecord)
    (resumed : Option (Pplns.Call × Pplns.Answer)) :
    (∀ split ∈ (g.resumed shareLog resumed).splits, split ∈ g.splits ∨ split.rows ⊆ shareLog) ∧
      ∀ entry ∈ (g.resumed shareLog resumed).lost, entry ∈ g.lost ∨ 0 < entry.2 := by
  unfold WorkLog.resumed
  split
  · refine ⟨fun split member => ?_, fun entry member => .inl member⟩
    rcases List.mem_append.mp member with old | new
    · exact .inl old
    · exact .inr (List.mem_singleton.mp new ▸ List.filter_subset_self _)
  · exact ⟨fun split member => .inl member, fun entry member => .inl member⟩
  · refine ⟨fun split member => .inl member, fun entry member => ?_⟩
    exact (List.mem_append.mp member).imp_right pos_of_mem_unpaid
  · exact ⟨fun split member => .inl member, fun entry member => .inl member⟩

/-- The window of a block, read in time, is what the sessions have recorded. -/
theorem Kept.reads (kept : Kept settings w) (inTime : ReadInTime settings w.clock resumed) :
    Reads w.pools.outer.shared.shareLog w.pools.inner.shared resumed := by
  unfold Reads
  split
  · rw [kept.table _ inTime, Pplns.getSharesInWindow, List.filter_map]
    rfl
  · trivial

/-- What one event does to the books. -/
theorem books_of_does (books : Books settings w g)
    (nonneg : ∀ row ∈ w.pools.outer.shared.shareLog, 0 ≤ (entityOf row).difficulty)
    (finite : ∀ row ∈ w.pools.outer.shared.shareLog, row.difficulty = .fin (entityOf row).difficulty)
    (inTime : ReadInTime settings w.clock resumed) (does : World.Does settings w resumed pools) :
    Books settings { w with pools := pools } (g.resumed w.pools.outer.shared.shareLog resumed) := by
  have kept := kept_of_does books.kept does
  have kept_before := books.kept
  obtain ⟨-, rows, lost, blocks, credits⟩ := books
  cases does with
  | aside shareLog rewards inner =>
    show Books settings { w with pools := pools } g
    refine ⟨kept, ?_, lost, ?_, ?_⟩
    · simpa only [shareLog] using rows
    · simpa only [inner, rewards] using blocks
    · simpa only [inner] using credits
  | @starts _ u shareLog rewards other cutoff inner =>
    have nothing : unsplit u = 0 ∧ unpaid u = [] := by
      cases u with
      | reward call => exact absurd rfl (other call)
      | _ => exact ⟨rfl, rfl⟩
    show Books settings { w with pools := pools } g
    refine ⟨kept, ?_, lost, ?_, fun minerAddress => ?_⟩
    · simpa only [shareLog] using rows
    · rw [rewards, inner, List.map_append, List.sum_append, List.map_singleton, List.sum_singleton, nothing.1, add_zero]
      exact blocks
    · rw [inner, List.map_append, List.sum_append, List.map_singleton, List.sum_singleton, nothing.2, sumTo, List.filter_nil,
        List.map_nil, List.sum_nil, add_zero]
      exact credits minerAddress
  | found height coinbasevalue shareLog rewards inner =>
    show Books settings { w with pools := pools } g
    refine ⟨kept, ?_, lost, ?_, fun minerAddress => ?_⟩
    · simpa only [shareLog] using rows
    · rw [rewards, inner, List.map_append, ← Multiset.coe_add, blocks, List.map_append, List.sum_append, add_assoc]
      rfl
    · rw [inner, List.map_append, List.sum_append, List.map_singleton, List.sum_singleton]
      show _ + (_ + 0) + _ = _
      rw [add_zero]
      exact credits minerAddress
  | @resumes _ before after u u' a' r' shareLog rewards unrecorded calls resumed inner =>
    obtain ⟨splits, given_up⟩ := mem_resumed g w.pools.outer.shared.shareLog (some (u, a'))
    refine ⟨kept, fun split member row inRows => ?_, fun entry member => ?_, ?_, fun minerAddress => ?_⟩
    · rw [shareLog]
      rcases splits split member with old | new
      · exact rows split old row inRows
      · exact ⟨new inRows, finite row (new inRows)⟩
    · exact (given_up entry member).elim (lost entry) id
    · have moves : (g.resumed w.pools.outer.shared.shareLog (some (u, a'))).rewards + unsplit u' = g.rewards + unsplit u :=
        rewards_of_resume resumed
      have own : ∀ x y : Multiset (ℤ × ℕ), x + ((before.map unsplit).sum + (y + (after.map unsplit).sum)) =
          x + y + ((before.map unsplit).sum + (after.map unsplit).sum) := by
        intro x y
        abel
      rw [rewards, blocks, calls, inner]
      simp only [List.map_append, List.map_cons, List.sum_append, List.sum_cons]
      rw [own, own, moves]
    · have moves := credits_of_resume (g := g) minerAddress resumed (kept_before.reads inTime) nonneg
      have before_it := credits minerAddress
      rw [calls] at before_it
      rw [inner]
      simp only [List.map_append, List.map_cons, List.sum_append, List.sum_cons] at before_it ⊢
      linarith
  | records row shareLog rewards calls inner =>
    refine ⟨kept, fun split member row inRows => ?_, lost, ?_, fun minerAddress => ?_⟩
    · obtain ⟨recorded, known⟩ := rows split member row inRows
      rw [shareLog]
      exact ⟨List.mem_append_left _ recorded, known⟩
    · rw [rewards, inner, blocks, calls, List.map_append, List.map_append]
      rfl
    · have before_it := credits minerAddress
      rw [calls, List.map_append] at before_it
      rw [inner, List.map_append]
      exact before_it

/-- Every point of a run. -/
theorem books_of_run {ok : World P → PoolEvent P → Prop}
    (run : Reaches (recording (World.step config settings) recordWork) (fun q => ok q.1) (.initial P now, .empty) (w, g))
    (ordinary : ∀ w e, ok w e → Ordinary settings w e) : Books settings w g := by
  refine invariant_of_does (Books settings) ?_ ?_ ?_ run
  · exact ⟨⟨fun _ _ => rfl, by rintro _ ⟨⟩⟩, by rintro _ ⟨⟩, by rintro _ ⟨⟩, rfl, fun _ => rfl⟩
  · intro w g ms books _
    exact { books with kept := books.kept.pass ms }
  · intro w g e pools books allowed _ _ sessions _ does
    obtain ⟨finite, inTime⟩ := ordinary _ _ allowed
    exact books_of_does books (fun row member => difficulty_nonneg_of_provenance sessions member) finite inTime does

theorem sumTo_nonneg (minerAddress : String) {entries : List (String × ℤ)} (positive : ∀ entry ∈ entries, 0 < entry.2) :
    0 ≤ sumTo minerAddress entries :=
  List.sum_nonneg fun _ member => by
    obtain ⟨entry, kept, rfl⟩ := List.mem_map.mp member
    exact (positive entry (List.mem_of_mem_filter kept)).le

theorem Books.totalCredited_le (books : Books settings w g) (minerAddress : String) :
    w.pools.inner.shared.ledger.totalCredited minerAddress ≤ g.earned settings minerAddress := by
  have credits := books.credits minerAddress
  have lost := sumTo_nonneg minerAddress books.lost
  have waiting : 0 ≤ (w.pools.inner.calls.map fun t => sumTo minerAddress (unpaid t)).sum :=
    List.sum_nonneg fun _ member => by
      obtain ⟨t, -, rfl⟩ := List.mem_map.mp member
      exact sumTo_nonneg minerAddress fun _ => pos_of_mem_unpaid
  omega

/-- Rounding takes from the part of a miner and never adds to it. -/
theorem BlockSplit.earned_le_part {split : BlockSplit} (nonneg : ∀ row ∈ split.rows, 0 ≤ (entityOf row).difficulty)
    (minerAddress : String) : (split.earned settings minerAddress : ℚ) ≤ split.part settings minerAddress := by
  have total_nonneg : 0 ≤ Pplns.totalDifficulty (split.rows.map entityOf) :=
    List.sum_nonneg fun _ member => by
      obtain ⟨share, inShares, rfl⟩ := List.mem_map.mp member
      obtain ⟨row, inRows, rfl⟩ := List.mem_map.mp inShares
      exact nonneg row inRows
  simp only [BlockSplit.earned, BlockSplit.part]
  split
  · rw [le_antisymm ‹_› total_nonneg, Pplns.exactAmount, div_zero, Int.cast_zero]
  · rw [← Pplns.sum_exact, Int.cast_list_sum, List.map_map]
    exact List.sum_le_sum fun share _ => Int.floor_le _

end

end ElektronPool.Whole
