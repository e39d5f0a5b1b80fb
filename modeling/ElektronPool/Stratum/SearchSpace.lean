import ElektronPool.Stratum.Headers

/-!
# Which headers a message offers

A miner varies the nonce and the version bits it may roll; all else of a header is fixed by the
`mining.notify`. All sessions mine for the same coinbase, so two messages of one second are
told apart by the four version bits of the pool alone (`searchSpace_response_eq_iff`), which
each session counts for itself. As long as no two sessions come to the same count in the same
second, no two messages offer the same headers (`nodup_searchSpace_of_fresh`).
-/

namespace ElektronPool.Stratum
set_option autoImplicit false
open Js Bitcoin Async

/-! ## Version bits -/

/-- The version bits a miner may roll. -/
def minerVersionBitsMask : BitVec 32 := 0x1ffe0000

/-- The version bits that are the node's. -/
def nodeVersionBitsMask : BitVec 32 := 0xe0001fff

/-- The pool's version bits for a job of a session that has counted so far. -/
def poolVersionBits (counter : ℕ) : BitVec 32 := BitVec.ofNat 32 (counter % 16) <<< 13

theorem poolVersionBits_and_mask (counter : ℕ) :
    poolVersionBits counter &&& elektronPoolVersionBitsMask = poolVersionBits counter := by
  have below : counter % 16 < 16 := Nat.mod_lt _ (by decide)
  unfold poolVersionBits
  generalize counter % 16 = rotationState at below
  interval_cases rotationState <;> decide

theorem jobVersion_and_poolMask (version : BitVec 32) (counter : ℕ) :
    jobVersion version counter &&& elektronPoolVersionBitsMask = poolVersionBits counter := by
  have apart : ~~~elektronPoolVersionBitsMask &&& elektronPoolVersionBitsMask = 0#32 := by decide
  calc jobVersion version counter &&& elektronPoolVersionBitsMask
      = (version &&& (~~~elektronPoolVersionBitsMask &&& elektronPoolVersionBitsMask)) |||
          (poolVersionBits counter &&& (elektronPoolVersionBitsMask &&& elektronPoolVersionBitsMask)) := by
        rw [← BitVec.and_assoc, ← BitVec.and_assoc, ← BitVec.and_or_distrib_right]
        rfl
    _ = poolVersionBits counter := by
        rw [apart, BitVec.and_zero, BitVec.zero_or, BitVec.and_self, poolVersionBits_and_mask]

theorem jobVersion_and_nodeMask (version : BitVec 32) (counter : ℕ) :
    jobVersion version counter &&& nodeVersionBitsMask = version &&& nodeVersionBitsMask := by
  have kept : ~~~elektronPoolVersionBitsMask &&& nodeVersionBitsMask = nodeVersionBitsMask := by decide
  have apart : elektronPoolVersionBitsMask &&& nodeVersionBitsMask = 0#32 := by decide
  calc jobVersion version counter &&& nodeVersionBitsMask
      = (version &&& (~~~elektronPoolVersionBitsMask &&& nodeVersionBitsMask)) |||
          (poolVersionBits counter &&& (elektronPoolVersionBitsMask &&& nodeVersionBitsMask)) := by
        rw [← BitVec.and_assoc, ← BitVec.and_assoc, ← BitVec.and_or_distrib_right]
        rfl
    _ = version &&& nodeVersionBitsMask := by
        rw [kept, apart, BitVec.and_zero, BitVec.or_zero]

/-- What is left of a version without the miner's bits is the node's part and the pool's. -/
theorem and_not_minerMask_eq_iff {v w : BitVec 32} :
    v &&& ~~~minerVersionBitsMask = w &&& ~~~minerVersionBitsMask ↔
      v &&& nodeVersionBitsMask = w &&& nodeVersionBitsMask ∧
        v &&& elektronPoolVersionBitsMask = w &&& elektronPoolVersionBitsMask := by
  constructor
  · intro same
    have node := congrArg (· &&& nodeVersionBitsMask) same
    have pool := congrArg (· &&& elektronPoolVersionBitsMask) same
    simp only [BitVec.and_assoc] at node pool
    exact ⟨node, pool⟩
  · rintro ⟨node, pool⟩
    have parts : ~~~minerVersionBitsMask = nodeVersionBitsMask ||| elektronPoolVersionBitsMask := by decide
    rw [parts, BitVec.and_or_distrib_left, BitVec.and_or_distrib_left, node, pool]

/-! ## The search space of a message -/

/-- What a message fixes of the headers it offers. -/
structure SearchSpace where
  prevHash : Buffer
  coinbase : Buffer
  merkleBranch : List Hash
  version : BitVec 32
  ntime : ℕ
  deriving DecidableEq

namespace Notify

def coinbase (n : Notify) : Buffer := n.coinbasePart1 ++ n.coinbasePart2

def ntime (n : Notify) : ℕ := digitsValue 16 n.timestamp.toList

def searchSpace (n : Notify) : SearchSpace :=
  ⟨n.prevHash, n.coinbase, n.merkleBranch, wordOfHex n.version &&& ~~~minerVersionBitsMask, n.ntime⟩

end Notify

section
variable {P : Packages} {config : StratumConfig}

/-- The coinbase of every job for a template, without witness. -/
def coinbaseOf (P : Packages) (config : StratumConfig) (t : JobTemplate) : Option Buffer := do
  let address ← config.getPoolWalletAddress
  let network ← config.networkOf
  let tx ← coinbaseTransaction P network [⟨address, 100⟩] t
  P.serialize tx

/-- A message for the same block as this dispatch, and for the same second, that was sent at the same
count of its session modulo 16. -/
def SameCount (P : Packages) (config : StratumConfig) (d : Dispatch) (n : Notify) : Prop :=
  n.prevHash = MiningJob.swapEndianWords d.template.block.prevHash.bytes ∧
    some n.coinbase = coinbaseOf P config d.template ∧ n.merkleBranch = d.template.merkleBranch ∧
    Notify.wordOfHex n.version &&& nodeVersionBitsMask = d.template.block.version &&& nodeVersionBitsMask ∧
    n.ntime = d.template.block.timestamp.toNat ∧
    Notify.wordOfHex n.version &&& elektronPoolVersionBitsMask = poolVersionBits (d.session.counterFor d.template)

instance (d : Dispatch) (n : Notify) : Decidable (SameCount P config d n) :=
  inferInstanceAs (Decidable (n.prevHash = MiningJob.swapEndianWords d.template.block.prevHash.bytes ∧
    some n.coinbase = coinbaseOf P config d.template ∧ n.merkleBranch = d.template.merkleBranch ∧
    Notify.wordOfHex n.version &&& nodeVersionBitsMask = d.template.block.version &&& nodeVersionBitsMask ∧
    n.ntime = d.template.block.timestamp.toNat ∧
    Notify.wordOfHex n.version &&& elektronPoolVersionBitsMask = poolVersionBits (d.session.counterFor d.template)))

theorem coinbaseOf_of_newJob {service : JobsService P} {c : Client} {t : JobTemplate} {nowMs : ℤ} {job : MiningJob P}
    (made : Client.newJob P config service (c.versioned t) nowMs = some job) :
    coinbaseOf P config t = some (job.coinbasePart1 ++ job.coinbasePart2) := by
  obtain ⟨address, configured, rest⟩ := Option.bind_eq_some_iff.mp made
  obtain ⟨network, known, built⟩ := Option.bind_eq_some_iff.mp rest
  rw [coinbaseOf, configured, known, ← MiningJob.parts_of_new built]
  rfl

theorem Notify.ntime_toHex (timestamp : ℕ) : digitsValue 16 (toHex timestamp).toList = timestamp := by
  rw [toHex, String.toList_ofList, (digitsValue_toDigits timestamp).1]

/-- **When two messages offer the same headers**: the later one repeats the count of an earlier one in
the same second. -/
theorem searchSpace_response_eq_iff {service : JobsService P} {d : Dispatch} {job : MiningJob P} {n : Notify}
    (made : Client.newJob P config service (d.session.versioned d.template) d.nowMs = some job) :
    n.searchSpace = (job.response (d.session.versioned d.template)).searchSpace ↔ SameCount P config d n := by
  obtain ⟨-, version, -⟩ := describes_of_newJob made ⟨_, _, rfl⟩
  have word : Notify.wordOfHex (job.response (d.session.versioned d.template)).version =
      jobVersion d.template.block.version (d.session.counterFor d.template) := by
    rw [← version]
    exact Notify.wordOfHex_toHex _
  have ntime : (job.response (d.session.versioned d.template)).ntime = d.template.block.timestamp.toNat :=
    Notify.ntime_toHex _
  rw [SameCount, coinbaseOf_of_newJob made, Option.some.injEq, Notify.searchSpace, Notify.searchSpace,
    SearchSpace.mk.injEq, word, ntime, and_not_minerMask_eq_iff, jobVersion_and_nodeMask, jobVersion_and_poolMask]
  constructor
  · rintro ⟨prevHash, coinbase, branch, ⟨node, pool⟩, time⟩
    exact ⟨prevHash, coinbase, branch, node, time, pool⟩
  · rintro ⟨prevHash, coinbase, branch, node, time, pool⟩
    exact ⟨prevHash, coinbase, branch, ⟨node, pool⟩, time⟩

/-! ## Every run -/

/-- No message for the same block and second was sent at the same count before. -/
def FreshCount (config : StratumConfig) (s : World P) (d : Dispatch) : Prop :=
  d.session.connectionClosed = false → ∀ n ∈ s.notifies, ¬ SameCount P config d n

instance (s : World P) (d : Dispatch) : Decidable (FreshCount config s d) :=
  inferInstanceAs (Decidable (d.session.connectionClosed = false → ∀ n ∈ s.notifies, ¬ SameCount P config d n))

/-- The condition on the events of the sessions. -/
def CountsFresh (config : StratumConfig) (p : Server P) (e : Event (Call P) Answer) : Prop :=
  Pool.Allowed (fun _ _ => True) (fun s _ t a => ∀ d ∈ t.dispatch s a, FreshCount config s d) p e

instance (p : Server P) (e : Event (Call P) Answer) : Decidable (CountsFresh config p e) :=
  inferInstanceAs (Decidable (Pool.Allowed (fun _ _ => True)
    (fun s _ t a => ∀ d ∈ t.dispatch s a, FreshCount config s d) p e))

theorem nodup_searchSpace_work {s : World P} {t : Call P} {a : Answer} {q : World P × Call P}
    (nodup : (s.notifies.map Notify.searchSpace).Nodup) (fresh : ∀ d ∈ t.dispatch s a, FreshCount config s d)
    (work : Call.Work config s t a q) : (q.1.notifies.map Notify.searchSpace).Nodup := by
  cases outcome_of_work work with
  | unsent service notifies =>
    rw [notifies]
    exact nodup
  | @sent d job dispatched isOpen made service notifies =>
    rw [(notifies.map Notify.searchSpace).nodup_iff, List.map_cons, List.nodup_cons]
    refine ⟨fun member => ?_, nodup⟩
    obtain ⟨n, sent, same⟩ := List.mem_map.mp member
    exact fresh d dispatched isOpen n sent ((searchSpace_response_eq_iff made).mp same)

theorem nodup_searchSpace_step {p p' : Server P} {e : Event (Call P) Answer}
    (nodup : (p.shared.notifies.map Notify.searchSpace).Nodup) (fresh : CountsFresh config p e)
    (moved : Server.step config p e = some p') : (p'.shared.notifies.map Notify.searchSpace).Nodup := by
  obtain ⟨call, rfl, start, rfl⟩ | ⟨before, call, after, a, s', call', rfl, calls, resumed, rfl⟩ :=
    Pool.step_cases moved
  · exact nodup
  · exact nodup_searchSpace_work nodup (fresh.continues calls) (Call.work_of_resume resumed)

end

end ElektronPool.Stratum
