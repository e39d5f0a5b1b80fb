import ElektronPool.Stratum.BlockFound
import ElektronPool.Stratum.Steps

/-!
# The best difficulties of the addresses

The column `bestDifficulty` of `address_settings`, written beside the sessions. A share that was
accepted raises the value of its address, and a block that the node took sets all values back. The
row of an address is only touched where the share is above the best that its *session* has in memory,
and that one is never set back.

`HighScores` also records the shares that count for an address: those accepted for it since the
last reset, and the one that found the block.
-/

namespace ElektronPool.Stratum
set_option autoImplicit false
open Js Bitcoin Async

/-! ## The table -/

/-- `bestDifficulty` in the rows of `address_settings`, which are told apart by their address. -/
abbrev BestDifficulties := String → Option Number

namespace BestDifficulties

/-- Insert a row unless there is one, then update it where its value is below. -/
def updateBestDifficultyIfHigher (rows : BestDifficulties) (address : String) (bestDifficulty : Number) :
    BestDifficulties :=
  let inserted := Function.update rows address (some ((rows address).getD (.fin 0)))
  Function.update inserted address ((inserted address).map fun best =>
    if best.lt bestDifficulty then bestDifficulty else best)

def resetBestDifficultyAndShares (rows : BestDifficulties) : BestDifficulties :=
  fun address => (rows address).map fun _ => .fin 0

/-- The value of an address. Without a row it is shown as 0. -/
def best (rows : BestDifficulties) (address : String) : Number := (rows address).getD (.fin 0)

variable {rows : BestDifficulties} {address other : String} {d : Number}

theorem best_update_self : (rows.updateBestDifficultyIfHigher address d).best address =
    if (rows.best address).lt d then d else rows.best address := by
  rw [best, updateBestDifficultyIfHigher, Function.update_self, Function.update_self]
  rfl

theorem best_update_of_ne (ne : other ≠ address) :
    (rows.updateBestDifficultyIfHigher address d).best other = rows.best other := by
  simp [best, updateBestDifficultyIfHigher, ne]

@[simp]
theorem best_reset : rows.resetBestDifficultyAndShares.best address = .fin 0 := by
  rw [best, resetBestDifficultyAndShares]
  cases rows address <;> rfl

/-- An update lowers no value. -/
theorem ge_best_update {low : Number} (above : (rows.best other).ge low = true) :
    ((rows.updateBestDifficultyIfHigher address d).best other).ge low = true := by
  by_cases same : other = address
  · subst same
    rw [best_update_self]
    split
    · rename_i below
      exact Number.ge_trans (Number.ge_of_lt below) above
    · exact above
  · rwa [best_update_of_ne same]

/-- An update leaves the value of its own address no lower than the share. -/
theorem ge_best_update_self (value : (rows.best address).ge (rows.best address) = true) (number : d.ge d = true) :
    ((rows.updateBestDifficultyIfHigher address d).best address).ge d = true := by
  rw [best_update_self]
  split
  · exact number
  · rename_i below
    exact Number.ge_of_lt_eq_false value number (Bool.eq_false_of_not_eq_true below)

end BestDifficulties

/-! ## The table beside the sessions -/

/-- An accepted share, the handler it is in and the address it was accepted for. -/
structure Score where
  handler : ℕ
  address : String
  difficulty : Number
  deriving DecidableEq

/-- The table, and of every handler the address of its share and the address of the update it has
called. `counted` is a history: the shares that count. -/
structure HighScores where
  rows : BestDifficulties
  acceptedFor : ℕ → Option String
  argument : ℕ → Option String
  counted : List Score

/-- What the step of a handler is to the table. -/
inductive ScoreEffect where
  | accepted (address : String) (difficulty : Number)
  | called (address : Option String)
  | updated (difficulty : Number)
  | reset (difficulty : Number)
  deriving DecidableEq

namespace Call
variable {P : Packages}

/-- The address a session is authorized for. -/
def authorizedAddress (s : World P) (share : Share P) : Option String :=
  (s.clients[share.client]?.bind (·.clientAuthorization)).map (·.address)

/-- A share is accepted once the miner has its answer. A write is done when it returns, with the
arguments of its call. -/
def scoreEffect (s : World P) : Call P → Answer → Option ScoreEffect
  | .replyWritten share, .written true _ =>
    (authorizedAddress s share).map fun address => .accepted address share.submissionDifficulty
  | .awaiting share .sessionBestDifficulty, .returned .. => some (.called (authorizedAddress s share))
  | .awaiting share .addressBestDifficulty, .returned .. => some (.updated share.submissionDifficulty)
  | .awaiting share .resetBestDifficultyAndShares, .returned .. => some (.reset share.submissionDifficulty)
  | _, _ => none

/-- The share that a handler has in its hands. -/
def share : Call P → Option (Share P)
  | .replyWritten share | .recording share _ _ | .submitting share | .awaiting share _ => some share
  | _ => none

/-- The handlers of a submission. -/
def isSubmission : Call P → Bool
  | .submit .. | .errorWritten .. | .replyWritten _ | .recording .. | .submitting _ | .awaiting .. => true
  | _ => false

end Call

namespace HighScores
variable {P : Packages}

def initial : HighScores := ⟨fun _ => none, fun _ => none, fun _ => none, []⟩

def apply (g : HighScores) (k : ℕ) : ScoreEffect → HighScores
  | .accepted address difficulty =>
    { g with
      acceptedFor := Function.update g.acceptedFor k (some address)
      counted := g.counted ++ [⟨k, address, difficulty⟩] }
  | .called address => { g with argument := Function.update g.argument k address }
  | .updated difficulty =>
    { g with rows := (g.argument k).elim g.rows (g.rows.updateBestDifficultyIfHigher · difficulty) }
  | .reset difficulty =>
    { g with
      rows := g.rows.resetBestDifficultyAndShares
      counted := (g.acceptedFor k).toList.map (⟨k, ·, difficulty⟩) }

/-- The table after an event of the sessions. -/
def record (g : HighScores) (p : Server P) (e : Event (Call P) Answer) (_ : Server P) : HighScores :=
  match e with
  | .start _ => g
  | .resume k a => ((p.calls[k]?).bind (·.scoreEffect p.shared a)).elim g (g.apply k)

/-- The difficulties that count for an address. -/
def difficulties (g : HighScores) (address : String) : List Number :=
  (g.counted.filter (·.address = address)).map (·.difficulty)

/-! ## The condition -/

/-- The score is safe without its own handler: the value of its address is no lower, or the handler
of a score that counts for the address and is no lower is still at work. -/
def Covered (g : HighScores) (p : Server P) (score : Score) : Prop :=
  (g.rows.best score.address).ge score.difficulty = true ∨
    ∃ other ∈ g.counted, other.handler ≠ score.handler ∧ other.address = score.address ∧
      other.difficulty.ge score.difficulty = true ∧ (p.calls[other.handler]?).any (!·.isFinished) = true

/-- The handler does not end here, or it ends with the update of the address its share was accepted
for, or its score is covered. -/
def LosesNone (config : StratumConfig) (g : HighScores) (p : Server P) (k : ℕ) (t : Call P) (a : Answer) : Prop :=
  ∀ score ∈ g.counted, score.handler = k →
    (Call.resume config p.shared t a).any (·.2.isFinished) = true →
      (t.scoreEffect p.shared a = some (.updated score.difficulty) ∧ g.argument k = some score.address) ∨
        g.Covered p score

/-- An update that raises a value is for a share no higher than one that counts for the address. -/
def RevivesNone (g : HighScores) (p : Server P) (k : ℕ) (t : Call P) (a : Answer) : Prop :=
  match t.scoreEffect p.shared a, g.argument k with
  | some (.updated difficulty), some address => (g.rows.best address).lt difficulty = true →
      ∃ score ∈ g.counted, score.address = address ∧ score.difficulty.ge difficulty = true
  | _, _ => True

def KeepsScores (config : StratumConfig) (q : Server P × HighScores) : Event (Call P) Answer → Prop
  | .start _ => True
  | .resume k a => ∀ t ∈ q.1.calls[k]?, q.2.LosesNone config q.1 k t a ∧ q.2.RevivesNone q.1 k t a

instance (g : HighScores) (p : Server P) (score : Score) : Decidable (g.Covered p score) := by
  unfold Covered
  infer_instance

instance (config : StratumConfig) (g : HighScores) (p : Server P) (k : ℕ) (t : Call P) (a : Answer) :
    Decidable (g.LosesNone config p k t a) := by
  unfold LosesNone
  infer_instance

instance (g : HighScores) (p : Server P) (k : ℕ) (t : Call P) (a : Answer) : Decidable (g.RevivesNone p k t a) := by
  unfold RevivesNone
  split <;> infer_instance

instance (config : StratumConfig) (q : Server P × HighScores) : ∀ e, Decidable (KeepsScores config q e)
  | .start _ => inferInstanceAs (Decidable True)
  | .resume k a => inferInstanceAs
      (Decidable (∀ t ∈ q.1.calls[k]?, q.2.LosesNone config q.1 k t a ∧ q.2.RevivesNone q.1 k t a))

/-- The highest of the difficulties, or 0 if there are none. -/
def IsBest (best : Number) (difficulties : List Number) : Prop :=
  if difficulties = [] then best = .fin 0 else best ∈ difficulties ∧ ∀ d ∈ difficulties, best.ge d = true

instance (best : Number) (difficulties : List Number) : Decidable (IsBest best difficulties) := by
  unfold IsBest
  infer_instance

end HighScores

/-! ## What a handler does with its share -/

namespace Call
variable {P : Packages} {config : StratumConfig} {s s' : World P} {share : Share P} {t t' : Call P} {a : Answer}

/-- The handler has ended, or it goes on with the share. -/
def Holds (share : Share P) (t : Call P) : Prop := t.isFinished = true ∨ t.share = some share

theorem share_of_finished (finished : t.isFinished = true) : t.share = none := by
  cases t with
  | returned | rejected => rfl
  | _ => cases finished

theorem holds_awaiting (share : Share P) (step : Step) : Holds share (.awaiting share step) := .inr rfl

theorem holds_checkBlock (s : World P) (share : Share P) : Holds share (checkBlock s share).2 := by
  unfold checkBlock
  split
  · dsimp only
    split
    · exact .inl rfl
    · exact .inr rfl
  · exact holds_awaiting ..

theorem holds_checkBest (s : World P) (share : Share P) : Holds share (checkBest s share).2 := by
  unfold checkBest
  split
  · exact .inl rfl
  · split
    · exact holds_awaiting ..
    · exact .inl rfl

theorem holds_checkHeartbeat (s : World P) (share : Share P) (now : ℤ) : Holds share (checkHeartbeat s share now).2 := by
  unfold checkHeartbeat
  split
  · exact holds_checkBest ..
  · split
    · exact holds_awaiting ..
    · exact holds_checkBest ..

theorem holds_afterDiscord (config : StratumConfig) (share : Share P) : Holds share (afterDiscord config share) := by
  unfold afterDiscord
  split <;> exact holds_awaiting ..

theorem holds_afterStep (config : StratumConfig) (s : World P) (share : Share P) (nowMs : ℤ) (step : Step) :
    Holds share (afterStep config s share nowMs step).2 := by
  cases step with
  | save =>
    simp only [afterStep]
    split
    · exact holds_awaiting ..
    · exact holds_afterDiscord ..
  | discordChannel => exact holds_afterDiscord ..
  | telegramMessage pending =>
    obtain _ | _ | pending := pending
    all_goals exact holds_awaiting ..
  | addShares => exact holds_checkHeartbeat ..
  | heartbeat => exact holds_checkBest ..
  | addressBestDifficulty => exact .inl rfl
  | _ => exact holds_awaiting ..

theorem holds_afterThrow (s : World P) (share : Share P) (step : Step) : Holds share (afterThrow s share step).2 := by
  cases step with
  | processBlockFound => exact holds_awaiting ..
  | addShares | heartbeat => exact holds_checkBest ..
  | _ => exact .inl rfl

/-- A handler keeps its share until it ends. -/
theorem ShareBranch.holds {r : World P × Call P} (branch : ShareBranch config s t a r) (held : t.share = some share) :
    Holds share r.2 := by
  cases branch with
  | judged => cases held
  | errorWritten => cases held
  | errorFailed => cases held
  | unauthorized =>
    cases held
    exact holds_checkBlock ..
  | authorized =>
    cases held
    exact .inr rfl
  | replyFailed => exact .inl rfl
  | recorded | recordFailed =>
    cases held
    exact holds_checkBlock ..
  | submitted | subscribers =>
    cases held
    exact holds_awaiting ..
  | returned =>
    cases held
    exact holds_afterStep ..
  | threw =>
    cases held
    exact holds_afterThrow ..

theorem share_send (s : World P) (i : ℕ) (c : Client) (template : JobTemplate) (nowMs : ℤ) (ends : Bool) :
    (send config s i c template nowMs ends).2.share = none := by
  obtain ⟨-, sent⟩ | ⟨-, sent⟩ | ⟨job, -, -, sent⟩ := send_cases config s i c template nowMs ends <;> rw [sent] <;> rfl

/-- Work is no share. -/
theorem WorkBranch.share_eq {r : World P × Call P} (branch : WorkBranch config s t a r) :
    t.share = none ∧ r.2.share = none := by
  cases branch with
  | refreshed =>
    refine ⟨rfl, ?_⟩
    unfold Call.refreshed
    split
    · rfl
    · exact share_send ..
  | difficultyBuilt =>
    refine ⟨rfl, ?_⟩
    unfold Call.difficultyBuilt
    split
    · rfl
    · exact share_send ..
  | localWork | difficulty => exact ⟨rfl, share_send ..⟩
  | _ => exact ⟨rfl, rfl⟩

/-- A handler comes to a share by accepting it, and then it is about to answer the miner. -/
theorem ShareBranch.accepts {r : World P × Call P} (branch : ShareBranch config s t a r) (none : t.share = none)
    (held : r.2.share = some share) : (Number.fin 0).lt share.submissionDifficulty = true := by
  cases branch with
  | judged m nowMs at_i =>
    rename_i i c
    generalize handled : handleMiningSubmission s.service i c m = verdict at held
    obtain ⟨c', refused | threw | accepted⟩ := verdict
    · cases held
    · cases held
    · cases held
      obtain ⟨job, template, header, -, -, -, -, -, rfl⟩ := accepted_of_handleMiningSubmission handled
      exact submissionDifficulty_pos _
  | errorWritten | errorFailed => cases held
  | _ => cases none

/-- What is known of the share in the hands of a handler after a step. -/
theorem share_of_resume (resumed : resume config s t a = some (s', t')) (held : t'.share = some share) :
    t.share = some share ∨ (Number.fin 0).lt share.submissionDifficulty = true := by
  rw [resume, Option.or_eq_some_iff] at resumed
  obtain work | ⟨-, shared⟩ := resumed
  · have none := (workBranch_of_resumeWork work).share_eq.2
    rw [held] at none
    cases none
  · have branch := shareBranch_of_resumeShare shared
    cases before : t.share with
    | none => exact .inr (branch.accepts before held)
    | some earlier =>
      obtain finished | same := branch.holds before
      · rw [share_of_finished finished] at held
        cases held
      · exact .inl (same.symm.trans held)

/-- A handler keeps its share until it ends, and is not resumed then. -/
theorem holds_of_resume (holds : Holds share t) (resumed : resume config s t a = some (s', t')) : Holds share t' := by
  obtain finished | held := holds
  · cases t with
    | returned | rejected => cases resumed
    | _ => cases finished
  · rw [resume, Option.or_eq_some_iff] at resumed
    obtain work | ⟨-, shared⟩ := resumed
    · have none := (workBranch_of_resumeWork work).share_eq.1
      rw [held] at none
      cases none
    · exact (shareBranch_of_resumeShare shared).holds held

/-! ## Effects -/

/-- The effects on the table, with the handler before the step and behind it. -/
inductive EffectBranch (s : World P) : Call P → ScoreEffect → Call P → Prop
  | accepted {share : Share P} {address : String} (timestamp : ℤ) :
      EffectBranch s (.replyWritten share) (.accepted address share.submissionDifficulty)
        (.recording share address timestamp)
  | called (share : Share P) :
      EffectBranch s (.awaiting share .sessionBestDifficulty) (.called (authorizedAddress s share))
        (.awaiting share .addressBestDifficulty)
  | updated (share : Share P) :
      EffectBranch s (.awaiting share .addressBestDifficulty) (.updated share.submissionDifficulty) .returned
  | reset (share : Share P) :
      EffectBranch s (.awaiting share .resetBestDifficultyAndShares) (.reset share.submissionDifficulty)
        (.awaiting share .reportBlockFound)

theorem afterStep_of_resume {step step' : Step} {nowMs : ℤ}
    (resumed : resume config s (.awaiting share step) (.returned step' nowMs) = some (s', t')) :
    (s', t') = afterStep config s share nowMs step := by
  obtain ⟨_, same, -, result⟩ | ⟨threw, -⟩ | ⟨_, many, -⟩ := resume_awaiting_eq_some resumed
  · cases same
    exact result
  · cases threw
  · cases many

theorem effectBranch_of_resume {effect : ScoreEffect} (has : t.scoreEffect s a = some effect)
    (resumed : resume config s t a = some (s', t')) : EffectBranch s t effect t' := by
  unfold scoreEffect at has
  split at has
  · rename_i share nowMs
    obtain ⟨address, authorized, rfl⟩ := Option.map_eq_some_iff.mp has
    obtain ⟨authorization, found, rfl⟩ := Option.map_eq_some_iff.mp authorized
    have shared : resumeShare config s (.replyWritten share) (.written true nowMs) = some (s', t') := resumed
    simp only [resumeShare, found] at shared
    split at shared
    · cases shared
      exact .accepted nowMs
    · cases shared
  · cases has
    cases afterStep_of_resume resumed
    exact .called _
  · cases has
    cases afterStep_of_resume resumed
    exact .updated _
  · cases has
    cases afterStep_of_resume resumed
    exact .reset _
  · cases has

/-- Where nothing throws, a handler ends without an update only behind a share that is not above the
best its session has in memory. -/
theorem lt_eq_false_of_finished {step : Step} {nowMs : ℤ} (other : step ≠ .addressBestDifficulty)
    (resumed : resume config s (.awaiting share step) (.returned step nowMs) = some (s', t'))
    (finished : t'.isFinished = true) : ∀ entity ∈ entityOf s share,
      entity.bestDifficulty.lt share.submissionDifficulty = false := by
  have result := afterStep_of_resume resumed
  have compared : ∀ w : World P, t' = (checkBest w share).2 → ∀ entity ∈ entityOf w share,
      entity.bestDifficulty.lt share.submissionDifficulty = false := by
    intro w same entity found
    rw [same, checkBest, Option.mem_def.mp found] at finished
    dsimp only at finished
    split at finished
    · cases finished
    · exact Bool.eq_false_of_not_eq_true ‹_›
  intro entity found
  cases step with
  | addShares =>
    have same : t' = (checkHeartbeat s share nowMs).2 := congrArg Prod.snd result
    unfold checkHeartbeat at same
    split at same
    · exact compared s same entity found
    · split at same
      · rw [same] at finished
        cases finished
      · exact compared s same entity found
  | heartbeat now =>
    refine compared (updateEntity s share fun e => { e with updatedAt := some now }) (congrArg Prod.snd result)
      { entity with updatedAt := some now } ?_
    obtain ⟨c, at_c, same⟩ := Option.bind_eq_some_iff.mp (Option.mem_def.mp found)
    rw [entityOf, updateEntity, World.updateClient, List.getElem?_modify_eq, at_c]
    show c.entity.map _ = _
    rw [same]
    rfl
  | save =>
    have same : t' = _ := congrArg Prod.snd result
    simp only [afterStep, afterDiscord] at same
    rw [same] at finished
    split at finished
    · cases finished
    · split at finished <;> cases finished
  | discordChannel =>
    have same : t' = afterDiscord config share := congrArg Prod.snd result
    rw [same, afterDiscord] at finished
    split at finished <;> cases finished
  | telegramMessage pending =>
    obtain _ | _ | pending := pending
    all_goals
      cases result
      cases finished
  | addressBestDifficulty => exact absurd rfl other
  | _ =>
    cases result
    cases finished

end Call

/-! ## The invariant -/

namespace HighScores
variable {P : Packages} {config : StratumConfig} {p : Server P} {g g' : HighScores} {s' : World P} {t t' : Call P}
  {a : Answer} {k : ℕ}

/-- A score that counts is above zero and has its handler. -/
structure Linked (p : Server P) (score : Score) : Prop where
  positive : (Number.fin 0).lt score.difficulty = true
  handler : ∃ t share, p.calls[score.handler]? = some t ∧ t.Holds share

/-- The value is no lower than the score, or the handler of a score for the same address that is no
lower is still at work. -/
def Kept (p : Server P) (g : HighScores) (score : Score) : Prop :=
  (g.rows.best score.address).ge score.difficulty = true ∨
    ∃ other ∈ g.counted, other.address = score.address ∧ other.difficulty.ge score.difficulty = true ∧
      (p.calls[other.handler]?).any (!·.isFinished) = true

structure Scored (p : Server P) (g : HighScores) : Prop where
  positive : ∀ t ∈ p.calls, ∀ share, t.share = some share → (Number.fin 0).lt share.submissionDifficulty = true
  linked : ∀ score ∈ g.counted, Linked p score
  kept : ∀ score ∈ g.counted, Kept p g score
  sound : ∀ address, g.rows.best address = .fin 0 ∨
    ∃ score ∈ g.counted, score.address = address ∧ score.difficulty.ge (g.rows.best address) = true

theorem calls_self (at_k : p.calls[k]? = some t) : (p.calls.set k t')[k]? = some t' := by
  obtain ⟨bound, -⟩ := List.getElem?_eq_some_iff.mp at_k
  exact List.getElem?_set_self bound

theorem positive_of_resume (scored : Scored p g) (at_k : p.calls[k]? = some t)
    (resumed : Call.resume config p.shared t a = some (s', t')) : ∀ u ∈ p.calls.set k t', ∀ share,
      u.share = some share → (Number.fin 0).lt share.submissionDifficulty = true := by
  intro u member share held
  obtain old | rfl := List.mem_or_eq_of_mem_set member
  · exact scored.positive u old share held
  · obtain before | positive := Call.share_of_resume resumed held
    · exact scored.positive t (List.mem_of_getElem? at_k) share before
    · exact positive

theorem Linked.resume {score : Score} (linked : Linked p score) (at_k : p.calls[k]? = some t)
    (resumed : Call.resume config p.shared t a = some (s', t')) : Linked ⟨s', p.calls.set k t'⟩ score := by
  obtain ⟨positive, u, share, at_h, holds⟩ := linked
  refine ⟨positive, ?_⟩
  by_cases same : score.handler = k
  · rw [same, at_k] at at_h
    cases at_h
    exact ⟨t', share, by rw [same, calls_self at_k], Call.holds_of_resume holds resumed⟩
  · exact ⟨u, share, by rw [List.getElem?_set_ne (Ne.symm same), at_h], holds⟩

/-- A handler goes on, and the values rise or stay. The scores that only it could still raise a
value for are safe if it ends. -/
theorem Scored.resume (scored : Scored p g) (at_k : p.calls[k]? = some t)
    (resumed : Call.resume config p.shared t a = some (s', t')) (counted : g'.counted = g.counted)
    (rises : ∀ address d, (g.rows.best address).ge d = true → (g'.rows.best address).ge d = true)
    (sound : ∀ address, g'.rows.best address = .fin 0 ∨
      ∃ score ∈ g.counted, score.address = address ∧ score.difficulty.ge (g'.rows.best address) = true)
    (safe : ∀ score ∈ g.counted, score.handler = k → t'.isFinished = true →
      (g'.rows.best score.address).ge score.difficulty = true ∨ g.Covered p score) :
    Scored ⟨s', p.calls.set k t'⟩ g' where
  positive := positive_of_resume scored at_k resumed
  linked := by
    rw [counted]
    exact fun score counts => (scored.linked score counts).resume at_k resumed
  sound := by
    rw [counted]
    exact sound
  kept := by
    have elsewhere : ∀ other ∈ g.counted, other.handler ≠ k → ∀ score : Score, other.address = score.address →
        other.difficulty.ge score.difficulty = true → (p.calls[other.handler]?).any (!·.isFinished) = true →
        Kept ⟨s', p.calls.set k t'⟩ g' score := by
      intro other counts ne score same above working
      refine .inr ⟨other, counted ▸ counts, same, above, ?_⟩
      rwa [List.getElem?_set_ne (Ne.symm ne)]
    rw [counted]
    intro score counts
    obtain high | ⟨other, others, same, above, working⟩ := scored.kept score counts
    · exact .inl (rises _ _ high)
    · by_cases own : other.handler = k
      · cases finished : t'.isFinished with
        | true =>
          obtain high | high | ⟨third, thirds, ne, same', above', working'⟩ := safe other others own finished
          · exact .inl (same ▸ Number.ge_trans high above)
          · exact .inl (same ▸ Number.ge_trans (rises _ _ high) above)
          · exact elsewhere third thirds (own ▸ ne) score (same'.trans same) (Number.ge_trans above' above) working'
        | false =>
          refine .inr ⟨other, counted ▸ others, same, above, ?_⟩
          rw [own, calls_self at_k, Option.any_some, finished]
          rfl
      · exact elsewhere other others own score same above working

/-! ## One step -/

/-- A step that is nothing to the values. -/
theorem Scored.resume_same (scored : Scored p g) (at_k : p.calls[k]? = some t)
    (resumed : Call.resume config p.shared t a = some (s', t')) (counted : g'.counted = g.counted)
    (rows : g'.rows = g.rows) (loses : g.LosesNone config p k t a)
    (no_update : ∀ d, t.scoreEffect p.shared a ≠ some (.updated d)) : Scored ⟨s', p.calls.set k t'⟩ g' := by
  refine scored.resume at_k resumed counted ?_ ?_ ?_
  · rw [rows]
    exact fun _ _ high => high
  · rw [rows]
    exact scored.sound
  · intro score counts own finished
    obtain ⟨update, -⟩ | covered := loses score counts own (by rw [resumed]; exact finished)
    · exact absurd update (no_update _)
    · exact .inr covered

/-- The update of an address. -/
theorem Scored.updated {share : Share P} (scored : Scored p g) (at_k : p.calls[k]? = some t)
    (resumed : Call.resume config p.shared t a = some (s', t')) (held : t.share = some share)
    (effect : t.scoreEffect p.shared a = some (.updated share.submissionDifficulty))
    (loses : g.LosesNone config p k t a) (revives : g.RevivesNone p k t a) :
    Scored ⟨s', p.calls.set k t'⟩ (g.apply k (.updated share.submissionDifficulty)) := by
  have positive := scored.positive t (List.mem_of_getElem? at_k) share held
  have number := (Number.ge_self_of_lt positive).2
  have value : ∀ address, (g.rows.best address).ge (g.rows.best address) = true := by
    intro address
    obtain zero | ⟨score, -, -, above⟩ := scored.sound address
    · rw [zero]
      rfl
    · exact (Number.ge_self_of_ge above).2
  cases argument : g.argument k with
  | none =>
    have same : g.apply k (.updated share.submissionDifficulty) = g := by
      rw [apply, argument]
      rfl
    rw [same]
    refine scored.resume at_k resumed rfl (fun _ _ high => high) scored.sound ?_
    intro score counts own finished
    obtain ⟨-, other⟩ | covered := loses score counts own (by rw [resumed]; exact finished)
    · rw [argument] at other
      cases other
    · exact .inr covered
  | some address =>
    have rows : (g.apply k (.updated share.submissionDifficulty)).rows =
        g.rows.updateBestDifficultyIfHigher address share.submissionDifficulty := by
      rw [apply, argument]
      rfl
    refine scored.resume at_k resumed rfl ?_ ?_ ?_
    · rw [rows]
      exact fun _ _ high => BestDifficulties.ge_best_update high
    · rw [rows]
      intro other
      by_cases same : other = address
      · subst same
        rw [BestDifficulties.best_update_self]
        split
        · rename_i below
          rw [RevivesNone, effect, argument] at revives
          exact .inr (revives below)
        · exact scored.sound other
      · rw [BestDifficulties.best_update_of_ne same]
        exact scored.sound other
    · intro score counts own finished
      obtain ⟨update, mine⟩ | covered := loses score counts own (by rw [resumed]; exact finished)
      · rw [effect] at update
        rw [argument] at mine
        cases mine
        rw [rows, ← ScoreEffect.updated.inj (Option.some.inj update)]
        exact .inl (BestDifficulties.ge_best_update_self (value _) number)
      · exact .inr covered

/-- A share that has just been accepted counts, and its handler is at work. -/
theorem Scored.accepted {share : Share P} {address : String} {timestamp : ℤ} (scored : Scored p g)
    (at_k : p.calls[k]? = some (.replyWritten share))
    (resumed : Call.resume config p.shared (.replyWritten share) a = some (s', .recording share address timestamp)) :
    Scored ⟨s', p.calls.set k (.recording share address timestamp)⟩
      (g.apply k (.accepted address share.submissionDifficulty)) := by
  have positive := scored.positive _ (List.mem_of_getElem? at_k) share rfl
  have self : (p.calls.set k (.recording share address timestamp))[k]? = some (.recording share address timestamp) :=
    calls_self at_k
  have grown : ∀ {q : Score → Prop}, (∃ score ∈ g.counted, q score) →
      ∃ score ∈ g.counted ++ [⟨k, address, share.submissionDifficulty⟩], q score := by
    rintro q ⟨score, counts, holds⟩
    exact ⟨score, List.mem_append_left _ counts, holds⟩
  have before : Scored ⟨s', p.calls.set k (.recording share address timestamp)⟩ g :=
    scored.resume at_k resumed rfl (fun _ _ high => high) scored.sound fun _ _ _ => nofun
  refine ⟨before.positive, ?_, ?_, ?_⟩
  · intro score counts
    obtain old | new := List.mem_append.mp counts
    · exact before.linked score old
    · cases List.mem_singleton.mp new
      exact ⟨positive, _, share, self, .inr rfl⟩
  · intro score counts
    obtain old | new := List.mem_append.mp counts
    · exact (before.kept score old).imp_right grown
    · cases List.mem_singleton.mp new
      refine .inr ⟨_, counts, rfl, (Number.ge_self_of_lt positive).2, ?_⟩
      rw [self]
      rfl
  · exact fun other => (before.sound other).imp_right grown

/-- The block that was found counts alone. -/
theorem Scored.reset {share : Share P} (scored : Scored p g)
    (at_k : p.calls[k]? = some (.awaiting share .resetBestDifficultyAndShares))
    (resumed : Call.resume config p.shared (.awaiting share .resetBestDifficultyAndShares) a =
      some (s', .awaiting share .reportBlockFound)) :
    Scored ⟨s', p.calls.set k (.awaiting share .reportBlockFound)⟩
      (g.apply k (.reset share.submissionDifficulty)) := by
  have positive := scored.positive _ (List.mem_of_getElem? at_k) share rfl
  have self : (p.calls.set k (.awaiting share .reportBlockFound))[k]? = some (.awaiting share .reportBlockFound) :=
    calls_self at_k
  have finder : ∀ score ∈ (g.apply k (.reset share.submissionDifficulty)).counted,
      score = ⟨k, score.address, share.submissionDifficulty⟩ := by
    intro score counts
    obtain ⟨address, -, rfl⟩ := List.mem_map.mp counts
    rfl
  refine ⟨positive_of_resume scored at_k resumed, ?_, ?_, fun _ => .inl BestDifficulties.best_reset⟩
  · intro score counts
    rw [finder score counts]
    exact ⟨positive, _, share, self, Call.holds_awaiting ..⟩
  · intro score counts
    have same := finder score counts
    rw [same] at counts ⊢
    refine .inr ⟨_, counts, rfl, (Number.ge_self_of_lt positive).2, ?_⟩
    rw [self]
    rfl

theorem Scored.start (scored : Scored p g) (begins : t.share = none) : Scored ⟨p.shared, p.calls ++ [t]⟩ g := by
  have there : ∀ {h : ℕ} {u : Call P}, p.calls[h]? = some u → (p.calls ++ [t])[h]? = some u := by
    intro h u at_h
    rw [List.getElem?_append_left (List.getElem?_eq_some_iff.mp at_h).1, at_h]
  refine ⟨?_, ?_, ?_, scored.sound⟩
  · intro u member share held
    obtain old | new := List.mem_append.mp member
    · exact scored.positive u old share held
    · rw [List.mem_singleton.mp new, begins] at held
      cases held
  · intro score counts
    obtain ⟨positive, u, share, at_h, holds⟩ := scored.linked score counts
    exact ⟨positive, u, share, there at_h, holds⟩
  · intro score counts
    refine (scored.kept score counts).imp_right ?_
    rintro ⟨other, others, same, above, working⟩
    refine ⟨other, others, same, above, ?_⟩
    cases at_h : p.calls[other.handler]? with
    | none =>
      rw [at_h] at working
      cases working
    | some u =>
      rw [at_h] at working
      rw [there at_h]
      exact working

/-- **One event** that meets the condition keeps the invariant. -/
theorem Scored.step {p' : Server P} {e : Event (Call P) Answer} (scored : Scored p g)
    (keeps : KeepsScores config (p, g) e) (moved : Server.step config p e = some p') : Scored p' (g.record p e p') := by
  cases e with
  | start t =>
    obtain ⟨begins, rfl⟩ := Pool.start_cases moved
    refine scored.start ?_
    cases t with
    | replyWritten | recording | submitting | awaiting => cases begins
    | _ => rfl
  | resume k a =>
    obtain ⟨t, s', t', at_k, resumed, rfl⟩ := Pool.resume_cases moved
    obtain ⟨loses, revives⟩ := keeps t at_k
    have recorded : g.record p (.resume k a) ⟨s', p.calls.set k t'⟩ =
        (t.scoreEffect p.shared a).elim g (g.apply k) := by
      rw [record, at_k]
      rfl
    rw [recorded]
    cases has : t.scoreEffect p.shared a with
    | none =>
      refine scored.resume_same at_k resumed rfl rfl loses ?_
      rw [has]
      exact fun _ => nofun
    | some effect =>
      cases Call.effectBranch_of_resume has resumed with
      | accepted timestamp => exact scored.accepted at_k resumed
      | called share =>
        refine scored.resume_same at_k resumed rfl rfl loses ?_
        rw [has]
        exact fun _ => nofun
      | updated share => exact scored.updated at_k resumed rfl has loses revives
      | reset share => exact scored.reset at_k resumed

theorem scored_initial : Scored (.initial P) initial where
  positive := fun _ member => absurd member List.not_mem_nil
  linked := fun _ counts => absurd counts List.not_mem_nil
  kept := fun _ counts => absurd counts List.not_mem_nil
  sound := fun _ => .inl rfl

/-- With no submission in progress, the value of an address is the highest that counts. -/
theorem Scored.isBest (scored : Scored p g) (quiet : ∀ t ∈ p.calls, t.isSubmission = false) (address : String) :
    IsBest (g.rows.best address) (g.difficulties address) := by
  have high : ∀ score ∈ g.counted, (g.rows.best score.address).ge score.difficulty = true := by
    intro score counts
    obtain high | ⟨other, others, -, -, working⟩ := scored.kept score counts
    · exact high
    · obtain ⟨t, share, at_h, finished | held⟩ := (scored.linked other others).handler
      · simp [at_h, finished] at working
      · have resting := quiet t (List.mem_of_getElem? at_h)
        cases t with
        | replyWritten | recording | submitting | awaiting => cases resting
        | _ => cases held
  have counts : ∀ d, d ∈ g.difficulties address ↔ ∃ score ∈ g.counted, score.address = address ∧ score.difficulty = d := by
    intro d
    simp only [difficulties, List.mem_map, List.mem_filter, decide_eq_true_eq, and_assoc]
  have above : ∀ d ∈ g.difficulties address, (g.rows.best address).ge d = true := by
    intro d member
    obtain ⟨score, counted, rfl, rfl⟩ := (counts d).mp member
    exact high score counted
  unfold IsBest
  split
  · rename_i none
    obtain zero | ⟨score, counted, same, -⟩ := scored.sound address
    · exact zero
    · have member := (counts _).mpr ⟨score, counted, same, rfl⟩
      rw [none] at member
      cases member
  · rename_i some
    refine ⟨?_, above⟩
    obtain zero | ⟨score, counted, rfl, reached⟩ := scored.sound address
    · -- a share that counts is above zero
      obtain ⟨d, member⟩ := List.exists_mem_of_ne_nil _ some
      obtain ⟨score, counted, rfl, rfl⟩ := (counts d).mp member
      have reached := high score counted
      rw [zero, Number.ge_eq_false_of_lt (scored.linked score counted).positive] at reached
      cases reached
    · exact (counts _).mpr ⟨score, counted, rfl, Number.ge_antisymm reached (high score counted)⟩

end HighScores

namespace Regtest

/-- The first session submits the nonce as handler `k`, and the node takes the block. -/
def block (k : ℕ) (nonce : String) (nowMs : ℤ) (rest : List Answer) : List (Event (Call packages) Answer) :=
  let answers : List Answer := [.ran nowMs, .written true nowMs, .recorded true, .submitted "SUCCESS!"] ++ rest
  .start (.submit 0 (submission nonce)) :: answers.map (.resume k ·)

/-- Every await behind a block up to the session's best, less than a minute after the last one. -/
def soonReturn (nowMs : ℤ) : List Answer :=
  [.returned .save nowMs, .subscribers 0, .returned .resetBestDifficultyAndShares nowMs,
    .returned .reportBlockFound nowMs, .returned .processBlockFound nowMs, .returned .ensureClientEntity nowMs,
    .returned .addShares nowMs]

end Regtest

namespace HighScores

/-- No call fails. -/
def NothingFails {P : Packages} (_ : Server P × HighScores) : Event (Call P) Answer → Prop
  | .resume _ (.threw _) | .resume _ (.recorded false) | .resume _ (.written false _) | .resume _ .rpcFailed => False
  | _ => True

instance {P : Packages} (q : Server P × HighScores) (e : Event (Call P) Answer) : Decidable (NothingFails q e) := by
  unfold NothingFails
  split <;> infer_instance

end HighScores

end ElektronPool.Stratum
