import ElektronPool.Stratum.System

/-!
# What one step of a handler can do

`WorkBranch` and `ShareBranch` list the branches of the two resumption functions, with their
guards, so that no other proof takes these functions apart. Most steps are quiet: they leave
the job store and the work of every client alone (`World.Quiet`). `WorkStep` lists the steps
that send work, `ShareStep` those that concern a share; both name the functions of the source
the step runs through, and invariants are proved about these functions.
-/

namespace ElektronPool.Stratum
set_option autoImplicit false
open Js Bitcoin Async

/-! ## Quiet steps -/

/-- What a client may go through without new work: it may lose its socket and its template, and
gain duplicate keys. -/
structure Client.Quiet (c c' : Client) : Prop where
  notified : c'.notified = c.notified
  template : c'.currentJobTemplate = c.currentJobTemplate ∨ c'.currentJobTemplate = none
  closed : c.connectionClosed = true → c'.connectionClosed = true
  keys : c.miningSubmissionHashes ⊆ c'.miningSubmissionHashes

theorem Client.Quiet.refl (c : Client) : c.Quiet c := ⟨rfl, .inl rfl, id, List.Subset.refl _⟩

theorem Client.quiet_destroy (c : Client) : c.Quiet c.destroy := ⟨rfl, .inr rfl, fun _ => rfl, List.Subset.refl _⟩

theorem Client.quiet_endSocket (c : Client) (ends : Bool) : c.Quiet (c.endSocket ends) :=
  ⟨rfl, .inl rfl, fun closed => by simp [endSocket, closed], List.Subset.refl _⟩

/-- A step that changes neither the store nor the history of shares, and no client's work. -/
structure World.Quiet {P : Packages} (s s' : World P) : Prop where
  service : s'.service = s.service
  accepted : s'.accepted = s.accepted
  shareLog : s'.shareLog = s.shareLog
  clients : List.Forall₂ Client.Quiet s.clients s'.clients

/-- What each session is authorized for. -/
def World.authorizations {P : Packages} (s : World P) : List (Option Authorization) :=
  s.clients.map (·.clientAuthorization)

/-- A quiet step that authorizes nobody, as all of the handling of a share are that record none. -/
structure World.Handled {P : Packages} (s s' : World P) : Prop extends s.Quiet s' where
  authorizations : s'.authorizations = s.authorizations

theorem forall₂_set {α : Type*} {R : α → α → Prop} (refl : ∀ a, R a a) {l : List α} {i : ℕ} {a b : α}
    (at_i : l[i]? = some a) (related : R a b) : List.Forall₂ R l (l.set i b) := by
  induction l generalizing i with
  | nil => cases at_i
  | cons head tail ih =>
    cases i with
    | zero =>
      cases at_i
      exact .cons related (List.forall₂_same.mpr fun x _ => refl x)
    | succ i => exact .cons (refl head) (ih at_i)

theorem forall₂_modify {α : Type*} {R : α → α → Prop} (refl : ∀ a, R a a) {f : α → α} (related : ∀ a, R a (f a))
    {l : List α} {i : ℕ} : List.Forall₂ R l (l.modify i f) := by
  induction l generalizing i with
  | nil =>
    rw [List.modify_nil]
    exact .nil
  | cons head tail ih =>
    cases i with
    | zero => exact .cons (related head) (List.forall₂_same.mpr fun x _ => refl x)
    | succ i => exact .cons (refl head) ih

section
variable {P : Packages} {config : StratumConfig} {s s' : World P} {i : ℕ} {c c' : Client} {t t' : Call P} {a : Answer}
  {share : Share P}

theorem World.Quiet.refl (s : World P) : s.Quiet s :=
  ⟨rfl, rfl, rfl, List.forall₂_same.mpr fun c _ => Client.Quiet.refl c⟩

theorem Client.Quiet.trans {c c' c'' : Client} (first : c.Quiet c') (second : c'.Quiet c'') : c.Quiet c'' where
  notified := second.notified.trans first.notified
  template := by
    obtain same | lost := second.template
    · rw [same]
      exact first.template
    · exact .inr lost
  closed closed := second.closed (first.closed closed)
  keys := List.Subset.trans first.keys second.keys

theorem World.Quiet.trans {s s' s'' : World P} (first : s.Quiet s') (second : s'.Quiet s'') : s.Quiet s'' where
  service := second.service.trans first.service
  accepted := second.accepted.trans first.accepted
  shareLog := second.shareLog.trans first.shareLog
  clients := by
    have all := first.clients
    generalize s.clients = l at all
    have later := second.clients
    generalize s'.clients = l', s''.clients = l'' at all later
    induction all generalizing l'' with
    | nil =>
      cases later
      exact .nil
    | cons related _ ih =>
      cases later with
      | cons next rest => exact .cons (related.trans next) (ih _ rest)

theorem World.quiet_setClient (at_i : s.clients[i]? = some c) (quiet : c.Quiet c') : s.Quiet (s.setClient i c') :=
  ⟨rfl, rfl, rfl, forall₂_set Client.Quiet.refl at_i quiet⟩

theorem World.quiet_updateClient {f : Client → Client} (quiet : ∀ c, Client.Quiet c (f c)) :
    s.Quiet (s.updateClient i f) :=
  ⟨rfl, rfl, rfl, forall₂_modify Client.Quiet.refl quiet⟩

/-- What does not change in one client changes in none. -/
theorem World.map_setClient {γ : Type*} {f : Client → γ} (at_i : s.clients[i]? = some c) (same : f c' = f c) :
    (s.setClient i c').clients.map f = s.clients.map f := by
  apply List.ext_getElem?
  intro j
  simp only [setClient, List.getElem?_map, List.getElem?_set]
  split
  · rename_i here
    subst here
    obtain ⟨bound, -⟩ := List.getElem?_eq_some_iff.mp at_i
    simp only [bound, if_true, at_i, Option.map_some, same]
  · rfl

theorem World.map_updateClient {γ : Type*} {f : Client → γ} {g : Client → Client} (same : ∀ c, f (g c) = f c) :
    (s.updateClient i g).clients.map f = s.clients.map f := by
  apply List.ext_getElem?
  intro j
  simp only [updateClient, List.getElem?_map, List.getElem?_modify]
  cases s.clients[j]? with
  | none => rfl
  | some d =>
    split
    · exact congrArg some (same d)
    · rfl

theorem World.authorizations_setClient (at_i : s.clients[i]? = some c)
    (same : c'.clientAuthorization = c.clientAuthorization) : (s.setClient i c').authorizations = s.authorizations :=
  map_setClient at_i same

theorem World.authorizations_updateClient {f : Client → Client}
    (same : ∀ c, (f c).clientAuthorization = c.clientAuthorization) :
    (s.updateClient i f).authorizations = s.authorizations :=
  map_updateClient same

theorem World.Handled.refl (s : World P) : s.Handled s := ⟨.refl s, rfl⟩

theorem World.Handled.trans {s s' s'' : World P} (first : s.Handled s') (second : s'.Handled s'') : s.Handled s'' :=
  ⟨first.toQuiet.trans second.toQuiet, second.authorizations.trans first.authorizations⟩

theorem World.handled_updateClient {f : Client → Client} (quiet : ∀ c, Client.Quiet c (f c))
    (same : ∀ c, (f c).clientAuthorization = c.clientAuthorization) : s.Handled (s.updateClient i f) :=
  ⟨quiet_updateClient quiet, authorizations_updateClient same⟩

namespace Call

/-- What `send` can do: nothing on a closed socket, no job, or one new job in the store and one
message to the client. -/
theorem send_cases (config : StratumConfig) (s : World P) (i : ℕ) (c : Client) (t : JobTemplate) (nowMs : ℤ)
    (ends : Bool) :
    (c.connectionClosed = true ∧ send config s i c t nowMs ends = (s.setClient i c, .returned)) ∨
    (Client.newJob P config s.service (c.versioned t) nowMs = none ∧ send config s i c t nowMs ends =
      (s.setClient i ({ c with elektronPoolVersionCounter := c.counterFor t + 1 }.endSocket ends), .rejected)) ∨
    ∃ job, c.connectionClosed = false ∧ Client.newJob P config s.service (c.versioned t) nowMs = some job ∧
      send config s i c t nowMs ends = ({ s with service := s.service.addJob job }.setClient i { c with
        elektronPoolVersionCounter := c.counterFor t + 1
        notified := c.notified ++ [job.response (c.versioned t)] }, .notifyWritten i t.block.timestamp) := by
  obtain ⟨closed, same⟩ | ⟨none, threw⟩ | ⟨job, isOpen, made, sent⟩ := c.sendNewMiningJob_cases P config s.service t nowMs
  · exact .inl ⟨closed, by rw [send, same]⟩
  · exact .inr (.inl ⟨none, by rw [send, threw]⟩)
  · exact .inr (.inr ⟨job, isOpen, made, by rw [send, sent]⟩)

/-- The header a share still has to record. -/
def pending : Call P → List Buffer
  | .replyWritten share | .recording share _ _ => [share.header]
  | _ => []

/-- What the handlers other than for shares can do. -/
inductive WorkStep (config : StratumConfig) (s : World P) (t : Call P) (a : Answer) : World P × Call P → Prop
  | quiet {r : World P × Call P} : s.Quiet r.1 → r.2.pending = [] → WorkStep config s t a r
  | connect (sessionId : String) : t = .connect sessionId →
      WorkStep config s t a ({ s with clients := s.clients ++ [.new sessionId] }, .returned)
  | refreshed {i : ℕ} {coinbaseAddress : String} {onNewBlock : Bool} {blockTemplate : BlockTemplate} {nowMs : ℤ}
      {c : Client} : t = .refreshTemplate i coinbaseAddress onNewBlock → a = .template blockTemplate nowMs →
      s.clients[i]? = some c →
      WorkStep config s t a (refreshed config s i c coinbaseAddress blockTemplate nowMs onNewBlock)
  | localWork {i : ℕ} {nowMs : ℤ} {c : Client} {template : JobTemplate} : s.clients[i]? = some c →
      c.localTemplate nowMs = some template → WorkStep config s t a (send config s i c template nowMs false)
  | difficulty {i : ℕ} {nowMs : ℤ} {c : Client} {template : JobTemplate} (difficulty : Number) :
      s.clients[i]? = some c → c.currentJobTemplate = some template →
      WorkStep config s t a
        (sendDifficultyTemplate config s i { c with sessionDifficulty := difficulty } template nowMs)
  | difficultyBuilt {i : ℕ} {nowMs : ℤ} {c : Client} (coinbaseAddress : String) (blockTemplate : BlockTemplate) :
      s.clients[i]? = some c →
      WorkStep config s t a (difficultyBuilt config s i c coinbaseAddress blockTemplate nowMs)

/-- The branches of `resumeWork`. -/
inductive WorkBranch (config : StratumConfig) (s : World P) : Call P → Answer → World P × Call P → Prop
  | connect (sessionId : String) (nowMs : ℤ) :
      WorkBranch config s (.connect sessionId) (.ran nowMs)
        ({ s with clients := s.clients ++ [.new sessionId] }, .returned)
  | authorize (i : ℕ) (authorization : Authorization) (nowMs : ℤ) :
      WorkBranch config s (.authorize i authorization) (.ran nowMs)
        (s.updateClient i fun c => { c with clientAuthorization := some authorization }, .returned)
  | setDifficulty (i : ℕ) (difficulty : Number) (nowMs : ℤ) :
      WorkBranch config s (.setDifficulty i difficulty) (.ran nowMs)
        (s.updateClient i fun c => { c with sessionDifficulty := difficulty }, .returned)
  | disconnect (i : ℕ) (nowMs : ℤ) :
      WorkBranch config s (.disconnect i) (.ran nowMs) (s.updateClient i Client.destroy, .returned)
  | unready (onNewBlock : Bool) (nowMs : ℤ) {i : ℕ} {c : Client} : s.clients[i]? = some c →
      c.connectionClosed ∨ c.address = none →
      WorkBranch config s (.refreshMiningJob i onNewBlock) (.ran nowMs) (s, .returned)
  | unconfigured (onNewBlock : Bool) (nowMs : ℤ) {i : ℕ} {c : Client} : s.clients[i]? = some c →
      ¬ (c.connectionClosed ∨ c.address = none) → config.getPoolWalletAddress = none →
      WorkBranch config s (.refreshMiningJob i onNewBlock) (.ran nowMs)
        (s.setClient i (c.endSocket onNewBlock), .rejected)
  | asks (onNewBlock : Bool) (nowMs : ℤ) {i : ℕ} {c : Client} {coinbaseAddress : String} : s.clients[i]? = some c →
      ¬ (c.connectionClosed ∨ c.address = none) → config.getPoolWalletAddress = some coinbaseAddress →
      WorkBranch config s (.refreshMiningJob i onNewBlock) (.ran nowMs)
        (s, .refreshTemplate i coinbaseAddress onNewBlock)
  | refreshed (coinbaseAddress : String) (onNewBlock : Bool) (blockTemplate : BlockTemplate) (nowMs : ℤ) {i : ℕ}
      {c : Client} : s.clients[i]? = some c →
      WorkBranch config s (.refreshTemplate i coinbaseAddress onNewBlock) (.template blockTemplate nowMs)
        (refreshed config s i c coinbaseAddress blockTemplate nowMs onNewBlock)
  | refreshFailed (i : ℕ) (coinbaseAddress : String) (onNewBlock : Bool) :
      WorkBranch config s (.refreshTemplate i coinbaseAddress onNewBlock) .rpcFailed
        (s.updateClient i (·.endSocket onNewBlock), .rejected)
  | noLocalWork {i : ℕ} {nowMs : ℤ} {c : Client} : s.clients[i]? = some c → c.localTemplate nowMs = none →
      WorkBranch config s (.refreshLocalMiningWork i) (.ran nowMs) (s, .returned)
  | localWork {i : ℕ} {nowMs : ℤ} {c : Client} {template : JobTemplate} : s.clients[i]? = some c →
      c.localTemplate nowMs = some template →
      WorkBranch config s (.refreshLocalMiningWork i) (.ran nowMs) (send config s i c template nowMs false)
  | noSuggestion (nowMs : ℤ) {i : ℕ} {c : Client} : s.clients[i]? = some c →
      WorkBranch config s (.checkDifficulty i) (.suggests none nowMs) (s, .returned)
  | sameDifficulty (nowMs : ℤ) {i : ℕ} {difficulty : Number} {c : Client} : s.clients[i]? = some c →
      difficulty.strictEq c.sessionDifficulty = true →
      WorkBranch config s (.checkDifficulty i) (.suggests (some difficulty) nowMs) (s, .returned)
  | difficulty (nowMs : ℤ) {i : ℕ} {difficulty : Number} {c : Client} {template : JobTemplate} :
      s.clients[i]? = some c → ¬ difficulty.strictEq c.sessionDifficulty = true →
      c.currentJobTemplate = some template →
      WorkBranch config s (.checkDifficulty i) (.suggests (some difficulty) nowMs)
        (sendDifficultyTemplate config s i { c with sessionDifficulty := difficulty } template nowMs)
  | noWallet (nowMs : ℤ) {i : ℕ} {difficulty : Number} {c : Client} : s.clients[i]? = some c →
      ¬ difficulty.strictEq c.sessionDifficulty = true → c.currentJobTemplate = none →
      config.getPoolWalletAddress = none →
      WorkBranch config s (.checkDifficulty i) (.suggests (some difficulty) nowMs)
        (s.setClient i { c with sessionDifficulty := difficulty }, .rejected)
  | asksForDifficulty (nowMs : ℤ) {i : ℕ} {difficulty : Number} {c : Client} {coinbaseAddress : String} :
      s.clients[i]? = some c → ¬ difficulty.strictEq c.sessionDifficulty = true → c.currentJobTemplate = none →
      config.getPoolWalletAddress = some coinbaseAddress →
      WorkBranch config s (.checkDifficulty i) (.suggests (some difficulty) nowMs)
        (s.setClient i { c with sessionDifficulty := difficulty }, .difficultyTemplate i coinbaseAddress)
  | difficultyBuilt (coinbaseAddress : String) (blockTemplate : BlockTemplate) (nowMs : ℤ) {i : ℕ} {c : Client} :
      s.clients[i]? = some c →
      WorkBranch config s (.difficultyTemplate i coinbaseAddress) (.template blockTemplate nowMs)
        (difficultyBuilt config s i c coinbaseAddress blockTemplate nowMs)
  | difficultyFailed (i : ℕ) (coinbaseAddress : String) :
      WorkBranch config s (.difficultyTemplate i coinbaseAddress) .rpcFailed (s, .rejected)
  | notified (timestamp nowMs : ℤ) {i : ℕ} : s.isOpen i = true →
      WorkBranch config s (.notifyWritten i timestamp) (.written true nowMs)
        (s.updateClient i (·.notifyWritten timestamp nowMs), .returned)
  | notifyFailed (i : ℕ) (timestamp nowMs : ℤ) :
      WorkBranch config s (.notifyWritten i timestamp) (.written false nowMs)
        (s.updateClient i Client.destroy, .returned)

theorem workBranch_of_resumeWork {r : World P × Call P} (resumed : resumeWork config s t a = some r) :
    WorkBranch config s t a r := by
  unfold resumeWork at resumed
  split at resumed
  case h_1 => exact Option.some.inj resumed ▸ .connect _ _
  case h_2 => exact Option.some.inj resumed ▸ .authorize _ _ _
  case h_3 => exact Option.some.inj resumed ▸ .setDifficulty _ _ _
  case h_4 => exact Option.some.inj resumed ▸ .disconnect _ _
  case h_5 i onNewBlock nowMs =>
    obtain ⟨c, at_i, rfl⟩ := Option.map_eq_some_iff.mp resumed
    split
    · rename_i unready
      exact .unready onNewBlock nowMs at_i unready
    · rename_i ready
      split
      · rename_i unconfigured
        exact .unconfigured onNewBlock nowMs at_i ready unconfigured
      · rename_i configured
        exact .asks onNewBlock nowMs at_i ready configured
  case h_6 i coinbaseAddress onNewBlock blockTemplate nowMs =>
    obtain ⟨c, at_i, rfl⟩ := Option.map_eq_some_iff.mp resumed
    exact .refreshed coinbaseAddress onNewBlock blockTemplate nowMs at_i
  case h_7 => exact Option.some.inj resumed ▸ .refreshFailed _ _ _
  case h_8 i nowMs =>
    obtain ⟨c, at_i, rfl⟩ := Option.map_eq_some_iff.mp resumed
    split
    · rename_i early
      exact .noLocalWork at_i early
    · rename_i found
      exact .localWork at_i found
  case h_9 i targetDiff nowMs =>
    obtain ⟨c, at_i, rfl⟩ := Option.map_eq_some_iff.mp resumed
    split
    · exact .noSuggestion nowMs at_i
    · split
      · rename_i same
        exact .sameDifficulty nowMs at_i same
      · rename_i other
        dsimp only
        split
        · rename_i current
          exact .difficulty nowMs at_i other current
        · rename_i missing unconfigured
          exact .noWallet nowMs at_i other missing unconfigured
        · rename_i missing configured
          exact .asksForDifficulty nowMs at_i other missing configured
  case h_10 i coinbaseAddress blockTemplate nowMs =>
    obtain ⟨c, at_i, rfl⟩ := Option.map_eq_some_iff.mp resumed
    exact .difficultyBuilt coinbaseAddress blockTemplate nowMs at_i
  case h_11 => exact Option.some.inj resumed ▸ .difficultyFailed _ _
  case h_12 i timestamp nowMs =>
    split at resumed
    · rename_i isOpen
      exact Option.some.inj resumed ▸ .notified timestamp nowMs isOpen
    · cases resumed
  case h_13 => exact Option.some.inj resumed ▸ .notifyFailed _ _ _
  case h_14 => cases resumed

theorem WorkBranch.workStep {r : World P × Call P} (branch : WorkBranch config s t a r) : WorkStep config s t a r := by
  have quiet : ∀ {i : ℕ} {f : Client → Client} {t' : Call P}, (∀ c, Client.Quiet c (f c)) → t'.pending = [] →
      WorkStep config s t a (s.updateClient i f, t') := fun kept none => .quiet (World.quiet_updateClient kept) none
  cases branch with
  | connect sessionId => exact .connect sessionId rfl
  | authorize | setDifficulty | notified => exact quiet (fun c => ⟨rfl, .inl rfl, id, List.Subset.refl _⟩) rfl
  | disconnect | notifyFailed => exact quiet Client.quiet_destroy rfl
  | refreshFailed i coinbaseAddress onNewBlock => exact quiet (fun c => c.quiet_endSocket onNewBlock) rfl
  | unconfigured onNewBlock nowMs at_i => exact .quiet (World.quiet_setClient at_i (Client.quiet_endSocket _ onNewBlock)) rfl
  | noWallet nowMs at_i | asksForDifficulty nowMs at_i =>
    exact .quiet (World.quiet_setClient at_i ⟨rfl, .inl rfl, id, List.Subset.refl _⟩) rfl
  | refreshed _ _ _ _ at_i => exact .refreshed rfl rfl at_i
  | localWork at_i found => exact .localWork at_i found
  | @difficulty nowMs i difficulty c template at_i _ current => exact .difficulty difficulty at_i current
  | difficultyBuilt coinbaseAddress blockTemplate nowMs at_i => exact .difficultyBuilt coinbaseAddress blockTemplate at_i
  | _ => exact .quiet (World.Quiet.refl s) rfl

/-! ## What the handling of a share does -/

theorem handled_throws (s : World P) (i : ℕ) : s.Handled (throws s i).1 ∧ (throws s i).2.pending = [] :=
  ⟨World.handled_updateClient (fun c => c.quiet_endSocket true) fun _ => rfl, rfl⟩

theorem handled_checkBlock (s : World P) (share : Share P) :
    s.Handled (checkBlock s share).1 ∧ (checkBlock s share).2.pending = [] := by
  unfold checkBlock
  split
  · dsimp only
    split
    · exact handled_throws s share.client
    · exact ⟨⟨⟨rfl, rfl, rfl, (World.Quiet.refl s).clients⟩, rfl⟩, rfl⟩
  · exact ⟨World.Handled.refl s, rfl⟩

theorem handled_checkBest (s : World P) (share : Share P) :
    s.Handled (checkBest s share).1 ∧ (checkBest s share).2.pending = [] := by
  unfold checkBest
  split
  · exact handled_throws s share.client
  · split
    · exact ⟨World.Handled.refl s, rfl⟩
    · exact ⟨World.Handled.refl s, rfl⟩

theorem handled_updateEntity (s : World P) (share : Share P) (f : ClientEntity → ClientEntity) :
    s.Handled (updateEntity s share f) :=
  World.handled_updateClient (fun _ => ⟨rfl, .inl rfl, id, List.Subset.refl _⟩) fun _ => rfl

theorem handled_checkHeartbeat (s : World P) (share : Share P) (now : ℤ) :
    s.Handled (checkHeartbeat s share now).1 ∧ (checkHeartbeat s share now).2.pending = [] := by
  unfold checkHeartbeat
  split
  · exact handled_checkBest s share
  · split
    · exact ⟨World.Handled.refl s, rfl⟩
    · exact handled_checkBest s share

theorem pending_afterDiscord (config : StratumConfig) (share : Share P) :
    (afterDiscord config share).pending = [] := by
  unfold afterDiscord
  split <;> rfl

theorem handled_afterStep (config : StratumConfig) (s : World P) (share : Share P) (nowMs : ℤ) (step : Step) :
    s.Handled (afterStep config s share nowMs step).1 ∧ (afterStep config s share nowMs step).2.pending = [] := by
  have same := World.Handled.refl s
  cases step with
  | save =>
    simp only [afterStep]
    split
    · exact ⟨same, rfl⟩
    · exact ⟨same, pending_afterDiscord config share⟩
  | discordChannel => exact ⟨same, pending_afterDiscord config share⟩
  | telegramMessage pending =>
    obtain _ | _ | pending := pending
    all_goals exact ⟨same, rfl⟩
  | reportBlockFound => exact ⟨⟨⟨rfl, rfl, rfl, same.clients⟩, rfl⟩, rfl⟩
  | ensureClientEntity =>
    refine ⟨World.handled_updateClient (fun c => ?_) fun _ => rfl, rfl⟩
    exact ⟨rfl, .inl rfl, id, List.Subset.refl _⟩
  | addShares => exact handled_checkHeartbeat s share nowMs
  | heartbeat now =>
    obtain ⟨later, pending⟩ := handled_checkBest (updateEntity s share fun e => { e with updatedAt := some now }) share
    exact ⟨(handled_updateEntity s share _).trans later, pending⟩
  | sessionBestDifficulty => exact ⟨handled_updateEntity s share _, rfl⟩
  | _ => exact ⟨same, rfl⟩

theorem handled_afterThrow (s : World P) (share : Share P) (step : Step) :
    s.Handled (afterThrow s share step).1 ∧ (afterThrow s share step).2.pending = [] := by
  have same := World.Handled.refl s
  cases step with
  | processBlockFound | sessionBestDifficulty | addressBestDifficulty => exact ⟨same, rfl⟩
  | addShares | heartbeat => exact handled_checkBest s share
  | _ => exact handled_throws s share.client

/-- A submission leaves its duplicate key with the client, and nothing else. -/
theorem client_handleMiningSubmission (service : JobsService P) (i : ℕ) (c : Client) (m : MiningSubmitMessage) :
    (handleMiningSubmission service i c m).1 = c ∨ (handleMiningSubmission service i c m).1 =
      { c with miningSubmissionHashes := c.miningSubmissionHashes ++ [m.submissionHash] } := by
  unfold handleMiningSubmission
  split
  · exact .inl rfl
  · split
    · exact .inl rfl
    · split
      · exact .inl rfl
      · right
        dsimp only
        split
        · rfl
        · split <;> rfl

theorem quiet_handleMiningSubmission (service : JobsService P) (i : ℕ) (c : Client) (m : MiningSubmitMessage) :
    c.Quiet (handleMiningSubmission service i c m).1 := by
  obtain same | keyed := client_handleMiningSubmission service i c m
  · rw [same]
    exact .refl c
  · rw [keyed]
    exact ⟨rfl, .inl rfl, id, List.subset_append_left _ _⟩

/-- What is known of a submission that was accepted. -/
theorem accepted_of_handleMiningSubmission {service : JobsService P} {m : MiningSubmitMessage}
    (handled : handleMiningSubmission service i c m = (c', .accepted share)) :
    ∃ job t header, service.getJobById m.jobId = some job ∧ service.getJobTemplateById job.jobTemplateId = some t ∧
      m.submissionHash ∉ c.miningSubmissionHashes ∧
      job.buildHeaderBuffer t m.versionMaskNumber m.nonceNumber m.timestampNumber = some header ∧
      c' = { c with miningSubmissionHashes := c.miningSubmissionHashes ++ [m.submissionHash] } ∧
      share = ⟨i, m, job, t, header, calculateDifficulty P.hash256 header⟩ := by
  unfold handleMiningSubmission at handled
  split at handled
  · cases handled
  rename_i job found
  split at handled
  · cases handled
  rename_i t foundTemplate
  split at handled
  · cases handled
  rename_i unseen
  dsimp only at handled
  split at handled
  · cases handled
  rename_i header built
  split at handled
  · cases handled
    exact ⟨job, t, header, found, foundTemplate, unseen, built, rfl, rfl⟩
  · cases handled

/-- Judging a submission leaves the store and the clients' work alone. -/
theorem judged_quiet (at_i : s.clients[i]? = some c) {r : Client × Judged P} (quiet : c.Quiet r.1) :
    (judged s i r).1.service = s.service ∧ (judged s i r).1.shareLog = s.shareLog ∧
      List.Forall₂ Client.Quiet s.clients (judged s i r).1.clients := by
  obtain ⟨c', verdict⟩ := r
  cases verdict with
  | refused code message => exact ⟨rfl, rfl, forall₂_set Client.Quiet.refl at_i quiet⟩
  | threw => exact ⟨rfl, rfl, forall₂_set Client.Quiet.refl at_i (quiet.trans (c'.quiet_endSocket true))⟩
  | accepted share => exact ⟨rfl, rfl, forall₂_set Client.Quiet.refl at_i quiet⟩

theorem authorizations_judged (at_i : s.clients[i]? = some c) (m : MiningSubmitMessage) :
    (judged s i (handleMiningSubmission s.service i c m)).1.authorizations = s.authorizations := by
  have same : (handleMiningSubmission s.service i c m).1.clientAuthorization = c.clientAuthorization := by
    obtain same | keyed := client_handleMiningSubmission s.service i c m
    · rw [same]
    · rw [keyed]
  generalize handleMiningSubmission s.service i c m = r at same
  obtain ⟨c', verdict⟩ := r
  cases verdict <;> exact World.authorizations_setClient at_i same

/-- What the handling of a share can do. -/
inductive ShareStep (s : World P) (t : Call P) (a : Answer) : World P × Call P → Prop
  | quiet {r : World P × Call P} : s.Quiet r.1 → r.2.pending = [] → ShareStep s t a r
  | judged {i : ℕ} {m : MiningSubmitMessage} {nowMs : ℤ} {c : Client} : t = .submit i m → a = .ran nowMs →
      s.clients[i]? = some c → ShareStep s t a (judged s i (handleMiningSubmission s.service i c m))
  | replied (share : Share P) {r : World P × Call P} : t = .replyWritten share → s.Quiet r.1 →
      r.2.pending = [share.header] → ShareStep s t a r
  | recorded (share : Share P) (record : ShareRecord) {minerAddress : String} {timestamp : ℤ} {r : World P × Call P} :
      t = .recording share minerAddress timestamp → record.header = share.header →
      { s with shareLog := s.shareLog ++ [record] }.Quiet r.1 → r.2.pending = [] → ShareStep s t a r

/-- The branches of `resumeShare`. -/
inductive ShareBranch (config : StratumConfig) (s : World P) : Call P → Answer → World P × Call P → Prop
  | judged (m : MiningSubmitMessage) (nowMs : ℤ) {i : ℕ} {c : Client} : s.clients[i]? = some c →
      ShareBranch config s (.submit i m) (.ran nowMs) (judged s i (handleMiningSubmission s.service i c m))
  | errorWritten (i : ℕ) (code : StratumErrorCode) (message : String) (nowMs : ℤ) :
      ShareBranch config s (.errorWritten i code message) (.written true nowMs) (s, .returned)
  | errorFailed (i : ℕ) (code : StratumErrorCode) (message : String) (nowMs : ℤ) :
      ShareBranch config s (.errorWritten i code message) (.written false nowMs)
        (s.updateClient i Client.destroy, .returned)
  | unauthorized (nowMs : ℤ) {share : Share P} : s.isOpen share.client = true →
      s.clients[share.client]?.bind (·.clientAuthorization) = none →
      ShareBranch config s (.replyWritten share) (.written true nowMs) (checkBlock s share)
  | authorized (nowMs : ℤ) {share : Share P} {authorization : Authorization} : s.isOpen share.client = true →
      s.clients[share.client]?.bind (·.clientAuthorization) = some authorization →
      ShareBranch config s (.replyWritten share) (.written true nowMs)
        (s, .recording share authorization.address nowMs)
  | replyFailed (share : Share P) (nowMs : ℤ) :
      ShareBranch config s (.replyWritten share) (.written false nowMs)
        (s.updateClient share.client Client.destroy, .returned)
  | recorded (share : Share P) (minerAddress : String) (timestamp : ℤ) :
      ShareBranch config s (.recording share minerAddress timestamp) (.recorded true)
        (checkBlock { s with shareLog := s.shareLog ++ [⟨minerAddress, share.submissionDifficulty, timestamp,
          share.jobTemplate.blockData.height, share.header⟩] } share)
  | recordFailed (share : Share P) (minerAddress : String) (timestamp : ℤ) :
      ShareBranch config s (.recording share minerAddress timestamp) (.recorded false) (checkBlock s share)
  | submitted (share : Share P) (response : String) :
      ShareBranch config s (.submitting share) (.submitted response)
        (s, .awaiting share (if response = "SUCCESS!" then .save else .ensureClientEntity))
  | subscribers (share : Share P) (count : ℕ) :
      ShareBranch config s (.awaiting share .telegramSubscriptions) (.subscribers count)
        (s, .awaiting share (if count = 0 then .resetBestDifficultyAndShares else .telegramMessage count))
  | returned (share : Share P) (nowMs : ℤ) {step : Step} : step ≠ .telegramSubscriptions →
      ShareBranch config s (.awaiting share step) (.returned step nowMs) (afterStep config s share nowMs step)
  | threw (share : Share P) (step : Step) :
      ShareBranch config s (.awaiting share step) (.threw step) (afterThrow s share step)

theorem shareBranch_of_resumeShare {r : World P × Call P} (resumed : resumeShare config s t a = some r) :
    ShareBranch config s t a r := by
  unfold resumeShare at resumed
  split at resumed
  case h_1 i m nowMs =>
    obtain ⟨c, at_i, rfl⟩ := Option.map_eq_some_iff.mp resumed
    exact .judged m nowMs at_i
  case h_2 i code message success nowMs =>
    cases success with
    | true => exact Option.some.inj resumed ▸ .errorWritten i code message nowMs
    | false => exact Option.some.inj resumed ▸ .errorFailed i code message nowMs
  case h_3 share nowMs =>
    split at resumed
    · rename_i isOpen
      split at resumed
      · rename_i unauthorized
        exact Option.some.inj resumed ▸ .unauthorized nowMs isOpen unauthorized
      · rename_i authorization authorized
        exact Option.some.inj resumed ▸ .authorized nowMs isOpen authorized
    · cases resumed
  case h_4 share nowMs => exact Option.some.inj resumed ▸ .replyFailed share nowMs
  case h_5 share minerAddress timestamp success =>
    cases success with
    | true => exact Option.some.inj resumed ▸ .recorded share minerAddress timestamp
    | false => exact Option.some.inj resumed ▸ .recordFailed share minerAddress timestamp
  case h_6 share response => exact Option.some.inj resumed ▸ .submitted share response
  case h_7 share count => exact Option.some.inj resumed ▸ .subscribers share count
  case h_8 share step step' nowMs =>
    split at resumed
    · rename_i reached
      obtain ⟨rfl, other⟩ := reached
      exact Option.some.inj resumed ▸ .returned share nowMs other
    · cases resumed
  case h_9 share step step' =>
    split at resumed
    · rename_i reached
      subst reached
      exact Option.some.inj resumed ▸ .threw share step
    · cases resumed
  case h_10 => cases resumed

/-- A step of the handling of a share. It authorizes nobody. -/
theorem ShareBranch.shareStep {r : World P × Call P} (branch : ShareBranch config s t a r) :
    ShareStep s t a r ∧ r.1.authorizations = s.authorizations := by
  have handled : ∀ {r : World P × Call P}, s.Handled r.1 ∧ r.2.pending = [] →
      ShareStep s t a r ∧ r.1.authorizations = s.authorizations :=
    fun both => ⟨.quiet both.1.toQuiet both.2, both.1.authorizations⟩
  have same := World.Handled.refl s
  have destroyed : ∀ i, s.Handled (s.updateClient i Client.destroy) := fun i =>
    World.handled_updateClient Client.quiet_destroy fun _ => rfl
  cases branch with
  | judged m nowMs at_i => exact ⟨.judged rfl rfl at_i, authorizations_judged at_i m⟩
  | errorWritten | submitted | subscribers => exact handled ⟨same, rfl⟩
  | errorFailed i => exact handled ⟨destroyed i, rfl⟩
  | replyFailed share => exact handled ⟨destroyed share.client, rfl⟩
  | unauthorized => exact handled (handled_checkBlock s _)
  | @authorized nowMs share => exact ⟨.replied share rfl same.toQuiet rfl, rfl⟩
  | recorded share =>
    obtain ⟨later, none⟩ := handled_checkBlock _ share
    exact ⟨.recorded share _ rfl rfl later.toQuiet none, later.authorizations⟩
  | recordFailed share => exact handled (handled_checkBlock s share)
  | returned share nowMs => exact handled (handled_afterStep config s share nowMs _)
  | threw share step => exact handled (handled_afterThrow s share step)

end Call

/-! ## What hardly any step changes in a session -/

/-- A part of a session that neither work nor shares change. -/
structure Client.Aside {γ : Type*} (f : Client → γ) : Prop where
  closed : ∀ (c : Client) closed, f { c with connectionClosed := closed } = f c
  template : ∀ (c : Client) t, f { c with currentJobTemplate := t } = f c
  counter : ∀ (c : Client) n, f { c with elektronPoolVersionCounter := n } = f c
  notified : ∀ (c : Client) l, f { c with notified := l } = f c
  keys : ∀ (c : Client) l, f { c with miningSubmissionHashes := l } = f c
  entity : ∀ (c : Client) e, f { c with entity := e } = f c

namespace Client.Aside
variable {γ : Type*} {f : Client → γ}

theorem destroy (aside : Aside f) (c : Client) : f c.destroy = f c :=
  (aside.template { c with connectionClosed := true } none).trans (aside.closed c true)

theorem endSocket (aside : Aside f) (c : Client) (ends : Bool) : f (c.endSocket ends) = f c := aside.closed c _

theorem adoptTemplate (aside : Aside f) (c : Client) (t : JobTemplate) : f (c.adoptTemplate t) = f c :=
  (aside.template { c with miningSubmissionHashes := if t.blockData.clearJobs then [] else c.miningSubmissionHashes }
    (some t)).trans (aside.keys c _)

end Client.Aside

namespace Call

section
variable {γ : Type*} {f : Client → γ}

theorem map_send {template : JobTemplate} {nowMs : ℤ} {ends : Bool} (aside : Client.Aside f) :
    (send config s i c template nowMs ends).1.clients.map f = (s.clients.map f).set i (f c) := by
  obtain ⟨-, sent⟩ | ⟨-, sent⟩ | ⟨job, -, -, sent⟩ := send_cases config s i c template nowMs ends <;> rw [sent]
  · exact List.map_set
  · refine List.map_set.trans (congrArg _ ?_)
    exact (aside.endSocket _ ends).trans (aside.counter c _)
  · refine List.map_set.trans (congrArg _ ?_)
    exact (aside.notified { c with elektronPoolVersionCounter := c.counterFor template + 1 } _).trans (aside.counter c _)

/-- Work for a session that is as it was. -/
theorem map_send_of_eq {template : JobTemplate} {nowMs : ℤ} {ends : Bool} (aside : Client.Aside f)
    (at_i : s.clients[i]? = some c) (same : f c' = f c) :
    (send config s i c' template nowMs ends).1.clients.map f = s.clients.map f := by
  rw [map_send aside, same, ← List.map_set]
  exact World.map_setClient at_i rfl

theorem map_refreshed {coinbaseAddress : String} {blockTemplate : BlockTemplate} {nowMs : ℤ} {onNewBlock : Bool}
    (aside : Client.Aside f) (at_i : s.clients[i]? = some c) :
    (refreshed config s i c coinbaseAddress blockTemplate nowMs onNewBlock).1.clients.map f = s.clients.map f := by
  unfold refreshed
  split
  · exact World.map_setClient (s := { s with service := _ }) at_i (aside.endSocket c onNewBlock)
  · exact map_send_of_eq (s := { s with service := _ }) aside at_i (aside.adoptTemplate c _)

theorem map_difficultyBuilt {coinbaseAddress : String} {blockTemplate : BlockTemplate} {nowMs : ℤ}
    (aside : Client.Aside f) (at_i : s.clients[i]? = some c) :
    (difficultyBuilt config s i c coinbaseAddress blockTemplate nowMs).1.clients.map f = s.clients.map f := by
  unfold difficultyBuilt
  split
  · rfl
  · exact map_send_of_eq (s := { s with service := _ }) aside at_i (aside.template c _)

theorem map_throws (aside : Client.Aside f) (s : World P) (i : ℕ) : (throws s i).1.clients.map f = s.clients.map f :=
  World.map_updateClient fun c => aside.endSocket c true

theorem map_checkBlock (aside : Client.Aside f) (s : World P) (share : Share P) :
    (checkBlock s share).1.clients.map f = s.clients.map f := by
  unfold checkBlock
  split
  · dsimp only
    split
    · exact map_throws aside ..
    · rfl
  · rfl

theorem map_checkBest (aside : Client.Aside f) (s : World P) (share : Share P) :
    (checkBest s share).1.clients.map f = s.clients.map f := by
  unfold checkBest
  split
  · exact map_throws aside ..
  · split <;> rfl

theorem map_updateEntity (aside : Client.Aside f) (s : World P) (share : Share P) (change : ClientEntity → ClientEntity) :
    (updateEntity s share change).clients.map f = s.clients.map f :=
  World.map_updateClient fun c => aside.entity c _

theorem map_checkHeartbeat (aside : Client.Aside f) (s : World P) (share : Share P) (now : ℤ) :
    (checkHeartbeat s share now).1.clients.map f = s.clients.map f := by
  unfold checkHeartbeat
  split
  · exact map_checkBest aside ..
  · split
    · rfl
    · exact map_checkBest aside ..

theorem map_afterStep (aside : Client.Aside f) (config : StratumConfig) (s : World P) (share : Share P) (nowMs : ℤ)
    (step : Step) : (afterStep config s share nowMs step).1.clients.map f = s.clients.map f := by
  cases step with
  | save =>
    simp only [afterStep]
    split <;> rfl
  | telegramMessage pending =>
    obtain _ | _ | pending := pending
    all_goals rfl
  | ensureClientEntity => exact World.map_updateClient fun c => aside.entity c _
  | addShares => exact map_checkHeartbeat aside ..
  | heartbeat => exact (map_checkBest aside ..).trans (map_updateEntity aside ..)
  | sessionBestDifficulty => exact map_updateEntity aside ..
  | _ => rfl

theorem map_afterThrow (aside : Client.Aside f) (s : World P) (share : Share P) (step : Step) :
    (afterThrow s share step).1.clients.map f = s.clients.map f := by
  cases step with
  | processBlockFound | sessionBestDifficulty | addressBestDifficulty => rfl
  | addShares | heartbeat => exact map_checkBest aside ..
  | _ => exact map_throws aside ..

theorem map_judged (aside : Client.Aside f) (at_i : s.clients[i]? = some c) (m : MiningSubmitMessage) :
    (judged s i (handleMiningSubmission s.service i c m)).1.clients.map f = s.clients.map f := by
  have same : f (handleMiningSubmission s.service i c m).1 = f c := by
    obtain same | keyed := client_handleMiningSubmission s.service i c m
    · rw [same]
    · rw [keyed, aside.keys]
  generalize handleMiningSubmission s.service i c m = r at same
  obtain ⟨c', verdict⟩ := r
  cases verdict with
  | threw => exact World.map_setClient at_i ((aside.endSocket c' true).trans same)
  | _ => exact World.map_setClient at_i same

/-- The handling of a share. -/
theorem ShareBranch.map_clients {r : World P × Call P} (aside : Client.Aside f) (branch : ShareBranch config s t a r) :
    r.1.clients.map f = s.clients.map f := by
  cases branch with
  | judged m nowMs at_i => exact map_judged aside at_i m
  | errorFailed | replyFailed => exact World.map_updateClient aside.destroy
  | unauthorized | recordFailed => exact map_checkBlock aside ..
  | recorded => exact map_checkBlock aside ..
  | returned => exact map_afterStep aside ..
  | threw => exact map_afterThrow aside ..
  | _ => rfl

end

theorem step_of_resume (resumed : resume config s t a = some (s', t')) :
    WorkStep config s t a (s', t') ∨ ShareStep s t a (s', t') := by
  rw [resume, Option.or_eq_some_iff] at resumed
  obtain work | ⟨-, share⟩ := resumed
  · exact .inl (workBranch_of_resumeWork work).workStep
  · exact .inr (shareBranch_of_resumeShare share).shareStep.1

end Call

end

end ElektronPool.Stratum
