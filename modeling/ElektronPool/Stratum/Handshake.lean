import ElektronPool.Js.Text
import ElektronPool.Stratum.Client
import ElektronPool.Stratum.Vardiff

/-!
# The messages of a session and its difficulty

`handleMessage` for what a miner sends before it submits, and `initStratum`. Messages overlap
where their handlers await the validation and the writes. Five places assign the session
difficulty; the miner only knows what the last `mining.set_difficulty` told it.
-/

namespace ElektronPool.Stratum
set_option autoImplicit false
open Js Async

/-! ## Miner classes -/

/-- The settings that class a miner by its user agent. The two difficulties are as `Number`
reads the settings, `NaN` for one that is absent. -/
structure MinerClasses where
  toLowerCase : String → String
  nonCompliantUserAgents : Option String
  blockedUserAgents : Option String
  compliantHeaders : Option String
  hobbyMinerUserAgents : Option String
  lowHashrateUserAgents : Option String
  hobbyMinerDifficulty : Number
  lowHashrateDifficulty : Number

/-- `String.prototype.trim`. -/
def trim (cs : List Char) : List Char :=
  ((cs.dropWhile isWhiteSpace).reverse.dropWhile isWhiteSpace).reverse

namespace MinerClasses

/-- One of the names in a comma-separated setting occurs in the user agent. -/
def listed (config : MinerClasses) (list : Option String) (userAgent : String) : Bool :=
  list.any fun names =>
    ((names.toList.splitOn ',').map fun ua => (config.toLowerCase (String.ofList (trim ua))).toList).any fun needle =>
      needle ≠ [] && decide (needle <:+: (config.toLowerCase userAgent).toList)

def isHobbyMiner (config : MinerClasses) : String → Bool := config.listed config.hobbyMinerUserAgents

def isLowHashrateMiner (config : MinerClasses) : String → Bool := config.listed config.lowHashrateUserAgents

/-- The first of the three settings that is neither absent nor empty. -/
def isBlockedUserAgent (config : MinerClasses) : String → Bool :=
  config.listed ((config.nonCompliantUserAgents.filter (· ≠ "")).or
    ((config.blockedUserAgents.filter (· ≠ "")).or config.compliantHeaders))

/-- A configured difficulty, if it is one. -/
def configuredOr (configured default : Number) : Number :=
  if configured.isFinite && Number.lt (.fin 0) configured then configured else default

end MinerClasses

/-! ## Messages -/

structure AuthorizationMessage extends Authorization where
  password : Option String
  deriving DecidableEq

/-- The digits of a part `d=…` of the password. -/
def difficultyHint : List Char → Option (List Char)
  | 'd' :: '=' :: ds => if ds ≠ [] ∧ ds.all (fun c => '0' ≤ c && c ≤ '9') then some ds else none
  | _ => none

/-- The hint of the password, in the first of its comma-separated parts that is one. -/
def AuthorizationMessage.startingDiff (m : AuthorizationMessage) : Option Number :=
  m.password.bind fun password =>
    (((password.toList.splitOn ',').findSome? difficultyHint).map fun ds => parseInt 10 (String.ofList ds)).filter (·.isFinite)

/-- A message as its class reads it, `none` where it does not validate. -/
inductive Message where
  | subscribe (id : String) (userAgent : Option String)
  | configure (id : String) (valid : Bool)
  | authorize (id : String) (authorization : Option AuthorizationMessage)
  | suggestDifficulty (id : String) (suggestedDifficulty : Option Number)
  deriving DecidableEq

/-- What is written to the socket. -/
inductive Response where
  | subscribed (id channel extranonce1 : String)
  | configured (id : String)
  | authorized (id : String)
  | setDifficulty (difficulty : Number)
  | error (id errorMessage : String)
  deriving DecidableEq

def Response.difficulty : Response → Option Number
  | .setDifficulty difficulty => some difficulty
  | _ => none

/-- The fields of the client that the messages use, and what has been written. `isStarted` is a
`sessionStart` that is set, `hasTimers` a `backgroundWork` with the timers. -/
structure Handshake where
  session : Session
  isStarted : Bool
  extraNonceAndSessionId : String
  clientSubscription : Option String
  clientAuthorization : Option AuthorizationMessage
  clientSuggestedDifficulty : Option Number
  usedSuggestedDifficulty : Bool
  stratumInitialized : Bool
  isHobbyMinerSession : Bool
  hasTimers : Bool
  connectionClosed : Bool
  sent : List Response

/-- Where the handling of a message stands, or the booking of a share. -/
inductive Handling where
  | received (m : Message)
  | validating (m : Message)
  | writing (m : Message)
  | initStratum
  | share (t : AddShares)
  | returned
  deriving DecidableEq

/-- `handled` goes on after `elapsedMs`, with random bytes for a session that begins. -/
inductive HandlingAnswer where
  | handled (elapsedMs : ℕ) (randomHex : String)
  | wrote (success : Bool)
  | statistics (a : StatisticsAnswer)
  deriving DecidableEq

namespace Handshake

def initial (now : ℤ) : Handshake where
  session := ⟨now, .new now, .fin 100000⟩
  isStarted := false
  extraNonceAndSessionId := ""
  clientSubscription := none
  clientAuthorization := none
  clientSuggestedDifficulty := none
  usedSuggestedDifficulty := false
  stratumInitialized := false
  isHobbyMinerSession := false
  hasTimers := false
  connectionClosed := false
  sent := []

/-- `write`, up to its await. -/
def write (s : Handshake) (r : Response) : Handshake :=
  if s.connectionClosed then s else { s with sent := s.sent ++ [r] }

def close (s : Handshake) : Handshake := { s with connectionClosed := true }

def setDifficulty (s : Handshake) (difficulty : Number) : Handshake :=
  { s with session := { s.session with sessionDifficulty := difficulty } }

/-- The session begins with its first subscription. -/
def start (s : Handshake) (config : MinerClasses) (userAgent randomHex : String) : Handshake :=
  if s.isStarted then s
  else
    { s with
      isStarted := true
      session := { s.session with statistics := .new s.session.now }
      extraNonceAndSessionId := randomHex
      isHobbyMinerSession := config.isHobbyMiner userAgent }

/-- The starting difficulty of the class of the miner, if it has one. -/
def classDifficulty (s : Handshake) (config : MinerClasses) : Option Number :=
  if s.isHobbyMinerSession then some (MinerClasses.configuredOr config.hobbyMinerDifficulty (.round (1 / 1000)))
  else if s.clientSubscription.any config.isLowHashrateMiner then
    some (MinerClasses.configuredOr config.lowHashrateDifficulty (.round (1 / 10)))
  else none

def asClass (s : Handshake) (config : MinerClasses) : Handshake := (s.classDifficulty config).elim s s.setDifficulty

/-- The hint of an authorization raises the difficulty of a client that has suggested none. -/
def raise (s : Handshake) (a : AuthorizationMessage) : Handshake :=
  match a.startingDiff with
  | some startingDiff =>
    if s.clientSuggestedDifficulty = none ∧ s.session.sessionDifficulty.lt startingDiff then s.setDifficulty startingDiff
    else s
  | none => s

/-- `initStratum`, up to its write where it has one. -/
def initStratum (s : Handshake) (config : MinerClasses) : Handshake × Handling :=
  let s := { s with stratumInitialized := true }
  if s.clientSubscription.any config.isBlockedUserAgent then (s.close, .returned)
  else
    let s := s.asClass config
    if s.clientSuggestedDifficulty = none then (s.write (.setDifficulty s.session.sessionDifficulty), .initStratum)
    else ({ s with hasTimers := true }, .returned)

/-- What follows every message. -/
def afterMessage (s : Handshake) (config : MinerClasses) : Handshake × Handling :=
  if s.clientSubscription.isSome ∧ s.clientAuthorization.isSome ∧ s.stratumInitialized = false then s.initStratum config
  else (s, .returned)

/-- A validated message, up to the write of its response. -/
def handle (s : Handshake) (config : MinerClasses) (randomHex : String) (m : Message) : Handshake × Handling :=
  match m with
  | .subscribe id (some userAgent) =>
    if config.isBlockedUserAgent userAgent then (s.close, .returned)
    else
      let s := { s.start config userAgent randomHex with clientSubscription := some userAgent }
      (s.write (.subscribed id s.extraNonceAndSessionId (if s.isHobbyMinerSession then s.extraNonceAndSessionId else "")),
        .writing m)
  | .subscribe id none => (s.write (.error id "Subscription validation error"), .writing m)
  | .configure id true => (s.write (.configured id), .writing m)
  | .configure id false => (s.write (.error id "Configuration validation error"), .writing m)
  | .authorize id (some a) => (({ s with clientAuthorization := some a }.raise a).write (.authorized id), .writing m)
  | .authorize id none => (s.write (.error id "Authorization validation error"), .writing m)
  | .suggestDifficulty _ (some d) =>
    (({ s with clientSuggestedDifficulty := some d }.setDifficulty d).write (.setDifficulty d), .writing m)
  | .suggestDifficulty id none => (s.write (.error id "Suggest difficulty validation error"), .writing m)

/-- A suggestion counts as used once it has been answered. -/
def answered (s : Handshake) : Message → Handshake
  | .suggestDifficulty _ (some _) => { s with usedSuggestedDifficulty := true }
  | _ => s

/-- A second suggestion is not looked at. -/
def ignores (s : Handshake) : Message → Bool
  | .suggestDifficulty .. => s.usedSuggestedDifficulty
  | _ => false

end Handshake

namespace Handling

def isEntry : Handling → Bool
  | .received _ => true
  | .share t => t.isEntry
  | _ => false

def isReturned : Handling → Bool
  | .returned | .share .returned | .share .rejected => true
  | _ => false

def resume (config : MinerClasses) (s : Handshake) : Handling → HandlingAnswer → Option (Handshake × Handling)
  | .received m, .handled _ _ => some (s, if s.ignores m then .returned else .validating m)
  | .validating m, .handled elapsedMs randomHex =>
    some ({ s with session := { s.session with now := s.session.now + elapsedMs } }.handle config randomHex m)
  | .writing m, .wrote success =>
    some (if success && !s.connectionClosed then (s.answered m).afterMessage config else (s.close, .returned))
  | .initStratum, .wrote success =>
    some (if success && !s.connectionClosed then { s with hasTimers := true } else s.close, .returned)
  | .share t, .statistics a => (t.resume s.session a).map fun r => ({ s with session := r.1 }, .share r.2)
  | _, _ => none

end Handling

/-! ## Runs -/

/-- What happens to a session: its messages and shares, and the difficulty timer. -/
inductive HandshakeEvent where
  | message (event : Event Handling HandlingAnswer)
  | timer (elapsedMs frames : ℕ)
  deriving DecidableEq

abbrev Handshakes := Pool Handshake Handling

/-- `checkDifficulty`, up to the write of the new difficulty. -/
def Handshake.checkDifficulty (s : Handshake) (elapsedMs frames : ℕ) : Handshake :=
  let session := s.session.checkDifficulty elapsedMs frames
  { s with
    session := session
    sent := if session.sessionDifficulty = s.session.sessionDifficulty then s.sent
      else s.sent ++ [.setDifficulty session.sessionDifficulty] }

/-- The timer runs from `initStratum` to the end of the connection. -/
def Handshakes.step (config : MinerClasses) (p : Handshakes) : HandshakeEvent → Option Handshakes
  | .message event => Pool.step Handling.isEntry (Handling.resume config) p event
  | .timer elapsedMs frames =>
    if p.shared.hasTimers && !p.shared.connectionClosed then some ⟨p.shared.checkDifficulty elapsedMs frames, p.calls⟩
    else none

def Handshakes.initial (now : ℤ) : Handshakes := ⟨.initial now, []⟩

/-- The difficulty the miner was told last. -/
def Handshake.announced (s : Handshake) : Option Number := (s.sent.filterMap Response.difficulty).getLast?

/-- With the connection open, `initStratum` complete and no message in progress, the miner knows
the difficulty. -/
def Handshakes.Agree (p : Handshakes) : Prop :=
  p.shared.connectionClosed = false → p.shared.hasTimers = true → (∀ t ∈ p.calls, t.isReturned = true) →
    p.shared.announced = some p.shared.session.sessionDifficulty

/-- An authorization raises no difficulty that has been told, and the class of a miner that has
suggested one leaves it as it is. -/
def Handling.Tells (config : MinerClasses) (s : Handshake) : Handling → HandlingAnswer → Prop
  | .validating (.authorize _ (some a)), _ => s.connectionClosed = false → s.stratumInitialized = true →
    s.clientSuggestedDifficulty = none → ∀ startingDiff ∈ a.startingDiff, s.session.sessionDifficulty.lt startingDiff = false
  | .writing _, .wrote true => s.connectionClosed = false → s.stratumInitialized = false → s.clientAuthorization.isSome →
    s.clientSuggestedDifficulty.isSome → ∀ difficulty ∈ s.classDifficulty config, difficulty = s.session.sessionDifficulty
  | _, _ => True

/-- The condition on the events. -/
def Tells (config : MinerClasses) (p : Handshakes) : HandshakeEvent → Prop
  | .message event => Pool.Allowed (fun _ _ => True) (fun s _ t a => t.Tells config s a) p event
  | .timer .. => True

instance (config : MinerClasses) (s : Handshake) (t : Handling) (a : HandlingAnswer) : Decidable (t.Tells config s a) := by
  unfold Handling.Tells
  split <;> infer_instance

instance (config : MinerClasses) (p : Handshakes) : DecidablePred (Tells config p)
  | .message event => inferInstanceAs (Decidable (Pool.Allowed (fun _ _ => True)
      (fun s _ t a => Handling.Tells config s t a) p event))
  | .timer .. => .isTrue trivial

/-! ## What the miner has been told -/

section
variable {config : MinerClasses} {s s' : Handshake} {d : Number} {r : Response} {t t' : Handling} {a : HandlingAnswer}

@[simp] theorem stratumInitialized_write : (s.write r).stratumInitialized = s.stratumInitialized := by
  unfold Handshake.write
  split <;> rfl

@[simp] theorem stratumInitialized_start {userAgent randomHex : String} :
    (s.start config userAgent randomHex).stratumInitialized = s.stratumInitialized := by
  unfold Handshake.start
  split <;> rfl

@[simp] theorem stratumInitialized_raise {m : AuthorizationMessage} :
    (s.raise m).stratumInitialized = s.stratumInitialized := by
  unfold Handshake.raise
  split
  · split <;> rfl
  · rfl

/-- Writing changes nothing but what has been written. -/
theorem write_eq : ∃ sent, s.write r = { s with sent := sent } := by
  unfold Handshake.write
  split
  · exact ⟨s.sent, rfl⟩
  · exact ⟨_, rfl⟩

theorem announced_write_difficulty (isOpen : s.connectionClosed = false) :
    (s.write (.setDifficulty d)).announced = some d := by
  simp [Handshake.write, isOpen, Handshake.announced, Response.difficulty]

/-- A response that is no difficulty leaves the miner with what it has been told. -/
theorem announced_write (other : r.difficulty = none) : (s.write r).announced = s.announced := by
  unfold Handshake.write
  split
  · rfl
  · simp [Handshake.announced, other]

theorem asClass_eq (s : Handshake) (config : MinerClasses) : ∃ d, s.asClass config = s.setDifficulty d ∧
    (d = s.session.sessionDifficulty ∨ s.classDifficulty config = some d) := by
  unfold Handshake.asClass
  cases s.classDifficulty config with
  | none => exact ⟨_, rfl, .inl rfl⟩
  | some d => exact ⟨d, rfl, .inr rfl⟩

theorem answered_eq {m : Message} : ∃ used, s.answered m = { s with usedSuggestedDifficulty := used } := by
  unfold Handshake.answered
  split
  · exact ⟨true, rfl⟩
  · exact ⟨s.usedSuggestedDifficulty, rfl⟩

/-- Once it has suggested a difficulty or the session is initialized, the miner knows the
difficulty. -/
structure Handshake.Told (s : Handshake) : Prop where
  timers : s.hasTimers = true → s.stratumInitialized = true
  told : s.connectionClosed = false → s.clientSuggestedDifficulty.isSome ∨ s.stratumInitialized = true →
    s.announced = some s.session.sessionDifficulty

namespace Handshake.Told

theorem close (h : s.Told) : s.close.Told where
  timers := h.timers
  told isOpen := by cases isOpen

theorem write (h : s.Told) (other : r.difficulty = none) : (s.write r).Told := by
  obtain ⟨sent, same⟩ := write_eq (s := s) (r := r)
  have announced := announced_write (s := s) other
  rw [same] at announced ⊢
  exact ⟨h.timers, fun isOpen known => announced.trans (h.told isOpen known)⟩

/-- The new difficulty is written as it is set. -/
theorem tell (timers : s.hasTimers = true → s.stratumInitialized = true) (is_difficulty : s.session.sessionDifficulty = d) :
    (s.write (.setDifficulty d)).Told := by
  obtain ⟨sent, same⟩ := write_eq (s := s) (r := .setDifficulty d)
  have announced := fun isOpen => announced_write_difficulty (s := s) (d := d) isOpen
  rw [same] at announced ⊢
  refine ⟨timers, fun isOpen _ => ?_⟩
  rw [announced isOpen]
  exact congrArg some is_difficulty.symm

theorem start (h : s.Told) (config : MinerClasses) (userAgent randomHex : String) : (s.start config userAgent randomHex).Told := by
  unfold Handshake.start
  split
  · exact h
  · exact ⟨h.timers, h.told⟩

theorem raise (h : s.Told) {a : AuthorizationMessage} (low : s.connectionClosed = false → s.stratumInitialized = true →
    s.clientSuggestedDifficulty = none → ∀ startingDiff ∈ a.startingDiff, s.session.sessionDifficulty.lt startingDiff = false) :
    (s.raise a).Told := by
  unfold Handshake.raise
  cases hint : a.startingDiff with
  | none => exact h
  | some startingDiff =>
    dsimp only
    split
    · rename_i raises
      refine ⟨h.timers, fun isOpen known => ?_⟩
      obtain suggested | initialized := known
      · rw [show (s.setDifficulty startingDiff).clientSuggestedDifficulty = none from raises.1] at suggested
        cases suggested
      · have := low isOpen initialized raises.1 startingDiff hint
        rw [raises.2] at this
        cases this
    · exact h

/-- The class of the miner is told, or has nothing to say. -/
theorem initStratum (h : s.Told) (same : s.connectionClosed = false → s.clientSuggestedDifficulty.isSome →
    ∀ difficulty ∈ s.classDifficulty config, difficulty = s.session.sessionDifficulty) :
    (s.initStratum config).1.Told := by
  unfold Handshake.initStratum
  dsimp only
  split
  · exact ⟨fun _ => rfl, fun isOpen => by cases isOpen⟩
  · obtain ⟨d, set, which⟩ := asClass_eq { s with stratumInitialized := true } config
    rw [set]
    split
    · exact tell (fun _ => rfl) rfl
    · rename_i suggested
      have isSome : s.clientSuggestedDifficulty.isSome := Option.isSome_iff_ne_none.mpr suggested
      refine ⟨fun _ => rfl, fun isOpen _ => ?_⟩
      refine (h.told isOpen (.inl isSome)).trans (congrArg some ?_)
      obtain kept | of_class := which
      · exact kept.symm
      · exact (same isOpen isSome d of_class).symm

theorem afterMessage (h : s.Told) (same : s.connectionClosed = false → s.stratumInitialized = false →
    s.clientAuthorization.isSome → s.clientSuggestedDifficulty.isSome → ∀ difficulty ∈ s.classDifficulty config, difficulty = s.session.sessionDifficulty) :
    (s.afterMessage config).1.Told := by
  unfold Handshake.afterMessage
  split
  · rename_i ready
    exact h.initStratum fun isOpen => same isOpen ready.2.2 ready.2.1
  · exact h

theorem handle {m : Message} (h : s.Told) (tells : (Handling.validating m).Tells config s a) (randomHex : String) :
    (s.handle config randomHex m).1.Told := by
  cases m with
  | subscribe id userAgent =>
    cases userAgent with
    | none => exact h.write rfl
    | some userAgent =>
      simp only [Handshake.handle]
      split
      · exact h.close
      · have started := h.start config userAgent randomHex
        exact write ⟨started.timers, started.told⟩ rfl
  | configure id valid => cases valid <;> exact h.write rfl
  | authorize id authorization =>
    cases authorization with
    | none => exact h.write rfl
    | some a =>
      have authorized : ({ s with clientAuthorization := some a } : Handshake).Told := ⟨h.timers, h.told⟩
      exact (authorized.raise fun isOpen initialized none => tells isOpen initialized none).write rfl
  | suggestDifficulty id suggestedDifficulty =>
    cases suggestedDifficulty with
    | none => exact h.write rfl
    | some d => exact tell h.timers rfl

end Handshake.Told

/-- The booking of a share leaves the difficulty as it is. -/
theorem sessionDifficulty_of_resume {s s' : Session} {t t' : AddShares} {a : StatisticsAnswer}
    (resumed : t.resume s a = some (s', t')) : s'.sessionDifficulty = s.sessionDifficulty := by
  unfold AddShares.resume at resumed
  split at resumed
  case h_1 =>
    obtain ⟨rfl, -⟩ := Prod.ext_iff.mp (Option.some.inj resumed)
    unfold AddShares.enter
    dsimp only
    split
    · rfl
    · rfl
    · rfl
    · split
      · split <;> rfl
      · rfl
  all_goals cases resumed
  all_goals rfl

/-- One resumption. -/
theorem told_of_resume (h : s.Told) (tells : t.Tells config s a)
    (initialized : t = .initStratum → s.stratumInitialized = true) (resumed : t.resume config s a = some (s', t')) :
    s'.Told := by
  unfold Handling.resume at resumed
  split at resumed
  case h_1 =>
    cases resumed
    exact h
  case h_2 elapsedMs randomHex =>
    obtain ⟨rfl, -⟩ := Prod.ext_iff.mp (Option.some.inj resumed)
    have later : ({ s with session := { s.session with now := s.session.now + elapsedMs } } : Handshake).Told :=
      ⟨h.timers, h.told⟩
    exact later.handle tells randomHex
  case h_3 m success =>
    obtain ⟨rfl, -⟩ := Prod.ext_iff.mp (Option.some.inj resumed)
    split
    · rename_i written
      rw [Bool.and_eq_true] at written
      obtain ⟨rfl, -⟩ := written
      obtain ⟨used, same⟩ := answered_eq (s := s) (m := m)
      rw [same]
      have answered : ({ s with usedSuggestedDifficulty := used } : Handshake).Told := ⟨h.timers, h.told⟩
      exact answered.afterMessage fun isOpen fresh known suggested => tells isOpen fresh known suggested
    · exact h.close
  case h_4 success =>
    cases resumed
    split
    · exact ⟨fun _ => initialized rfl, h.told⟩
    · exact h.close
  case h_5 share answer =>
    obtain ⟨⟨session, t₁⟩, booked, same⟩ := Option.map_eq_some_iff.mp resumed
    cases same
    refine ⟨h.timers, fun isOpen known => ?_⟩
    rw [sessionDifficulty_of_resume booked]
    exact h.told isOpen known
  case h_6 => cases resumed

theorem initialized_afterMessage (config : MinerClasses) (s : Handshake) :
    (s.stratumInitialized = true → (s.afterMessage config).1.stratumInitialized = true) ∧
      ((s.afterMessage config).2 = .initStratum → (s.afterMessage config).1.stratumInitialized = true) := by
  have inits : (s.initStratum config).1.stratumInitialized = true := by
    unfold Handshake.initStratum
    dsimp only
    split
    · rfl
    · obtain ⟨d, set, -⟩ := asClass_eq { s with stratumInitialized := true } config
      rw [set]
      split
      · exact stratumInitialized_write
      · rfl
  unfold Handshake.afterMessage
  split
  · exact ⟨fun _ => inits, fun _ => inits⟩
  · refine ⟨id, ?_⟩
    intro place
    cases place

theorem initialized_handle (config : MinerClasses) (s : Handshake) (randomHex : String) (m : Message) :
    (s.handle config randomHex m).1.stratumInitialized = s.stratumInitialized ∧
      (s.handle config randomHex m).2 ≠ .initStratum := by
  unfold Handshake.handle
  split
  · split <;> simp [Handshake.close]
  all_goals simp [Handshake.setDifficulty]

/-- A session stays initialized, and is so where `initStratum` waits for its write. -/
theorem initialized_of_resume (resumed : t.resume config s a = some (s', t')) :
    (s.stratumInitialized = true → s'.stratumInitialized = true) ∧
      (t' = .initStratum → s'.stratumInitialized = true) := by
  unfold Handling.resume at resumed
  split at resumed
  case h_1 =>
    cases resumed
    refine ⟨id, fun place => ?_⟩
    split at place <;> cases place
  case h_2 m elapsedMs randomHex =>
    obtain ⟨rfl, rfl⟩ := Prod.ext_iff.mp (Option.some.inj resumed)
    obtain ⟨same, other⟩ := initialized_handle config
      { s with session := { s.session with now := s.session.now + elapsedMs } } randomHex m
    exact ⟨fun initialized => same.trans initialized, fun place => absurd place other⟩
  case h_3 m success =>
    obtain ⟨rfl, rfl⟩ := Prod.ext_iff.mp (Option.some.inj resumed)
    split
    · obtain ⟨used, same⟩ := answered_eq (s := s) (m := m)
      rw [same]
      exact initialized_afterMessage config { s with usedSuggestedDifficulty := used }
    · exact ⟨id, fun place => by cases place⟩
  case h_4 success =>
    cases resumed
    refine ⟨fun initialized => ?_, fun place => by cases place⟩
    split <;> exact initialized
  case h_5 share answer =>
    obtain ⟨⟨session, t₁⟩, -, same⟩ := Option.map_eq_some_iff.mp resumed
    cases same
    exact ⟨id, fun place => by cases place⟩
  case h_6 => cases resumed

theorem Handshake.Told.checkDifficulty (h : s.Told) (timers : s.hasTimers = true) (isOpen : s.connectionClosed = false)
    (elapsedMs frames : ℕ) : (s.checkDifficulty elapsedMs frames).Told := by
  refine ⟨h.timers, fun _ _ => ?_⟩
  unfold Handshake.checkDifficulty Handshake.announced
  dsimp only
  split
  · rename_i same
    rw [same]
    exact h.told isOpen (.inr (h.timers timers))
  · simp [Response.difficulty]

end

/-- The outline of a session: a message that waits for the write of `initStratum` has initialized
it. -/
def telling : Outline Handshake Handling where
  shared s := s.Told
  call s t := t = .initStratum → s.stratumInitialized = true
  pair _ _ _ := True
  symm _ _ _ _ := trivial

theorem telling_step {config : MinerClasses} {p p' : Handshakes} {e : HandshakeEvent} (holds : telling.Holds p)
    (tells : Tells config p e) (moved : p.step config e = some p') : telling.Holds p' := by
  cases e with
  | message event =>
    refine holds.step ?_ ?_ moved
    · rintro t rfl entry
      refine ⟨?_, fun _ _ => trivial⟩
      rintro rfl
      cases entry
    · rintro before t after a s' t' rfl calls resumed own beside
      have allowed : Pool.Allowed (fun _ _ => True) (fun s _ t a => Handling.Tells config s t a) p
        (.resume before.length a) := tells
      have here := allowed.continues calls
      obtain ⟨stays, inits⟩ := initialized_of_resume resumed
      refine ⟨told_of_resume holds.shared here own resumed, inits, ?_, fun _ _ => trivial, fun _ _ _ _ _ => trivial⟩
      exact fun u member waits => stays ((beside u member).1 waits)
  | timer elapsedMs frames =>
    simp only [Handshakes.step] at moved
    split at moved
    · rename_i running
      cases moved
      rw [Bool.and_eq_true, Bool.not_eq_true'] at running
      exact ⟨holds.shared.checkDifficulty running.1 running.2 elapsedMs frames, holds.calls, holds.pairs⟩
    · cases moved

/-- **The miner knows the difficulty**: in every interleaving of messages, shares and timer ticks in
which no authorization raises a difficulty that was told, and the class of a miner does not
change the difficulty it has suggested, the session difficulty is the last one written. -/
theorem agree_of_tells {config : MinerClasses} {now : ℤ} {p : Handshakes}
    (run : Reaches (Handshakes.step config) (Tells config) (.initial now) p) : p.Agree := by
  have holds : telling.Holds p := by
    refine run.invariant ⟨⟨?_, ?_⟩, ?_, .nil⟩ fun _ _ _ holds tells moved => telling_step holds tells moved
    · intro timers
      cases timers
    · rintro - (suggested | initialized)
      · cases suggested
      · cases initialized
    · intro t member
      cases member
  intro isOpen timers _
  exact holds.shared.told isOpen (.inr (holds.shared.timers timers))

/-- No classes are configured, and no names blocked. -/
def noClasses : MinerClasses where
  toLowerCase := id
  nonCompliantUserAgents := none
  blockedUserAgents := none
  compliantHeaders := none
  hobbyMinerUserAgents := none
  lowHashrateUserAgents := none
  hobbyMinerDifficulty := .nan
  lowHashrateDifficulty := .nan

/-- A miner subscribes, authorizes with a hint and suggests a difficulty. -/
theorem agree_of_tells_suggestion : ∃ p : Handshakes, p.shared.session.sessionDifficulty = .fin 512 ∧
    p.shared.hasTimers = true ∧ p.Agree := by
  obtain ⟨p, run, difficulty, timers⟩ := exists_reaches (Handshakes.step noClasses) (Tells noClasses) (.initial 0)
    [.message (.start (.received (.subscribe "1" (some "bitaxe")))), .message (.resume 0 (.handled 0 "57a6f098")),
      .message (.resume 0 (.handled 0 "57a6f098")), .message (.resume 0 (.wrote true)),
      .message (.start (.received (.authorize "2" (some ⟨⟨"tb1qumezefzdeqqwn5zfvgdrhxjzc5ylr39uhuxcz4", "bitaxe3"⟩, some "d=200000"⟩)))),
      .message (.resume 1 (.handled 0 "")), .message (.resume 1 (.handled 0 "")), .message (.resume 1 (.wrote true)),
      .message (.resume 1 (.wrote true)),
      .message (.start (.received (.suggestDifficulty "4" (some (.fin 512))))),
      .message (.resume 2 (.handled 0 "")), .message (.resume 2 (.handled 0 "")), .message (.resume 2 (.wrote true))]
    (fun p => p.shared.session.sessionDifficulty = .fin 512 ∧ p.shared.hasTimers = true) (by decide +kernel)
  exact ⟨p, difficulty, timers, agree_of_tells run⟩

/-- A second authorization with a hint above the difficulty that the miner was told: the
difficulty is raised and nothing is written. -/
theorem not_agree_second_authorization : ¬ ∀ (config : MinerClasses) (now : ℤ) (p : Handshakes),
    Reaches (Handshakes.step config) Always (.initial now) p → p.Agree := by
  intro claim
  obtain ⟨p, run, isOpen, timers, returned, differ⟩ := exists_reaches (Handshakes.step noClasses) Always (.initial 0)
    [.message (.start (.received (.subscribe "1" (some "bitaxe")))), .message (.resume 0 (.handled 0 "57a6f098")),
      .message (.resume 0 (.handled 0 "57a6f098")), .message (.resume 0 (.wrote true)),
      .message (.start (.received (.authorize "2" (some ⟨⟨"tb1qumezefzdeqqwn5zfvgdrhxjzc5ylr39uhuxcz4", "bitaxe3"⟩, none⟩)))),
      .message (.resume 1 (.handled 0 "")), .message (.resume 1 (.handled 0 "")), .message (.resume 1 (.wrote true)),
      .message (.resume 1 (.wrote true)),
      .message (.start (.received (.authorize "3" (some ⟨⟨"tb1qumezefzdeqqwn5zfvgdrhxjzc5ylr39uhuxcz4", "bitaxe3"⟩, some "d=200000"⟩)))),
      .message (.resume 2 (.handled 0 "")), .message (.resume 2 (.handled 0 "")), .message (.resume 2 (.wrote true))]
    (fun p => p.shared.connectionClosed = false ∧ p.shared.hasTimers = true ∧ (∀ t ∈ p.calls, t.isReturned = true) ∧
      p.shared.announced ≠ some p.shared.session.sessionDifficulty) (by decide +kernel)
  exact differ (claim _ _ p run isOpen timers returned)

end ElektronPool.Stratum
