import ElektronPool.Pplns.Settings

/-!
# StratumV1Service

The listener of the pool and the check that pauses it under load. The check runs on a timer of
its own, which is started before the listener is. How long the listener stays paused is said of
the readings alone, by the healthy ones at their end (`backpressure_iff`).
-/

namespace ElektronPool.Stratum
set_option autoImplicit false
open Js

/-- `process.env`. -/
abbrev Environment := String → Option String

def getPositiveIntegerEnv (env : Environment) (key : String) (fallback : ℕ) : ℕ :=
  Pplns.positiveSetting env key fallback

section
variable (env : Environment)

def getBackpressureEventLoopP95Ms : ℕ := getPositiveIntegerEnv env "STRATUM_BACKPRESSURE_EVENT_LOOP_P95_MS" 2000

def getBackpressureResumeEventLoopP95Ms : ℕ :=
  getPositiveIntegerEnv env "STRATUM_BACKPRESSURE_EVENT_LOOP_RESUME_P95_MS" 250

def getBackpressureRssMb : ℕ := getPositiveIntegerEnv env "STRATUM_BACKPRESSURE_RSS_MB" 2500

def getBackpressureResumeRssMb : ℕ := getPositiveIntegerEnv env "STRATUM_BACKPRESSURE_RESUME_RSS_MB" 2000

def getBackpressureHealthyChecks : ℕ := getPositiveIntegerEnv env "STRATUM_BACKPRESSURE_HEALTHY_CHECKS" 3

def getMaxConnectionsPerListener : ℕ := getPositiveIntegerEnv env "STRATUM_MAX_CONNECTIONS_PER_LISTENER" 10000

def getStratumPort : ℕ := getPositiveIntegerEnv env "STRATUM_PORT" 3333

end

/-- A server that accepts connections. -/
structure SocketServer where
  port : ℕ
  maxConnections : ℕ
  deriving DecidableEq

structure StratumListenerState where
  port : ℕ
  server : Option SocketServer
  paused : Bool
  deriving DecidableEq

structure StratumV1Service where
  listeners : List StratumListenerState
  healthyBackpressureChecks : ℕ
  deriving DecidableEq

/-- What a check measures: the delay of the event loop in nanoseconds, and the memory in bytes. -/
structure Reading where
  eventLoopDelayP95 : ℕ
  rss : ℕ

/-- `Math.round` of a quotient. -/
def roundQuotient (n d : ℕ) : ℕ := (2 * n + d) / (2 * d)

namespace Reading
variable (env : Environment) (r : Reading)

def eventLoopP95Ms : ℕ := roundQuotient r.eventLoopDelayP95 1000000

def rssMb : ℕ := roundQuotient r.rss (1024 * 1024)

def overloaded : Bool :=
  decide (getBackpressureEventLoopP95Ms env ≤ r.eventLoopP95Ms) || decide (getBackpressureRssMb env ≤ r.rssMb)

/-- Not above the thresholds for resuming. -/
def belowResume : Bool :=
  decide (r.eventLoopP95Ms ≤ getBackpressureResumeEventLoopP95Ms env) &&
    decide (r.rssMb ≤ getBackpressureResumeRssMb env)

/-- Neither overloaded nor above the thresholds for resuming. -/
def healthy : Bool := !r.overloaded env && r.belowResume env

end Reading

namespace StratumListenerState

def listen (env : Environment) (l : StratumListenerState) : StratumListenerState :=
  match l.server with
  | some _ => l
  | none => { l with server := some ⟨l.port, getMaxConnectionsPerListener env⟩, paused := false }

/-- One turn of the loop in `pauseAccepting`. -/
def pause (l : StratumListenerState) : StratumListenerState :=
  if l.paused || l.server.isNone then l else { l with server := none, paused := true }

/-- One turn of the loop in `resumeAccepting`. -/
def resume (env : Environment) (l : StratumListenerState) : StratumListenerState :=
  if !l.paused || l.server.isSome then l else l.listen env

end StratumListenerState

namespace StratumV1Service

def initial : StratumV1Service := ⟨[], 0⟩

def startSocketServer (env : Environment) (s : StratumV1Service) (port : ℕ) : StratumV1Service :=
  { s with listeners := s.listeners ++ [StratumListenerState.listen env ⟨port, none, false⟩] }

def pauseAccepting (s : StratumV1Service) : StratumV1Service :=
  { s with listeners := s.listeners.map StratumListenerState.pause }

def resumeAccepting (env : Environment) (s : StratumV1Service) : StratumV1Service :=
  { s with listeners := s.listeners.map (StratumListenerState.resume env) }

def paused (s : StratumV1Service) : Bool := s.listeners.any (·.paused)

def checkBackpressure (env : Environment) (s : StratumV1Service) (r : Reading) : StratumV1Service :=
  if r.overloaded env then
    let s := { s with healthyBackpressureChecks := 0 }
    if !s.paused then s.pauseAccepting else s
  else if !s.paused then s
  else if !r.belowResume env then { s with healthyBackpressureChecks := 0 }
  else
    let s := { s with healthyBackpressureChecks := s.healthyBackpressureChecks + 1 }
    if getBackpressureHealthyChecks env ≤ s.healthyBackpressureChecks then
      { s.resumeAccepting env with healthyBackpressureChecks := 0 }
    else s

/-- The service of `onModuleInit`: some readings come before the timer starts the listener, the others
after. -/
def run (env : Environment) (before readings : List Reading) : StratumV1Service :=
  readings.foldl (checkBackpressure env)
    ((before.foldl (checkBackpressure env) initial).startSocketServer env (getStratumPort env))

end StratumV1Service

/-! ## When the listener is paused -/

/-- How many healthy readings there are since the last one that was not. -/
def healthyReadings (env : Environment) (readings : List Reading) : ℕ :=
  (readings.reverse.takeWhile fun r => r.healthy env).length

theorem healthyReadings_concat (env : Environment) (readings : List Reading) (r : Reading) :
    healthyReadings env (readings ++ [r]) = if r.healthy env then healthyReadings env readings + 1 else 0 := by
  rw [healthyReadings, List.reverse_append, List.reverse_singleton, List.singleton_append, List.takeWhile_cons]
  split <;> rfl

theorem getBackpressureHealthyChecks_pos (env : Environment) : 0 < getBackpressureHealthyChecks env :=
  Pplns.positiveSetting_pos env _ (by decide)

namespace StratumV1Service

/-- The service with its listener accepting. -/
def accepting (env : Environment) : StratumV1Service :=
  ⟨[⟨getStratumPort env, some ⟨getStratumPort env, getMaxConnectionsPerListener env⟩, false⟩], 0⟩

/-- The service with its listener paused, after so many healthy checks. -/
def pausedFor (env : Environment) (healthyChecks : ℕ) : StratumV1Service :=
  ⟨[⟨getStratumPort env, none, true⟩], healthyChecks⟩

/-- The listener accepts, or it is paused and waits for more healthy readings. -/
def Follows (env : Environment) (readings : List Reading) (s : StratumV1Service) : Prop :=
  s = accepting env ∨
    (s = pausedFor env (healthyReadings env readings) ∧
      healthyReadings env readings < getBackpressureHealthyChecks env)

section
variable {env : Environment} {readings : List Reading} {r : Reading} {n : ℕ}

theorem healthyReadings_of_unhealthy (unhealthy : r.healthy env = false) :
    healthyReadings env (readings ++ [r]) = 0 := by
  rw [healthyReadings_concat, if_neg (by simp [unhealthy])]

theorem checkBackpressure_accepting : (accepting env).checkBackpressure env r =
    if r.overloaded env then pausedFor env 0 else accepting env := by
  unfold checkBackpressure
  split <;> rfl

/-- Paused, only a healthy reading counts, and the last one that is needed resumes. -/
theorem checkBackpressure_pausedFor : (pausedFor env n).checkBackpressure env r =
    if r.healthy env then
      if getBackpressureHealthyChecks env ≤ n + 1 then accepting env else pausedFor env (n + 1)
    else pausedFor env 0 := by
  unfold checkBackpressure Reading.healthy
  cases overloaded : r.overloaded env <;> cases below : r.belowResume env <;> rfl

theorem Follows.check {s : StratumV1Service} (follows : Follows env readings s) (r : Reading) :
    Follows env (readings ++ [r]) (s.checkBackpressure env r) := by
  rcases follows with rfl | ⟨rfl, few⟩
  · rw [checkBackpressure_accepting]
    split
    · rename_i overloaded
      have none : healthyReadings env (readings ++ [r]) = 0 :=
        healthyReadings_of_unhealthy (by simp [Reading.healthy, overloaded])
      exact .inr ⟨by rw [none], by rw [none]; exact getBackpressureHealthyChecks_pos env⟩
    · exact .inl rfl
  · rw [checkBackpressure_pausedFor]
    split
    · rename_i healthy
      have more : healthyReadings env (readings ++ [r]) = healthyReadings env readings + 1 := by
        rw [healthyReadings_concat, if_pos healthy]
      split
      · exact .inl rfl
      · rename_i still
        exact .inr ⟨by rw [more], by omega⟩
    · rename_i unhealthy
      have none : healthyReadings env (readings ++ [r]) = 0 :=
        healthyReadings_of_unhealthy (Bool.eq_false_iff.mpr unhealthy)
      exact .inr ⟨by rw [none], by rw [none]; exact getBackpressureHealthyChecks_pos env⟩

/-- Without a listener a check changes nothing. -/
theorem foldl_checkBackpressure_initial (before : List Reading) :
    before.foldl (checkBackpressure env) initial = initial := by
  induction before with
  | nil => rfl
  | cons r rest ih =>
    have unchanged : initial.checkBackpressure env r = initial := by
      unfold checkBackpressure
      split <;> rfl
    rw [List.foldl_cons, unchanged, ih]

theorem run_nil (before : List Reading) : run env before [] = accepting env := by
  rw [run, foldl_checkBackpressure_initial]
  rfl

theorem run_concat (before readings : List Reading) (r : Reading) :
    run env before (readings ++ [r]) = (run env before readings).checkBackpressure env r := by
  rw [run, List.foldl_append]
  rfl

theorem follows_run (before readings : List Reading) : Follows env readings (run env before readings) := by
  induction readings using List.reverseRecOn with
  | nil => exact .inl (run_nil before)
  | append_singleton readings r ih =>
    rw [run_concat]
    exact ih.check r

end

end StratumV1Service

/-- **When the listener accepts**: it does from the start, an overloaded reading pauses it, and while
it is paused it resumes at the reading that is the last of as many healthy ones as are required,
counted from the last one that was not. -/
theorem backpressure_iff (env : Environment) (before readings : List Reading) :
    (∃ first, (StratumV1Service.run env before []).listeners = [first] ∧ first.paused = false) ∧
    ∃ listener, (StratumV1Service.run env before readings).listeners = [listener] ∧
      (listener.server = none ↔ listener.paused = true) ∧
      ∀ r, ∃ next, (StratumV1Service.run env before (readings ++ [r])).listeners = [next] ∧
        (listener.paused = false → (next.paused = true ↔ r.overloaded env = true)) ∧
        (listener.paused = true →
          (next.paused = false ↔ healthyReadings env (readings ++ [r]) = getBackpressureHealthyChecks env)) := by
  refine ⟨⟨_, by rw [StratumV1Service.run_nil]; rfl, rfl⟩, ?_⟩
  obtain now | ⟨now, few⟩ : StratumV1Service.Follows env readings (StratumV1Service.run env before readings) :=
    StratumV1Service.follows_run before readings
  · refine ⟨_, by rw [now]; rfl, by simp, fun r => ?_⟩
    rw [StratumV1Service.run_concat, now, StratumV1Service.checkBackpressure_accepting]
    cases overloaded : r.overloaded env
    · exact ⟨_, rfl, by simp, by simp⟩
    · exact ⟨_, rfl, by simp, by simp⟩
  · refine ⟨_, by rw [now]; rfl, by simp, fun r => ?_⟩
    rw [StratumV1Service.run_concat, now, StratumV1Service.checkBackpressure_pausedFor, healthyReadings_concat]
    have required := getBackpressureHealthyChecks_pos env
    cases healthy : r.healthy env
    · exact ⟨_, rfl, by simp, by simp; omega⟩
    · by_cases enough : getBackpressureHealthyChecks env ≤ healthyReadings env readings + 1
      · rw [if_pos rfl, if_pos enough]
        exact ⟨_, rfl, by simp, by simp; omega⟩
      · rw [if_pos rfl, if_neg enough]
        exact ⟨_, rfl, by simp, by simp; omega⟩

end ElektronPool.Stratum
