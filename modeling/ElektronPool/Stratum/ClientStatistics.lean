import ElektronPool.Async.Pool
import ElektronPool.Js.Number

/-!
# StratumV1ClientStatistics

Share accounting of one session and the difficulty it suggests. `addShares` awaits the
database, so calls of one session overlap; every `new Date()` is a reading of the session's
clock, which only goes forward.
-/

namespace ElektronPool.Stratum
set_option autoImplicit false
open Js

def cacheSize : ℕ := 30
def targetSubmissionPerSecond : Number := .fin 10
def minDiff : Number := .round (1 / 100000)

structure CacheEntry where
  time : ℤ
  difficulty : Number
  deriving DecidableEq

/-- The fields of the class. A field that is not set yet is `none`. -/
structure ClientStatistics where
  shares : Number
  acceptedCount : ℕ
  submissionCacheStart : ℤ
  submissionCache : List CacheEntry
  currentTimeSlot : Option ℤ
  lastSave : Option ℤ
  hashRate : Number
  previousTimeSlotTime : Option ℤ
  currentTimeSlotTime : Option ℤ
  previousShares : Number
  deriving DecidableEq

def ClientStatistics.new (now : ℤ) : ClientStatistics :=
  ⟨.fin 0, 0, now, [], none, none, .fin 0, none, none, .fin 0⟩

/-! ## addShares -/

/-- Which of its four branches `addShares` takes. -/
inductive Branch where
  | first
  | transition
  | save
  | accumulate
  deriving DecidableEq

/-- Ten minutes. -/
def coeff : ℤ := 1000 * 60 * 10

def timeSlot (date : ℤ) : ℤ := date / coeff * coeff

namespace ClientStatistics

/-- The sliding cache: the oldest entry leaves once there are more than `CACHE_SIZE`. -/
def pushSubmission (s : ClientStatistics) (date : ℤ) (submissionDifficulty : Number) : ClientStatistics :=
  { s with submissionCache :=
      (if cacheSize < s.submissionCache.length then s.submissionCache.drop 1 else s.submissionCache) ++
        [⟨date, submissionDifficulty⟩] }

/-- A `lastSave` that is null counts as zero in the comparison. -/
def branch (s : ClientStatistics) (date : ℤ) : Branch :=
  match s.currentTimeSlot with
  | none => .first
  | some slot =>
    if slot ≠ timeSlot date then .transition
    else if s.lastSave.getD 0 < date - 60 * 1000 then .save
    else .accumulate

/-- The cache has no part in the choice of the branch. -/
theorem branch_pushSubmission (s : ClientStatistics) (date : ℤ) (submissionDifficulty : Number) (at_date : ℤ) :
    (s.pushSubmission date submissionDifficulty).branch at_date = s.branch at_date := rfl

/-- `this.shares += submissionDifficulty; this.acceptedCount++`. -/
def count (s : ClientStatistics) (submissionDifficulty : Number) : ClientStatistics :=
  { s with shares := s.shares.add submissionDifficulty, acceptedCount := s.acceptedCount + 1 }

/-- The hash rate since the previous time slot began, at the reading `now`. -/
def hashRateAt (s : ClientStatistics) (now previous : ℤ) : Number :=
  ((s.previousShares.add s.shares).mul (.fin 4294967296)).div ((Number.round (now - previous)).div (.fin 1000))

end ClientStatistics

/-- Where an `addShares` call stands. -/
inductive AddShares where
  | addShares (submissionDifficulty : Number)
  | insertFirst
  | updatePrevious (timeSlot : ℤ) (submissionDifficulty : Number)
  | insertNext
  | updateCurrent
  | returned
  | rejected
  deriving DecidableEq

/-- A session as far as its statistics and its difficulty go. -/
structure Session where
  now : ℤ
  statistics : ClientStatistics
  sessionDifficulty : Number

/-- How an `addShares` call goes on: the successive clock readings, as milliseconds since the
one before, or a failed statement. -/
inductive StatisticsAnswer where
  | ran (first second third : ℕ)
  | threw
  deriving DecidableEq

namespace AddShares

/-- The call itself, up to its first await. -/
def enter (s : Session) (submissionDifficulty : Number) (first second third : ℕ) : Session × AddShares :=
  let date := s.now + first
  let statistics := s.statistics.pushSubmission date submissionDifficulty
  match statistics.branch date with
  | .first =>
    (⟨date + second + third, { statistics.count submissionDifficulty with
        previousTimeSlotTime := some (date + second)
        currentTimeSlotTime := some (date + second + third)
        currentTimeSlot := some (timeSlot date) }, s.sessionDifficulty⟩, .insertFirst)
  | .transition =>
    (⟨date, statistics, s.sessionDifficulty⟩, .updatePrevious (timeSlot date) submissionDifficulty)
  | .save => (⟨date, statistics.count submissionDifficulty, s.sessionDifficulty⟩, .updateCurrent)
  | .accumulate =>
    let counted := statistics.count submissionDifficulty
    if Number.lt (.fin 0) counted.shares then
      match counted.previousTimeSlotTime with
      | none => (⟨date + second, counted, s.sessionDifficulty⟩, .rejected)
      | some previous =>
        (⟨date + second, { counted with hashRate := counted.hashRateAt (date + second) previous },
          s.sessionDifficulty⟩, .returned)
    else (⟨date, counted, s.sessionDifficulty⟩, .returned)

/-- `this.lastSave = new Date().getTime()`, after the last await. -/
def save (s : Session) (first : ℕ) : Session :=
  ⟨s.now + first, { s.statistics with lastSave := some (s.now + first) }, s.sessionDifficulty⟩

def resume (s : Session) : AddShares → StatisticsAnswer → Option (Session × AddShares)
  | .addShares submissionDifficulty, .ran first second third => some (enter s submissionDifficulty first second third)
  | .insertFirst, .ran first _ _ | .insertNext, .ran first _ _ | .updateCurrent, .ran first _ _ =>
    some (save s first, .returned)
  | .updatePrevious timeSlot submissionDifficulty, .ran first _ _ =>
    some (⟨s.now + first, { s.statistics with
      previousShares := s.statistics.shares
      previousTimeSlotTime := s.statistics.currentTimeSlotTime
      currentTimeSlotTime := some (s.now + first)
      currentTimeSlot := some timeSlot
      shares := submissionDifficulty
      acceptedCount := 1 }, s.sessionDifficulty⟩, .insertNext)
  | .insertFirst, .threw | .updatePrevious .., .threw | .insertNext, .threw | .updateCurrent, .threw =>
    some (s, .rejected)
  | _, _ => none

end AddShares

/-! ## getSuggestedDifficulty -/

/-- The bits of the integer part, spread down from the highest one. A shift by 32 is a shift
by 0. -/
def smear (val : BitVec 32) : BitVec 32 :=
  let x := val ||| val.sshiftRight 1
  let x := x ||| x.sshiftRight 2
  let x := x ||| x.sshiftRight 4
  let x := x ||| x.sshiftRight 8
  let x := x ||| x.sshiftRight 16
  x ||| x.sshiftRight 0

/-- `x - (x >> 1)` after the spreading. -/
def highestPower (val : BitVec 32) : ℤ := (smear val).toInt - ((smear val).sshiftRight 1).toInt

/-- `nearestPowerOfTwo` in at most `frames` nested calls: `none` when the stack overflows,
`some none` for null. A null divided by 100 is zero. -/
def nearestPowerOfTwo : ℕ → Number → Option (Option Number)
  | 0, _ => none
  | frames + 1, val =>
    if val.strictEq (.fin 0) then some none
    else if val.lt minDiff then some (some minDiff)
    else
      let res := highestPower val.toInt32
      if res = 0 ∧ (val.mul (.fin 100)).lt minDiff then some (some minDiff)
      else if res = 0 then
        (nearestPowerOfTwo frames (val.mul (.fin 100))).map fun r => some ((r.getD (.fin 0)).div (.fin 100))
      else some (some (.fin res))

namespace ClientStatistics

/-- The shares per second over the cache, times ten. -/
def targetDifficulty (cache : List CacheEntry) : Number :=
  let sum := cache.foldl (fun (pre : Number) cur => pre.add cur.difficulty) (.fin 0)
  let elapsedMs := (cache.getLast?.map (·.time)).getD 0 - (cache.head?.map (·.time)).getD 0
  (sum.div ((Number.round elapsedMs).div (.fin 1000))).mul targetSubmissionPerSecond

/-- What `getSuggestedDifficulty` passes to `nearestPowerOfTwo`, if it gets that far. -/
def suggestionArgument (s : ClientStatistics) (now : ℤ) (clientDifficulty : Number) : Option Number :=
  if s.submissionCache.length < 5 then
    if Number.lt (.fin 60) ((Number.round (now - s.submissionCacheStart)).div (.fin 1000)) then
      some (clientDifficulty.div (.fin 6))
    else none
  else
    let target := targetDifficulty s.submissionCache
    if (clientDifficulty.mul (.fin 2)).lt target || target.lt (clientDifficulty.div (.fin 2)) then some target
    else none

/-- `getSuggestedDifficulty`, with the clock at `now`. -/
def getSuggestedDifficulty (frames : ℕ) (s : ClientStatistics) (now : ℤ) (clientDifficulty : Number) :
    Option (Option Number) :=
  match s.suggestionArgument now clientDifficulty with
  | none => some none
  | some val => nearestPowerOfTwo frames val

end ClientStatistics

end ElektronPool.Stratum
