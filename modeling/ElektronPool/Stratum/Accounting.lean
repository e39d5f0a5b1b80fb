import ElektronPool.Arithmetic.Rounding
import ElektronPool.Stratum.TimeSlots

/-!
# What the accounting takes in

`getAccounting` adds up the rows whose time is at most ten minutes, or an hour, ago. The time of a
row is the start of its slot, and its shares came in up to ten minutes later: while the bound is
inside a slot, the shares that came in behind it are left out together with the row.
-/

namespace ElektronPool.Stratum
set_option autoImplicit false
open Js Async

/-! ## getAccounting -/

/-- The columns by which the rows are selected. -/
structure StatisticsKey where
  address : String
  clientName : String
  sessionId : String
  deriving DecidableEq

/-- A row of `client_statistics_entity`. -/
structure ClientStatisticsEntity where
  key : StatisticsKey
  row : StatisticsRow
  deriving DecidableEq

/-- The where clauses of `getAccountingForPool`, `getAccountingForAddress`, `getAccountingForGroup` and
`getAccountingForSession`. -/
inductive WhereClause where
  | pool
  | address (address : String)
  | group (address clientName : String)
  | session (address clientName sessionId : String)
  deriving DecidableEq

def WhereClause.selects (key : StatisticsKey) : WhereClause → Bool
  | .pool => true
  | .address miner => key.address = miner
  | .group miner worker => key.address = miner ∧ key.clientName = worker
  | .session miner worker id => key.address = miner ∧ key.clientName = worker ∧ key.sessionId = id

/-- The row that the query returns. -/
structure AccountingRow where
  totalCreditedDifficulty : Number
  totalAcceptedShares : ℕ
  creditedDifficultyLastHour : Number
  sharesLast10Minutes : Number
  acceptedSharesLast10Minutes : ℕ

structure Accounting where
  totalCreditedDifficulty : Number
  totalAcceptedShares : ℕ
  creditedDifficultyLastHour : Number
  acceptedSharesLast10Minutes : ℕ
  hashRateLast10Minutes : Number
  hashRateLastHour : Number

def tenMinutes : ℤ := 10 * 60 * 1000

def oneHour : ℤ := 60 * 60 * 1000

/-- `SUM(CASE WHEN time >= since THEN shares ELSE 0 END)`. -/
def sumShares (rows : List StatisticsRow) (since : ℤ) : Number :=
  sumOf (rows.map fun row => if since ≤ row.time then row.shares else .fin 0)

/-- `SUM(CASE WHEN time >= since THEN acceptedCount ELSE 0 END)`. -/
def sumAccepted (rows : List StatisticsRow) (since : ℤ) : ℕ :=
  (rows.map fun row => if since ≤ row.time then row.acceptedCount else 0).sum

/-- The rows of a where clause. -/
def selected (whereClause : WhereClause) (table : List ClientStatisticsEntity) : List StatisticsRow :=
  (table.filter fun e => whereClause.selects e.key).map (·.row)

/-- The query of `getAccounting`. The clock is read once for each of the two times, and goes on by `ms`
in between. -/
def accountingQuery (whereClause : WhereClause) (table : List ClientStatisticsEntity) (now : ℤ) (ms : ℕ) : AccountingRow :=
  let tenMinutesAgo := now - tenMinutes
  let oneHourAgo := now + ms - oneHour
  let rows := selected whereClause table
  { totalCreditedDifficulty := sumOf (rows.map (·.shares))
    totalAcceptedShares := (rows.map (·.acceptedCount)).sum
    creditedDifficultyLastHour := sumShares rows oneHourAgo
    sharesLast10Minutes := sumShares rows tenMinutesAgo
    acceptedSharesLast10Minutes := sumAccepted rows tenMinutesAgo }

def getAccounting (whereClause : WhereClause) (table : List ClientStatisticsEntity) (now : ℤ) (ms : ℕ) : Accounting :=
  let row := accountingQuery whereClause table now ms
  { totalCreditedDifficulty := row.totalCreditedDifficulty
    totalAcceptedShares := row.totalAcceptedShares
    creditedDifficultyLastHour := row.creditedDifficultyLastHour
    acceptedSharesLast10Minutes := row.acceptedSharesLast10Minutes
    hashRateLast10Minutes := (row.sharesLast10Minutes.mul (.fin 4294967296)).div (.fin (10 * 60))
    hashRateLastHour := (row.creditedDifficultyLastHour.mul (.fin 4294967296)).div (.fin (60 * 60)) }

/-! ## The sums -/

/-- What is added up is a double at every point, so the zeros change nothing. -/
theorem sumShares_eq (rows : List StatisticsRow) (since : ℤ) :
    sumShares rows since = sumOf ((rows.filter fun row => since ≤ row.time).map (·.shares)) := by
  have from_double : ∀ (rows : List StatisticsRow) (total : Number), total.isDouble = true →
      (rows.map fun row => if since ≤ row.time then row.shares else .fin 0).foldl Number.add total =
        ((rows.filter fun row => since ≤ row.time).map (·.shares)).foldl Number.add total := by
    intro rows
    induction rows with
    | nil => exact fun _ _ => rfl
    | cons row rows ih =>
      intro total double
      rw [List.map_cons, List.foldl_cons, ih _ (Number.isDouble_add _ _)]
      by_cases late : since ≤ row.time
      · simp [late]
      · simp [late, Number.add_zero_of_isDouble double]
  exact from_double rows (.fin 0) (by simp [Number.isDouble, Number.round_zero])

theorem sumAccepted_eq (rows : List StatisticsRow) (since : ℤ) :
    sumAccepted rows since = ((rows.filter fun row => since ≤ row.time).map (·.acceptedCount)).sum := by
  induction rows with
  | nil => rfl
  | cons row rows ih =>
    rw [sumAccepted, List.map_cons, List.sum_cons]
    by_cases late : since ≤ row.time
    · simp [late, ← ih, sumAccepted]
    · simp [late, ← ih, sumAccepted]

/-! ## The shares behind the rows -/

/-- A share as it comes in. -/
structure AcceptedShare where
  time : ℤ
  difficulty : Number
  deriving DecidableEq

def AcceptedShare.slotShare (x : AcceptedShare) : SlotShare := ⟨timeSlot x.time, x.difficulty⟩

def AddShares.acceptance (s : SavedSession) : AddShares → StatisticsAnswer → List AcceptedShare
  | .addShares d, .ran first _ _ => [⟨s.session.now + first, d⟩]
  | _, _ => []

/-- The shares of a session in the order in which they come in, each with its time. -/
def acceptances (log : List AcceptedShare) (p : SavedSessions) (e : Event AddShares StatisticsAnswer)
    (_ : SavedSessions) : List AcceptedShare :=
  match e with
  | .start _ => log
  | .resume k a => p.calls[k]?.elim log fun t => log ++ t.acceptance p.shared a

/-- The rows account for the shares: one row for each slot, with its shares. -/
structure Saved (rows : List StatisticsRow) (log : List AcceptedShare) : Prop where
  once : (rows.map (·.time)).Nodup
  every : ∀ x ∈ log, timeSlot x.time ∈ rows.map (·.time)
  shares : ∀ row ∈ rows, row.shares = sumOf (sharesIn (log.map (·.slotShare)) row.time)
  acceptedCount : ∀ row ∈ rows, row.acceptedCount = (sharesIn (log.map (·.slotShare)) row.time).length

/-- The slots of the shares are the record of the same run. -/
theorem reaches_arrivals {ok : SavedSessions → Event AddShares StatisticsAnswer → Prop} {p₀ p : SavedSessions}
    {log : List AcceptedShare}
    (run : Reaches (recording SavedSessions.step acceptances) (fun q e => ok q.1 e) (p₀, []) (p, log)) :
    Reaches (recording SavedSessions.step arrivals) (fun q e => ok q.1 e) (p₀, []) (p, log.map (·.slotShare)) := by
  have each : ∀ (t : AddShares) (s : SavedSession) (a : StatisticsAnswer),
      (t.acceptance s a).map (·.slotShare) = t.arrival s a := by
    intro t s a
    cases t <;> cases a <;> rfl
  refine run.map_recording (List.map (·.slotShare)) fun log p e p' => ?_
  cases e with
  | start t => rfl
  | resume k a =>
    cases here : p.calls[k]? <;> simp [acceptances, arrivals, here, ← each]

/-- The rows of a session all of whose calls have returned, once the counters are in the row of the
current slot. -/
theorem saved_of_accounted {statistics : ClientStatistics} {rows : List StatisticsRow} {log : List AcceptedShare}
    (accounted : Accounted statistics rows (log.map (·.slotShare))) (written : ∀ row ∈ statistics.row, row ∈ rows) :
    Saved rows log := by
  have counted : ∀ row ∈ rows, row.shares = sumOf (sharesIn (log.map (·.slotShare)) row.time) ∧
      row.acceptedCount = (sharesIn (log.map (·.slotShare)) row.time).length := by
    intro row member
    have seen : row.time ∈ (log.map (·.slotShare)).map (·.slot) :=
      (accounted.every row.time).mp (List.mem_map_of_mem member)
    obtain ⟨current, latest⟩ := Option.isSome_iff_exists.mp (List.isSome_max?_of_mem seen)
    have is_current : current ∈ statistics.currentTimeSlot := accounted.latest.trans latest
    obtain before | same := lt_or_eq_of_le ((List.max?_eq_some_iff.mp latest).2 _ seen)
    · exact accounted.earlier current is_current row member before
    · have saved : ⟨current, statistics.shares, statistics.acceptedCount⟩ ∈ rows :=
        written _ (row_eq_some.mpr ⟨is_current, rfl, rfl⟩)
      have only : row = ⟨current, statistics.shares, statistics.acceptedCount⟩ :=
        List.inj_on_of_nodup_map accounted.once member saved same
      rw [only]
      exact accounted.current current is_current
  refine ⟨accounted.once, fun x member => ?_, fun row member => (counted row member).1, fun row member =>
    (counted row member).2⟩
  exact (accounted.every _).mpr (List.mem_map_of_mem (List.mem_map_of_mem member))

/-- The number of shares that the rows from a time on account for. -/
theorem Saved.sumAccepted_eq {rows : List StatisticsRow} {log : List AcceptedShare} (saved : Saved rows log) (since : ℤ) :
    sumAccepted rows since = (log.filter fun x => since ≤ timeSlot x.time).length := by
  set late := rows.filter fun row => since ≤ row.time
  set shares := log.filter fun x => since ≤ timeSlot x.time
  have once : (late.map (·.time)).Nodup := saved.once.sublist (List.filter_sublist.map _)
  have covers : ∀ x ∈ shares, timeSlot x.time ∈ (late.map (·.time)).toFinset := by
    intro x member
    obtain ⟨came, since_le⟩ := List.mem_filter.mp member
    obtain ⟨row, row_member, same⟩ := List.mem_map.mp (saved.every x came)
    rw [List.mem_toFinset, ← same]
    refine List.mem_map_of_mem (List.mem_filter.mpr ⟨row_member, ?_⟩)
    rwa [same]
  have each : ∀ row ∈ late, row.acceptedCount =
      ((shares.filter fun x => timeSlot x.time = row.time).map fun _ => 1).sum := by
    intro row member
    obtain ⟨row_member, since_le⟩ := List.mem_filter.mp member
    have all : (shares.filter fun x => timeSlot x.time = row.time) = log.filter fun x => timeSlot x.time = row.time := by
      rw [List.filter_filter]
      refine List.filter_congr fun x _ => ?_
      by_cases same : timeSlot x.time = row.time
      · simpa [same] using since_le
      · simp [same]
    rw [saved.acceptedCount row row_member, all]
    simp [sharesIn, List.filter_map, Function.comp_def, AcceptedShare.slotShare]
  have groups := Rounding.sum_groups (fun x : AcceptedShare => timeSlot x.time) (fun _ => 1) covers
  rw [List.sum_toFinset _ once, List.map_map] at groups
  rw [Stratum.sumAccepted_eq, List.map_congr_left each]
  refine groups.trans ?_
  simp

/-! ## Whether a share is taken in -/

/-- A session's statistics at the time of a query, with its shares: what the calls of `addShares` have
come to in some order, all of it saved. The rows with its key are its own. -/
structure RecordedSession where
  key : StatisticsKey
  began : ℤ
  sessionDifficulty : Number
  sessions : SavedSessions
  log : List AcceptedShare
  run : Reaches (recording SavedSessions.step acceptances) Always (.initial began sessionDifficulty, []) (sessions, log)
  saved : Saved sessions.shared.rows log

namespace RecordedSession

def rows (s : RecordedSession) : List StatisticsRow := s.sessions.shared.rows

/-- The table with the rows of all sessions. -/
def table (sessions : List RecordedSession) : List ClientStatisticsEntity :=
  sessions.flatMap fun s => s.rows.map fun row => ⟨s.key, row⟩

/-- The shares that a where clause is about. -/
def accepted (whereClause : WhereClause) (sessions : List RecordedSession) : List AcceptedShare :=
  (sessions.filter fun s => whereClause.selects s.key).flatMap (·.log)

/-- The rows that a sum from a time on adds up, each with its session. -/
def addedUp (whereClause : WhereClause) (sessions : List RecordedSession) (since : ℤ) :
    List (RecordedSession × StatisticsRow) :=
  (sessions.filter fun s => whereClause.selects s.key).flatMap fun s =>
    (s.rows.filter fun row => since ≤ row.time).map fun row => (s, row)

/-- The sum takes a share in: it adds up the row of the share's slot, with all the shares of the slot. -/
def Includes (whereClause : WhereClause) (sessions : List RecordedSession) (since : ℤ) (s : RecordedSession)
    (x : AcceptedShare) : Prop :=
  ∃ row, (s, row) ∈ addedUp whereClause sessions since ∧ row.time = timeSlot x.time ∧
    row.shares = sumOf (sharesIn (s.log.map (·.slotShare)) row.time)

section
variable {whereClause : WhereClause} {sessions : List RecordedSession} {since : ℤ}

theorem selected_table : selected whereClause (table sessions) =
    (sessions.filter fun s => whereClause.selects s.key).flatMap (·.rows) := by
  induction sessions with
  | nil => rfl
  | cons s sessions ih =>
    have split : selected whereClause (table (s :: sessions)) =
        (if whereClause.selects s.key then s.rows else []) ++ selected whereClause (table sessions) := by
      simp only [selected, table, List.flatMap_cons, List.filter_append, List.map_append, List.filter_map,
        Function.comp_def, List.map_map]
      cases chosen : whereClause.selects s.key <;> simp
    rw [split, ih]
    cases chosen : whereClause.selects s.key <;> simp [chosen]

/-- The values of the sum are those of the rows that are added up. -/
theorem sumShares_table : sumShares (selected whereClause (table sessions)) since =
    sumOf ((addedUp whereClause sessions since).map (·.2.shares)) := by
  rw [sumShares_eq, selected_table, addedUp]
  simp [List.filter_flatMap, List.map_flatMap, Function.comp_def]

theorem sumAccepted_table : sumAccepted (selected whereClause (table sessions)) since =
    ((accepted whereClause sessions).filter fun x => since ≤ timeSlot x.time).length := by
  rw [selected_table, accepted]
  generalize sessions.filter (fun s => whereClause.selects s.key) = chosen
  induction chosen with
  | nil => rfl
  | cons s chosen ih =>
    simp only [sumAccepted, List.flatMap_cons, List.map_append, List.sum_append, List.filter_append, List.length_append]
      at ih ⊢
    rw [ih]
    exact congrArg (· + _) (s.saved.sumAccepted_eq since)

/-- A share is taken in exactly if its slot starts in time. -/
theorem includes_iff {s : RecordedSession} {x : AcceptedShare} (member : s ∈ sessions)
    (chosen : whereClause.selects s.key) (came : x ∈ s.log) :
    Includes whereClause sessions since s x ↔ since ≤ timeSlot x.time := by
  constructor
  · rintro ⟨row, added, same, -⟩
    obtain ⟨s', -, inner⟩ := List.mem_flatMap.mp added
    obtain ⟨row', late, pair⟩ := List.mem_map.mp inner
    cases pair
    rw [← same]
    exact of_decide_eq_true (List.mem_filter.mp late).2
  · intro late
    obtain ⟨row, row_member, same⟩ := List.mem_map.mp (s.saved.every x came)
    refine ⟨row, ?_, same, s.saved.shares row row_member⟩
    refine List.mem_flatMap.mpr ⟨s, List.mem_filter.mpr ⟨member, chosen⟩, ?_⟩
    refine List.mem_map_of_mem (List.mem_filter.mpr ⟨row_member, ?_⟩)
    rw [same]
    exact decide_eq_true late

end

end RecordedSession

/-- The accounting takes in what has come in during its times. -/
structure IncludesRecent (whereClause : WhereClause) (sessions : List RecordedSession) (now : ℤ) (ms : ℕ) : Prop where
  sharesLast10Minutes : ∀ s ∈ sessions, whereClause.selects s.key → ∀ x ∈ s.log, now - tenMinutes ≤ x.time →
    RecordedSession.Includes whereClause sessions (now - tenMinutes) s x
  acceptedSharesLast10Minutes :
    (getAccounting whereClause (RecordedSession.table sessions) now ms).acceptedSharesLast10Minutes =
      ((RecordedSession.accepted whereClause sessions).filter fun x => now - tenMinutes ≤ x.time).length
  creditedDifficultyLastHour : ∀ s ∈ sessions, whereClause.selects s.key → ∀ x ∈ s.log, now + ms - oneHour ≤ x.time →
    RecordedSession.Includes whereClause sessions (now + ms - oneHour) s x

section
variable {whereClause : WhereClause} {sessions : List RecordedSession} {now : ℤ}

theorem timeSlot_le (date : ℤ) : timeSlot date ≤ date := Int.ediv_mul_le date (by decide)

/-- **The accounting takes in what it should** exactly if no share of its times belongs to a slot that
began before them. -/
theorem includesRecent_iff (ms : ℕ) : IncludesRecent whereClause sessions now ms ↔
    ∀ x ∈ RecordedSession.accepted whereClause sessions,
      (now - tenMinutes ≤ x.time → now - tenMinutes ≤ timeSlot x.time) ∧
      (now + ms - oneHour ≤ x.time → now + ms - oneHour ≤ timeSlot x.time) := by
  constructor
  · intro h x member
    obtain ⟨s, chosen, came⟩ := List.mem_flatMap.mp member
    obtain ⟨s_member, selects⟩ := List.mem_filter.mp chosen
    constructor
    · intro recent
      exact (RecordedSession.includes_iff s_member selects came).mp (h.sharesLast10Minutes s s_member selects x came recent)
    · intro recent
      exact (RecordedSession.includes_iff s_member selects came).mp
        (h.creditedDifficultyLastHour s s_member selects x came recent)
  · intro h
    have seen : ∀ s ∈ sessions, whereClause.selects s.key → ∀ x ∈ s.log,
        x ∈ RecordedSession.accepted whereClause sessions := by
      intro s member selects x came
      exact List.mem_flatMap.mpr ⟨s, List.mem_filter.mpr ⟨member, selects⟩, came⟩
    constructor
    · intro s member selects x came recent
      exact (RecordedSession.includes_iff member selects came).mpr ((h x (seen s member selects x came)).1 recent)
    · show sumAccepted (selected whereClause (RecordedSession.table sessions)) (now - tenMinutes) = _
      rw [RecordedSession.sumAccepted_table]
      refine congrArg List.length (List.filter_congr fun x member => decide_eq_decide.mpr ⟨fun late => ?_, (h x member).1⟩)
      exact late.trans (timeSlot_le x.time)
    · intro s member selects x came recent
      exact (RecordedSession.includes_iff member selects came).mpr ((h x (seen s member selects x came)).2 recent)

/-- Nothing is left out when a slot has just begun. -/
theorem includesRecent_of_dvd (boundary : coeff ∣ now) : IncludesRecent whereClause sessions now 0 := by
  have begins : ∀ since date : ℤ, coeff ∣ since → since ≤ date → since ≤ timeSlot date := by
    rintro since date ⟨slots, rfl⟩ le
    have positive : 0 < coeff := by decide
    have fits : slots ≤ date / coeff := (Int.le_ediv_iff_mul_le positive).mpr (by linarith)
    rw [timeSlot]
    nlinarith
  refine (includesRecent_iff 0).mpr fun x _ => ⟨begins _ _ ?_, begins _ _ ?_⟩
  · exact dvd_sub boundary (by decide)
  · exact dvd_sub (by simpa using boundary) (by decide)

end

/-- The statistics of a session at a time when all its calls have returned and its counters are saved. -/
def RecordedSession.ofOnTime (key : StatisticsKey) {began : ℤ} {sessionDifficulty : Number} {sessions : SavedSessions}
    {log : List AcceptedShare}
    (run : Reaches (recording SavedSessions.step acceptances) (fun q e => OnTime q.1 e)
      (.initial began sessionDifficulty, []) (sessions, log))
    (returned : ∀ t ∈ sessions.calls, t = .returned)
    (written : ∀ row ∈ sessions.shared.session.statistics.row, row ∈ sessions.shared.rows) : RecordedSession where
  key := key
  began := began
  sessionDifficulty := sessionDifficulty
  sessions := sessions
  log := log
  run := run.mono fun _ _ _ => trivial
  saved := saved_of_accounted (accounted_of_onTime (reaches_arrivals run) returned) written

/-- A share nine minutes into its slot, and a query two minutes later. -/
theorem not_includesRecent : ¬ ∀ (whereClause : WhereClause) (sessions : List RecordedSession) (now : ℤ) (ms : ℕ),
    IncludesRecent whereClause sessions now ms := by
  intro claim
  obtain ⟨⟨p, log⟩, run, returned, written, shares⟩ := exists_reaches (recording SavedSessions.step acceptances)
    (fun q e => OnTime q.1 e) (.initial 1700000400000 (.fin 1), [])
    [.start (.addShares (.fin 64)), .resume 0 (.ran 540000 0 0), .resume 0 (.ran 0 0 0)]
    (fun q => (∀ t ∈ q.1.calls, t = .returned) ∧ (∀ row ∈ q.1.shared.session.statistics.row, row ∈ q.1.shared.rows) ∧
      q.2 = [⟨1700000940000, .fin 64⟩]) (by decide +kernel)
  have member : ⟨1700000940000, .fin 64⟩ ∈ RecordedSession.accepted .pool
      [.ofOnTime ⟨"bcrt1qminer", "one", "01"⟩ run returned written] := by
    have came : ⟨1700000940000, .fin 64⟩ ∈ log := by
      rw [show log = _ from shares]
      exact List.mem_singleton_self _
    simpa [RecordedSession.accepted, WhereClause.selects, RecordedSession.ofOnTime] using came
  have recent := ((includesRecent_iff 0).mp (claim .pool _ 1700001060000 0) _ member).1
  exact absurd (recent (by decide)) (by decide)

end ElektronPool.Stratum
