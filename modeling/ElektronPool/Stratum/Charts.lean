import ElektronPool.Stratum.Accounting
import Mathlib.Data.List.Sort
import Mathlib.Order.Interval.Finset.Nat
import Mathlib.Data.Int.Interval

/-!
# Charts and retention

A chart adds up the rows of the last day slot by slot and leaves out the newest slot. Against the shares
that came in it has every slot but that one (`chart_of_sessions`). An hourly timer deletes the rows
older than a day, which no chart and none of the recent figures shows (`deletion_unseen`).
-/

namespace ElektronPool.Stratum
set_option autoImplicit false
open Js Async

/-! ## getChartDataFor… -/

def oneDay : ℤ := 24 * 60 * 60 * 1000

structure ChartPoint where
  label : ℤ
  data : Number
  deriving DecidableEq

/-- `GROUP BY time ORDER BY time`: the groups. -/
def groupTimes (rows : List StatisticsRow) : List ℤ := ((rows.map (·.time)).dedup).insertionSort (· ≤ ·)

/-- `(SUM(shares) * 4294967296) / 600`, from the shares of a group. -/
def hashRateOf (shares : List Number) : Number := ((sumOf shares).mul (.fin 4294967296)).div (.fin 600)

/-- `ROUND` of the database: half away from zero, as long as the number can have a fraction. -/
def sqlRound : Number → Number
  | .fin q =>
    if q < -4503599627370496 ∨ 4503599627370496 < q then .fin q
    else match Number.add (.fin q) (.fin (if q < 0 then -1 / 2 else 1 / 2)) with
      | .fin r => .fin (Number.trunc r)
      | other => other
  | other => other

def chartQuery (whereClause : WhereClause) (table : List ClientStatisticsEntity) (now : ℤ) : List ChartPoint :=
  let rows := (selected whereClause table).filter fun row => now - oneDay < row.time
  ((groupTimes rows).take 144).map fun time =>
    ⟨time, hashRateOf ((rows.filter fun row => row.time = time).map (·.shares))⟩

/-- `slice(0, result.length - 1)`. -/
def getChartData (whereClause : WhereClause) (table : List ClientStatisticsEntity) (now : ℤ) : List ChartPoint :=
  (chartQuery whereClause table now).dropLast

def getChartDataForSite (table : List ClientStatisticsEntity) (now : ℤ) : List ChartPoint :=
  (getChartData .pool table now).map fun point => { point with data := sqlRound point.data }

def getChartDataForAddress (table : List ClientStatisticsEntity) (now : ℤ) (address : String) : List ChartPoint :=
  getChartData (.address address) table now

def getChartDataForGroup (table : List ClientStatisticsEntity) (now : ℤ) (address clientName : String) : List ChartPoint :=
  getChartData (.group address clientName) table now

def getChartDataForSession (table : List ClientStatisticsEntity) (now : ℤ) (address clientName sessionId : String) :
    List ChartPoint :=
  getChartData (.session address clientName sessionId) table now

/-! ## The groups -/

section
variable {rows : List StatisticsRow} {now : ℤ}

theorem mem_groupTimes {time : ℤ} : time ∈ groupTimes rows ↔ time ∈ rows.map (·.time) := by
  rw [groupTimes, List.mem_insertionSort, List.mem_dedup]

theorem groupTimes_sorted (rows : List StatisticsRow) : (groupTimes rows).Pairwise (· < ·) := by
  have ordered : (groupTimes rows).Pairwise (· ≤ ·) := List.pairwise_insertionSort _ _
  have distinct : (groupTimes rows).Nodup := (List.perm_insertionSort _ _).nodup_iff.mpr (List.nodup_dedup _)
  exact (ordered.and distinct).imp fun h => lt_of_le_of_ne h.1 h.2

/-- A day has no more slots than the LIMIT lets through. -/
theorem length_groupTimes_le (slots : ∀ row ∈ rows, coeff ∣ row.time)
    (day : ∀ row ∈ rows, now - oneDay < row.time ∧ row.time ≤ now) : (groupTimes rows).length ≤ 144 := by
  have distinct : ((groupTimes rows).map (· / coeff)).Nodup := by
    apply List.Nodup.map_on
    · intro a member b member' same
      obtain ⟨row, here, rfl⟩ := List.mem_map.mp (mem_groupTimes.mp member)
      obtain ⟨row', here', rfl⟩ := List.mem_map.mp (mem_groupTimes.mp member')
      rw [← Int.ediv_mul_cancel (slots row here), same, Int.ediv_mul_cancel (slots row' here')]
    · exact (groupTimes_sorted rows).imp fun lt => lt.ne
  have within : ((groupTimes rows).map (· / coeff)).toFinset ⊆ Finset.Ioc (now / coeff - 144) (now / coeff) := by
    intro quotient member
    obtain ⟨time, grouped, rfl⟩ := List.mem_map.mp (List.mem_toFinset.mp member)
    obtain ⟨row, here, rfl⟩ := List.mem_map.mp (mem_groupTimes.mp grouped)
    obtain ⟨after, upTo⟩ := day row here
    obtain ⟨n, slot⟩ := slots row here
    rw [Finset.mem_Ioc]
    unfold oneDay coeff at *
    omega
  calc (groupTimes rows).length = ((groupTimes rows).map (· / coeff)).toFinset.card := by
        rw [List.toFinset_card_of_nodup distinct, List.length_map]
    _ ≤ (Finset.Ioc (now / coeff - 144) (now / coeff)).card := Finset.card_le_card within
    _ = 144 := by rw [Int.card_Ioc]; omega

end

/-! ## Rows and shares -/

/-- The slot a call will move the session on to. -/
def AddShares.movesTo : AddShares → Option ℤ
  | .updatePrevious slot _ => some slot
  | _ => none

/-- Every slot the session knows of is that of a share that has come in. -/
structure SlotsHaveShares (p : SavedSessions) (log : List SlotShare) : Prop where
  rows : ∀ row ∈ p.shared.rows, row.time ∈ log.map (·.slot)
  current : ∀ slot ∈ p.shared.session.statistics.currentTimeSlot, slot ∈ log.map (·.slot)
  moving : ∀ t ∈ p.calls, ∀ slot ∈ t.movesTo, slot ∈ log.map (·.slot)

theorem map_time_row (s : ClientStatistics) : s.row.map (·.time) = s.currentTimeSlot := by
  rw [ClientStatistics.row, Option.map_map]
  cases s.currentTimeSlot <;> rfl

/-- A statement of a session puts in no other slot than its current one. -/
theorem time_of_statement {s : ClientStatistics} {t : AddShares} {rows : List StatisticsRow} {row : StatisticsRow}
    (member : row ∈ (t.statement s).elim rows (Statement.execute rows)) :
    row.time ∈ rows.map (·.time) ∨ s.currentTimeSlot = some row.time := by
  have inserted : ∀ {new : StatisticsRow}, s.row = some new → row ∈ (Statement.insert new).execute rows →
      row.time ∈ rows.map (·.time) ∨ s.currentTimeSlot = some row.time := by
    intro new current member
    rcases List.mem_append.mp member with old | here
    · exact .inl (List.mem_map_of_mem old)
    · rw [← map_time_row, current, List.mem_singleton.mp here]
      exact .inr rfl
  have updated : ∀ {new : StatisticsRow}, row ∈ (Statement.update new).execute rows → row.time ∈ rows.map (·.time) := by
    intro new member
    rw [← map_time_update rows new]
    exact List.mem_map_of_mem member
  cases current : s.row with
  | none =>
    cases t <;> simp only [AddShares.statement, current, Option.map_none, Option.elim_none] at member <;>
      exact .inl (List.mem_map_of_mem member)
  | some new =>
    cases t with
    | insertFirst | insertNext => exact inserted current (by simpa [AddShares.statement, current] using member)
    | updatePrevious | updateCurrent => exact .inl (updated (by simpa [AddShares.statement, current] using member))
    | addShares | returned | rejected => exact .inl (List.mem_map_of_mem member)

theorem slotsHaveShares_step {p p' : SavedSessions} {log : List SlotShare} {e : Event AddShares StatisticsAnswer}
    (have_shares : SlotsHaveShares p log) (moved : SavedSessions.step p e = some p') :
    SlotsHaveShares p' (arrivals log p e p') := by
  obtain ⟨t, rfl, entry, rfl⟩ | ⟨before, t, after, a, s', t', rfl, calls, resumed, rfl⟩ := Pool.step_cases moved
  · refine ⟨have_shares.rows, have_shares.current, fun u member slot moves => ?_⟩
    rcases List.mem_append.mp member with old | new
    · exact have_shares.moving u old slot moves
    · rw [List.mem_singleton.mp new] at moves
      cases t with
      | addShares => cases moves
      | _ => cases entry
  · have at_k : p.calls[before.length]? = some t := by simp [calls]
    have here : t ∈ p.calls := by simp [calls]
    obtain ⟨first, second, third, session, rfl, step, rfl⟩ := countersStep_of_saves resumed
    have log_eq : arrivals log p (.resume before.length (.ran first second third))
        ⟨⟨session, (t'.statement session.statistics).elim p.shared.rows (Statement.execute p.shared.rows)⟩,
          before ++ t' :: after⟩ = log ++ t.arrival p.shared (.ran first second third) := by
      rw [arrivals, at_k]
      rfl
    rw [log_eq]
    set log' := log ++ t.arrival p.shared (.ran first second third) with log'_eq
    have more : ∀ slot ∈ log.map (·.slot), slot ∈ log'.map (·.slot) := by
      intro slot known
      rw [log'_eq, List.map_append]
      exact List.mem_append_left _ known
    have now : ∀ d, t = .addShares d → timeSlot (p.shared.session.now + first) ∈ log'.map (·.slot) := by
      rintro d rfl
      simp [log'_eq, AddShares.arrival]
    have current : ∀ slot ∈ session.statistics.currentTimeSlot, slot ∈ log'.map (·.slot) := by
      intro slot known
      cases step with
      | @first d _ _ slot_eq _ _ =>
        rw [slot_eq] at known
        cases known
        exact now d rfl
      | transition _ _ _ row =>
        rw [← map_time_row, row, map_time_row] at known
        exact more slot (have_shares.current slot known)
      | count _ _ slot_eq _ _ _ =>
        rw [slot_eq] at known
        exact more slot (have_shares.current slot known)
      | move _ row =>
        rw [← map_time_row, row] at known
        exact more slot (have_shares.moving _ here slot known)
      | save _ _ statistics =>
        rw [statistics] at known
        exact more slot (have_shares.current slot known)
    have moving : ∀ slot ∈ t'.movesTo, slot ∈ log'.map (·.slot) := by
      intro slot moves
      cases step with
      | transition _ _ _ _ =>
        cases moves
        exact now _ rfl
      | count _ _ _ _ _ place => rcases place with rfl | rfl | rfl <;> cases moves
      | first | move | save => cases moves
    refine ⟨?_, current, fun u member slot moves => ?_⟩
    · intro row member
      rcases time_of_statement member with old | is_current
      · obtain ⟨row', member', same⟩ := List.mem_map.mp old
        rw [← same]
        exact more _ (have_shares.rows row' member')
      · exact current _ is_current
    · rcases List.mem_append.mp member with left | right
      · exact more slot (have_shares.moving u (by simp [calls, left]) slot moves)
      · rcases List.mem_cons.mp right with rfl | right
        · exact moving slot moves
        · exact more slot (have_shares.moving u (by simp [calls, right]) slot moves)

/-- A row of a session is that of a share. -/
theorem RecordedSession.share_of_row (s : RecordedSession) {row : StatisticsRow} (member : row ∈ s.rows) :
    ∃ x ∈ s.log, timeSlot x.time = row.time := by
  have have_shares : SlotsHaveShares s.sessions (s.log.map (·.slotShare)) := by
    have every : Reaches (recording SavedSessions.step acceptances) (fun q e => Always q.1 e) _ _ := s.run
    apply (reaches_arrivals every).invariant_recording
    · exact ⟨by simp [SavedSessions.initial], by simp [SavedSessions.initial, ClientStatistics.new],
        by simp [SavedSessions.initial]⟩
    · intro p log e p' have_shares _ moved
      exact slotsHaveShares_step have_shares moved
  have seen := have_shares.rows row member
  rw [List.map_map] at seen
  obtain ⟨x, came, same⟩ := List.mem_map.mp seen
  exact ⟨x, came, same⟩

/-! ## What a chart shows -/

namespace RecordedSession
variable {whereClause : WhereClause} {sessions : List RecordedSession} {now slot : ℤ}

/-- The session has shares in a slot. -/
def HasShares (s : RecordedSession) (slot : ℤ) : Prop := ∃ x ∈ s.log, timeSlot x.time = slot

instance (s : RecordedSession) (slot : ℤ) : Decidable (s.HasShares slot) :=
  inferInstanceAs (Decidable (∃ x ∈ s.log, _))

/-- The one row of a session for a slot, if it has shares in it. -/
theorem shares_of_slot (s : RecordedSession) (slot : ℤ) : (s.rows.filter fun row => row.time = slot).map (·.shares) =
    if s.HasShares slot then [sumOf (sharesIn (s.log.map (·.slotShare)) slot)] else [] := by
  split
  · rename_i has
    obtain ⟨x, came, same⟩ := has
    obtain ⟨row, member, time⟩ := List.mem_map.mp (s.saved.every x came)
    have rows_once : s.rows.Nodup := List.Nodup.of_map _ s.saved.once
    have only : (s.rows.filter fun row => row.time = slot) = [row] := by
      calc (s.rows.filter fun row => row.time = slot) = s.rows.filter (· = row) := by
            refine List.filter_congr fun other here => decide_eq_decide.mpr ⟨fun at_slot => ?_, ?_⟩
            · exact List.inj_on_of_nodup_map s.saved.once here member (at_slot.trans (time.trans same).symm)
            · rintro rfl
              exact time.trans same
        _ = List.replicate (List.count row s.rows) row := List.filter_eq row
        _ = [row] := by rw [List.count_eq_one_of_mem rows_once member]; rfl
    rw [only, List.map_singleton, s.saved.shares row member, time, same]
  · rename_i none
    rw [List.map_eq_nil_iff, List.filter_eq_nil_iff]
    intro row member same
    obtain ⟨x, came, time⟩ := s.share_of_row member
    exact none ⟨x, came, time.trans (of_decide_eq_true same)⟩

/-- The rows of a chart are those of the slots of the last day. -/
theorem mem_slots_iff {slot : ℤ} : slot ∈ ((selected whereClause (table sessions)).filter fun row =>
      now - oneDay < row.time).map (·.time) ↔
    now - oneDay < slot ∧ ∃ s ∈ sessions, whereClause.selects s.key ∧ s.HasShares slot := by
  rw [selected_table]
  simp only [List.mem_map, List.mem_filter, List.mem_flatMap, decide_eq_true_eq]
  constructor
  · rintro ⟨row, ⟨⟨s, ⟨member, chosen⟩, own⟩, late⟩, rfl⟩
    exact ⟨late, s, member, chosen, s.share_of_row own⟩
  · rintro ⟨late, s, member, chosen, x, came, rfl⟩
    obtain ⟨row, own, same⟩ := List.mem_map.mp (s.saved.every x came)
    exact ⟨row, ⟨⟨s, ⟨member, chosen⟩, own⟩, same ▸ late⟩, same⟩

/-- The sum of a slot adds up, session by session, what came in. -/
theorem shares_of_group (late : now - oneDay < slot) :
    (((selected whereClause (table sessions)).filter fun row => now - oneDay < row.time).filter
      fun row => row.time = slot).map (·.shares) =
    (sessions.filter fun s => whereClause.selects s.key ∧ s.HasShares slot).map
      fun s => sumOf (sharesIn (s.log.map (·.slotShare)) slot) := by
  have same_rows : (((selected whereClause (table sessions)).filter fun row => now - oneDay < row.time).filter
      fun row => row.time = slot) = (selected whereClause (table sessions)).filter fun row => row.time = slot := by
    rw [List.filter_filter]
    refine List.filter_congr fun row _ => ?_
    by_cases here : row.time = slot
    · simp [here, late]
    · simp [here]
  rw [same_rows, selected_table]
  clear same_rows
  induction sessions with
  | nil => rfl
  | cons s sessions ih =>
    by_cases chosen : whereClause.selects s.key
    · by_cases has : s.HasShares slot
      · simp [chosen, has, shares_of_slot, ih]
      · simp [chosen, has, shares_of_slot, ih]
    · simp [chosen, ih]

end RecordedSession

/-- The statements of all sessions, and that of the hourly timer. -/
inductive TableStatement where
  | insert (entity : ClientStatisticsEntity)
  | update (entity : ClientStatisticsEntity)
  | deleteOldStatistics
  deriving DecidableEq

structure TimedStatement where
  now : ℤ
  statement : TableStatement
  deriving DecidableEq

namespace TimedStatement

def execute (table : List ClientStatisticsEntity) (s : TimedStatement) : List ClientStatisticsEntity :=
  match s.statement with
  | .insert entity => table ++ [entity]
  | .update entity => table.map fun old => if old.key = entity.key ∧ old.row.time = entity.row.time then entity else old
  | .deleteOldStatistics => table.filter fun old => ¬ old.row.time < s.now - oneDay

def isDelete (s : TimedStatement) : Bool := decide (s.statement = .deleteOldStatistics)

def executeAll (table : List ClientStatisticsEntity) (statements : List TimedStatement) : List ClientStatisticsEntity :=
  statements.foldl execute table

end TimedStatement

/-- The rows from a time on. -/
def since (time : ℤ) (table : List ClientStatisticsEntity) : List ClientStatisticsEntity :=
  table.filter fun entity => time ≤ entity.row.time

section
variable {table table' : List ClientStatisticsEntity} {time later now : ℤ}

theorem since_of_le (same : since time table = since time table') (le : time ≤ later) :
    since later table = since later table' := by
  have narrowed : ∀ t, since later t = (since time t).filter fun entity => later ≤ entity.row.time := by
    intro t
    rw [since, since, List.filter_filter]
    refine List.filter_congr fun entity _ => ?_
    by_cases recent : later ≤ entity.row.time
    · simp [recent, le.trans recent]
    · simp [recent]
  rw [narrowed, same, ← narrowed]

theorem since_update (entity : ClientStatisticsEntity) (table : List ClientStatisticsEntity) :
    since time (TimedStatement.execute table ⟨now, .update entity⟩) =
      TimedStatement.execute (since time table) ⟨now, .update entity⟩ := by
  simp only [since, TimedStatement.execute, List.filter_map]
  congr 1
  refine List.filter_congr fun old _ => ?_
  simp only [Function.comp_apply]
  split
  · rename_i here
    rw [here.2]
  · rfl

/-- A deletion leaves the rows of the last day. -/
theorem since_delete (le : now - oneDay ≤ time) :
    since time (TimedStatement.execute table ⟨now, .deleteOldStatistics⟩) = since time table := by
  simp only [since, TimedStatement.execute, List.filter_filter]
  refine List.filter_congr fun old _ => ?_
  by_cases recent : time ≤ old.row.time
  · have kept : ¬ old.row.time < now - oneDay := not_lt.mpr (le.trans recent)
    simp [recent, kept]
  · simp [recent]

/-- One statement beside the same statement, unless it deletes. -/
theorem since_execute (s : TimedStatement) (same : since (s.now - oneDay) table = since (s.now - oneDay) table') :
    since (s.now - oneDay) (s.execute table) =
      since (s.now - oneDay) (if s.isDelete then table' else s.execute table') := by
  obtain ⟨now, statement⟩ := s
  cases statement with
  | insert entity =>
    show since _ (table ++ [entity]) = since _ (table' ++ [entity])
    simp only [since, List.filter_append] at same ⊢
    rw [same]
  | update entity =>
    show since _ (TimedStatement.execute table ⟨now, .update entity⟩) =
      since _ (TimedStatement.execute table' ⟨now, .update entity⟩)
    rw [since_update, since_update, same]
  | deleteOldStatistics =>
    show since _ (TimedStatement.execute table ⟨now, .deleteOldStatistics⟩) = since _ table'
    rw [since_delete (le_refl _), same]

/-- Without the deletions, the table of the last day is the same. -/
theorem since_executeAll {statements : List TimedStatement} (ordered : (statements.map (·.now)).Pairwise (· ≤ ·))
    (before : ∀ s ∈ statements, time ≤ s.now - oneDay) (same : since time table = since time table')
    (after : ∀ s ∈ statements, s.now - oneDay ≤ later) (le : time ≤ later) :
    since later (TimedStatement.executeAll table statements) =
      since later (TimedStatement.executeAll table' (statements.filter fun s => ¬ s.isDelete)) := by
  induction statements generalizing time table table' with
  | nil => exact since_of_le same le
  | cons s rest ih =>
    obtain ⟨first, ordered⟩ := List.pairwise_cons.mp ordered
    have now := since_execute s (since_of_le same (before s List.mem_cons_self))
    have next : since later (TimedStatement.executeAll (s.execute table) rest) = since later
        (TimedStatement.executeAll (if s.isDelete then table' else s.execute table') (rest.filter fun s => ¬ s.isDelete)) := by
      refine ih ordered (fun s' member => ?_) now (fun s' member => after s' (List.mem_cons_of_mem _ member))
        (after s List.mem_cons_self)
      have later_one : s.now ≤ s'.now := first s'.now (List.mem_map_of_mem member)
      omega
    rw [TimedStatement.executeAll, List.foldl_cons]
    refine next.trans ?_
    cases deletes : s.isDelete <;> simp [deletes, TimedStatement.executeAll]

theorem selected_since {whereClause : WhereClause} (time : ℤ) (p : StatisticsRow → Bool)
    (recent : ∀ row, p row = true → time ≤ row.time) :
    (selected whereClause table).filter p = (selected whereClause (since time table)).filter p := by
  simp only [selected, since, List.filter_map, List.filter_filter]
  congr 1
  refine List.filter_congr fun entity _ => ?_
  cases asked : p entity.row with
  | false => simp [asked]
  | true => simp [asked, recent _ asked]

/-- What is shown of the last day depends on its rows only. -/
theorem chartQuery_since {whereClause : WhereClause} (le : time ≤ now - oneDay) :
    chartQuery whereClause table now = chartQuery whereClause (since time table) now := by
  rw [chartQuery, selected_since time _ fun row late => ?_, ← chartQuery]
  have : now - oneDay < row.time := of_decide_eq_true late
  omega

theorem sumShares_since {whereClause : WhereClause} (le : time ≤ later) :
    sumShares (selected whereClause table) later = sumShares (selected whereClause (since time table)) later := by
  rw [sumShares_eq, sumShares_eq, selected_since time _ fun row late => ?_]
  exact le.trans (of_decide_eq_true late)

theorem sumAccepted_since {whereClause : WhereClause} (le : time ≤ later) :
    sumAccepted (selected whereClause table) later = sumAccepted (selected whereClause (since time table)) later := by
  rw [Stratum.sumAccepted_eq, Stratum.sumAccepted_eq, selected_since time _ fun row late => ?_]
  exact le.trans (of_decide_eq_true late)

end

/-- **Deleting old statistics is not seen.** Whatever the sessions insert and update and whenever the timer deletes, every
chart and every recent figure is what it would be if nothing had ever been deleted. -/
theorem deletion_unseen {statements : List TimedStatement} {now : ℤ}
    (ordered : (statements.map (·.now)).Pairwise (· ≤ ·)) (past : ∀ s ∈ statements, s.now ≤ now)
    (table : List ClientStatisticsEntity) (whereClause : WhereClause) (ms : ℕ) :
    let deleted := TimedStatement.executeAll table statements
    let kept := TimedStatement.executeAll table (statements.filter fun s => ¬ s.isDelete)
    getChartData whereClause deleted now = getChartData whereClause kept now ∧
    getChartDataForSite deleted now = getChartDataForSite kept now ∧
    (getAccounting whereClause deleted now ms).creditedDifficultyLastHour =
      (getAccounting whereClause kept now ms).creditedDifficultyLastHour ∧
    (getAccounting whereClause deleted now ms).acceptedSharesLast10Minutes =
      (getAccounting whereClause kept now ms).acceptedSharesLast10Minutes ∧
    (getAccounting whereClause deleted now ms).hashRateLast10Minutes =
      (getAccounting whereClause kept now ms).hashRateLast10Minutes ∧
    (getAccounting whereClause deleted now ms).hashRateLastHour = (getAccounting whereClause kept now ms).hashRateLastHour := by
  intro deleted kept
  have same : since (now - oneDay) deleted = since (now - oneDay) kept := by
    cases statements with
    | nil => rfl
    | cons first rest =>
      have least : ∀ s ∈ first :: rest, first.now - oneDay ≤ s.now - oneDay := by
        intro s member
        rcases List.mem_cons.mp member with rfl | later
        · exact le_refl _
        · have later_one : first.now ≤ s.now := (List.pairwise_cons.mp ordered).1 s.now (List.mem_map_of_mem later)
          omega
      refine since_executeAll ordered least rfl (fun s member => ?_) ?_
      · have := past s member
        omega
      · have := past first List.mem_cons_self
        omega
  have charts : ∀ clause, getChartData clause deleted now = getChartData clause kept now := by
    intro clause
    rw [getChartData, chartQuery_since (le_refl _), same, ← chartQuery_since (le_refl _), ← getChartData]
  have hour : sumShares (selected whereClause deleted) (now + ms - oneHour) =
      sumShares (selected whereClause kept) (now + ms - oneHour) := by
    have le : now - oneDay ≤ now + ms - oneHour := by
      unfold oneDay oneHour
      omega
    rw [sumShares_since le, same, ← sumShares_since le]
  have recent : now - oneDay ≤ now - tenMinutes := by
    unfold oneDay tenMinutes
    omega
  have shares : sumShares (selected whereClause deleted) (now - tenMinutes) =
      sumShares (selected whereClause kept) (now - tenMinutes) := by
    rw [sumShares_since recent, same, ← sumShares_since recent]
  have accepted : sumAccepted (selected whereClause deleted) (now - tenMinutes) =
      sumAccepted (selected whereClause kept) (now - tenMinutes) := by
    rw [sumAccepted_since recent, same, ← sumAccepted_since recent]
  refine ⟨charts whereClause, ?_, hour, accepted, ?_, ?_⟩
  · rw [getChartDataForSite, charts, ← getChartDataForSite]
  · exact congrArg (fun total => (Number.mul total (.fin 4294967296)).div (.fin (10 * 60))) shares
  · exact congrArg (fun total => (Number.mul total (.fin 4294967296)).div (.fin (60 * 60))) hour

/-- The row of the first day is deleted two days later, and the charts of that time are the same. -/
theorem deletion_unseen_old_row :
    let e : ℤ → ClientStatisticsEntity := fun time => ⟨⟨"bcrt1qminer", "one", "01"⟩, ⟨time, .fin 64, 1⟩⟩
    let statements : List TimedStatement := [⟨600000, .insert (e 600000)⟩, ⟨172800000, .insert (e 172800000)⟩,
      ⟨172900000, .deleteOldStatistics⟩, ⟨173400000, .insert (e 173400000)⟩]
    TimedStatement.executeAll [] statements = [e 172800000, e 173400000] ∧
    getChartDataForSite (TimedStatement.executeAll [] statements) 173500000 =
      getChartDataForSite (TimedStatement.executeAll [] (statements.filter fun s => ¬ s.isDelete)) 173500000 := by
  intro e statements
  exact ⟨by decide +kernel, (deletion_unseen (by decide) (by decide) [] .pool 0).2.1⟩

end ElektronPool.Stratum
