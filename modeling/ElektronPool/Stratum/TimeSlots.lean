import ElektronPool.Stratum.Vardiff

/-!
# The rows of a session's time slots

The counters of `addShares` are for one time slot; the row of a slot is inserted with its
first share and updated now and then, and for the last time when a share of a later slot comes
in. Only after that update has been awaited does the session move on, so a second share at the
boundary moves it once more. `arrivals` records, beside the state, the shares as they come in.
-/

namespace ElektronPool.Stratum
set_option autoImplicit false
open Js Async

structure StatisticsRow where
  time : ℤ
  shares : Number
  acceptedCount : ℕ
  deriving DecidableEq

/-- The statements of `ClientStatisticsService`, on the rows of one session. -/
inductive Statement where
  | insert (row : StatisticsRow)
  | update (row : StatisticsRow)

def Statement.execute (rows : List StatisticsRow) : Statement → List StatisticsRow
  | .insert row => rows ++ [row]
  | .update row => rows.map fun old => if old.time = row.time then row else old

def ClientStatistics.row (s : ClientStatistics) : Option StatisticsRow :=
  s.currentTimeSlot.map fun slot => ⟨slot, s.shares, s.acceptedCount⟩

/-- The statement that a call awaits where it stands now. -/
def AddShares.statement (s : ClientStatistics) : AddShares → Option Statement
  | .insertFirst | .insertNext => s.row.map .insert
  | .updatePrevious .. | .updateCurrent => s.row.map .update
  | .addShares _ | .returned | .rejected => none

/-- A session with its rows. -/
structure SavedSession where
  session : Session
  rows : List StatisticsRow

/-- A call runs to its next await, and the statement it issues there is executed. -/
def AddShares.saves (s : SavedSession) (t : AddShares) : StatisticsAnswer → Option (SavedSession × AddShares)
  | .ran first second third => (t.resume s.session (.ran first second third)).map fun r =>
    (⟨r.1, (r.2.statement r.1.statistics).elim s.rows (Statement.execute s.rows)⟩, r.2)
  | .threw => none

/-- A call with a double. -/
def AddShares.isShare : AddShares → Bool
  | .addShares d => d.isDouble
  | _ => false

abbrev SavedSessions := Pool SavedSession AddShares

def SavedSessions.step : SavedSessions → Event AddShares StatisticsAnswer → Option SavedSessions :=
  Pool.step AddShares.isShare AddShares.saves

def SavedSessions.initial (now : ℤ) (sessionDifficulty : Number) : SavedSessions :=
  ⟨⟨⟨now, .new now, sessionDifficulty⟩, []⟩, []⟩

/-- A share with the time slot in which it came in. -/
structure SlotShare where
  slot : ℤ
  difficulty : Number
  deriving DecidableEq

def AddShares.arrival (s : SavedSession) : AddShares → StatisticsAnswer → List SlotShare
  | .addShares d, .ran first _ _ => [⟨timeSlot (s.session.now + first), d⟩]
  | _, _ => []

def arrivals (log : List SlotShare) (p : SavedSessions) (e : Event AddShares StatisticsAnswer) (_ : SavedSessions) :
    List SlotShare :=
  match e with
  | .start _ => log
  | .resume k a => p.calls[k]?.elim log fun t => log ++ t.arrival p.shared a

/-- The difficulties that fell in a slot. -/
def sharesIn (log : List SlotShare) (slot : ℤ) : List Number :=
  (log.filter fun x => x.slot = slot).map (·.difficulty)

def sumOf (difficulties : List Number) : Number := difficulties.foldl Number.add (.fin 0)

/-- What the rows and the counters are for. -/
structure Accounted (statistics : ClientStatistics) (rows : List StatisticsRow) (log : List SlotShare) : Prop where
  once : (rows.map (·.time)).Nodup
  every : ∀ slot, slot ∈ rows.map (·.time) ↔ slot ∈ log.map (·.slot)
  latest : statistics.currentTimeSlot = (log.map (·.slot)).max?
  earlier : ∀ current ∈ statistics.currentTimeSlot, ∀ row ∈ rows, row.time < current →
    row.shares = sumOf (sharesIn log row.time) ∧ row.acceptedCount = (sharesIn log row.time).length
  current : ∀ current ∈ statistics.currentTimeSlot,
    statistics.shares = sumOf (sharesIn log current) ∧ statistics.acceptedCount = (sharesIn log current).length

/-- The update of the previous slot has been answered before another call moved the session on
as far. -/
def AddShares.OnTime (s : SavedSession) : AddShares → Prop
  | .updatePrevious timeSlot _ => ∀ current ∈ s.session.statistics.currentTimeSlot, current < timeSlot
  | _ => True

instance (s : SavedSession) : DecidablePred (AddShares.OnTime s)
  | .updatePrevious timeSlot _ => inferInstanceAs (Decidable (∀ current ∈ s.session.statistics.currentTimeSlot,
      current < timeSlot))
  | .addShares _ | .insertFirst | .insertNext | .updateCurrent | .returned | .rejected => .isTrue trivial

/-- The condition on the events. -/
def OnTime (p : SavedSessions) : Event AddShares StatisticsAnswer → Prop :=
  Pool.Allowed (fun _ _ => True) (fun s _ t _ => t.OnTime s) p

instance (p : SavedSessions) (e : Event AddShares StatisticsAnswer) : Decidable (OnTime p e) :=
  inferInstanceAs (Decidable (Pool.Allowed (fun _ _ => True) (fun s _ t _ => AddShares.OnTime s t) p e))

/-! ## What a call does to the counters -/

section
variable {s s' : Session} {t t' : AddShares} {first second third : ℕ} {d : Number}

/-- The counters after a resumption, by where the call stood. -/
inductive CountersStep (s s' : Session) (first : ℕ) : AddShares → AddShares → Prop
  | first {d : Number} (began : s.now + first ≤ s'.now) (fresh : s.statistics.currentTimeSlot = none)
      (slot : s'.statistics.currentTimeSlot = some (timeSlot (s.now + first)))
      (shares : s'.statistics.shares = s.statistics.shares.add d)
      (acceptedCount : s'.statistics.acceptedCount = s.statistics.acceptedCount + 1) :
      CountersStep s s' first (.addShares d) .insertFirst
  | transition {d : Number} {current : ℤ} (began : s.now + first ≤ s'.now)
      (known : s.statistics.currentTimeSlot = some current) (other : current ≠ timeSlot (s.now + first))
      (row : s'.statistics.row = s.statistics.row) :
      CountersStep s s' first (.addShares d) (.updatePrevious (timeSlot (s.now + first)) d)
  | count {d : Number} {t' : AddShares} (began : s.now + first ≤ s'.now)
      (known : s.statistics.currentTimeSlot = some (timeSlot (s.now + first)))
      (slot : s'.statistics.currentTimeSlot = s.statistics.currentTimeSlot)
      (shares : s'.statistics.shares = s.statistics.shares.add d)
      (acceptedCount : s'.statistics.acceptedCount = s.statistics.acceptedCount + 1)
      (place : t' = .updateCurrent ∨ t' = .returned ∨ t' = .rejected) :
      CountersStep s s' first (.addShares d) t'
  | move {d : Number} {slot : ℤ} (later : s.now ≤ s'.now)
      (row : s'.statistics.row = some ⟨slot, d, 1⟩) :
      CountersStep s s' first (.updatePrevious slot d) .insertNext
  | save {t : AddShares} (later : s.now ≤ s'.now) (place : t = .insertFirst ∨ t = .insertNext ∨ t = .updateCurrent)
      (statistics : s'.statistics = { s.statistics with lastSave := s'.statistics.lastSave }) :
      CountersStep s s' first t .returned

/-- What the branch says of the current time slot. -/
theorem branch_cases (s : ClientStatistics) (date : ℤ) :
    (s.branch date = .first ∧ s.currentTimeSlot = none) ∨
      (∃ current, s.branch date = .transition ∧ s.currentTimeSlot = some current ∧ current ≠ timeSlot date) ∨
      ((s.branch date = .save ∨ s.branch date = .accumulate) ∧ s.currentTimeSlot = some (timeSlot date)) := by
  unfold ClientStatistics.branch
  cases known : s.currentTimeSlot with
  | none => exact .inl ⟨rfl, rfl⟩
  | some current =>
    by_cases same : current = timeSlot date
    · refine .inr (.inr ⟨?_, by rw [same]⟩)
      simp only [same, ne_eq, not_true_eq_false, if_false]
      split
      · exact .inl rfl
      · exact .inr rfl
    · exact .inr (.inl ⟨current, if_pos same, rfl, same⟩)

theorem countersStep_enter (s : Session) (d : Number) (first second third : ℕ) :
    CountersStep s (AddShares.enter s d first second third).1 first (.addShares d)
      (AddShares.enter s d first second third).2 := by
  unfold AddShares.enter
  obtain ⟨taken, known⟩ | ⟨current, taken, known, other⟩ | ⟨taken | taken, known⟩ :=
    branch_cases s.statistics (s.now + first)
  · simp only [ClientStatistics.branch_pushSubmission, taken]
    exact .first (by dsimp only; omega) known rfl rfl rfl
  · simp only [ClientStatistics.branch_pushSubmission, taken]
    exact .transition (le_refl _) known other rfl
  · simp only [ClientStatistics.branch_pushSubmission, taken]
    exact .count (le_refl _) known rfl rfl rfl (.inl rfl)
  · simp only [ClientStatistics.branch_pushSubmission, taken]
    split
    · split
      · exact .count (by dsimp only; omega) known rfl rfl rfl (.inr (.inr rfl))
      · exact .count (by dsimp only; omega) known rfl rfl rfl (.inr (.inl rfl))
    · exact .count (le_refl _) known rfl rfl rfl (.inr (.inl rfl))

/-- All that a resumption does to the counters. -/
theorem countersStep_of_resume (resumed : t.resume s (.ran first second third) = some (s', t')) :
    CountersStep s s' first t t' := by
  cases t with
  | addShares d =>
    obtain ⟨rfl, rfl⟩ := Prod.ext_iff.mp (Option.some.inj resumed)
    exact countersStep_enter s d first second third
  | updatePrevious slot d =>
    cases resumed
    exact .move (by dsimp only; omega) rfl
  | insertFirst =>
    cases resumed
    exact .save (by simp [AddShares.save]) (.inl rfl) rfl
  | insertNext =>
    cases resumed
    exact .save (by simp [AddShares.save]) (.inr (.inl rfl)) rfl
  | updateCurrent =>
    cases resumed
    exact .save (by simp [AddShares.save]) (.inr (.inr rfl)) rfl
  | returned => cases resumed
  | rejected => cases resumed

/-- A resumption with the statement that it issues. -/
theorem countersStep_of_saves {s s' : SavedSession} {a : StatisticsAnswer} (saved : t.saves s a = some (s', t')) :
    ∃ first second third session, a = .ran first second third ∧ CountersStep s.session session first t t' ∧
      s' = ⟨session, (t'.statement session.statistics).elim s.rows (Statement.execute s.rows)⟩ := by
  cases a with
  | threw => cases saved
  | ran first second third =>
    obtain ⟨⟨session, t₁⟩, resumed, same⟩ := Option.map_eq_some_iff.mp saved
    cases same
    exact ⟨first, second, third, session, rfl, countersStep_of_resume resumed, rfl⟩

end

/-! ## The books of the slots -/

theorem timeSlot_mono {a b : ℤ} (le : a ≤ b) : timeSlot a ≤ timeSlot b := by
  have quotient : a / coeff ≤ b / coeff := Int.ediv_le_ediv (by decide) le
  unfold timeSlot coeff at *
  omega

section
variable {log : List SlotShare} {x : SlotShare} {slot : ℤ}

theorem sharesIn_append (log : List SlotShare) (x : SlotShare) (slot : ℤ) :
    sharesIn (log ++ [x]) slot = sharesIn log slot ++ if x.slot = slot then [x.difficulty] else [] := by
  unfold sharesIn
  rw [List.filter_append, List.map_append]
  congr 1
  by_cases here : x.slot = slot <;> simp [here]

theorem sharesIn_append_of_ne (other : x.slot ≠ slot) : sharesIn (log ++ [x]) slot = sharesIn log slot := by
  rw [sharesIn_append, if_neg other, List.append_nil]

theorem sumOf_append (difficulties : List Number) (d : Number) :
    sumOf (difficulties ++ [d]) = (sumOf difficulties).add d := by
  simp [sumOf]

end

/-- The row holds all that fell in its slot. -/
structure StatisticsRow.Exact (row : StatisticsRow) (log : List SlotShare) : Prop where
  shares : row.shares = sumOf (sharesIn log row.time)
  acceptedCount : row.acceptedCount = (sharesIn log row.time).length

/-- The counters `row`, the rows of the table and the calls that wait to move the session on,
against the shares that have come in. -/
structure Booked (now : ℤ) (row : StatisticsRow) (rows : List StatisticsRow) (log waiting : List SlotShare) : Prop where
  clock : ∀ x ∈ log, x.slot ≤ timeSlot now
  doubles : ∀ x ∈ log, x.difficulty.isDouble = true
  seen : row.time ∈ log.map (·.slot)
  counted : row.Exact log
  pending : (log.filter fun x => row.time < x.slot).Perm waiting
  once : (rows.map (·.time)).Nodup
  every : ∀ slot, slot ∈ rows.map (·.time) ↔ slot ≤ row.time ∧ slot ∈ log.map (·.slot)
  earlier : ∀ old ∈ rows, old.time < row.time ∨ waiting ≠ [] → old.Exact log

section
variable {now later : ℤ} {row : StatisticsRow} {rows : List StatisticsRow} {log waiting rest : List SlotShare}
  {slot : ℤ} {d : Number}

theorem StatisticsRow.Exact.append {x : SlotShare} (exact_row : row.Exact log) (other : x.slot ≠ row.time) :
    row.Exact (log ++ [x]) := by
  constructor
  · rw [sharesIn_append_of_ne other, exact_row.shares]
  · rw [sharesIn_append_of_ne other, exact_row.acceptedCount]

theorem map_time_update (rows : List StatisticsRow) (row : StatisticsRow) :
    ((Statement.update row).execute rows).map (·.time) = rows.map (·.time) := by
  rw [Statement.execute, List.map_map]
  apply List.map_congr_left
  intro old _
  dsimp only [Function.comp_apply]
  split
  · rename_i same
    exact same.symm
  · rfl

theorem mem_update {old : StatisticsRow} (member : old ∈ (Statement.update row).execute rows) :
    old = row ∨ old ∈ rows ∧ old.time ≠ row.time := by
  obtain ⟨before, was, rfl⟩ := List.mem_map.mp member
  split
  · exact .inl rfl
  · rename_i other
    exact .inr ⟨was, other⟩

namespace Booked

/-- The first share of the session. -/
theorem first (double : d.isDouble = true) (reached : slot ≤ timeSlot now) :
    Booked now ⟨slot, (Number.fin 0).add d, 1⟩ [⟨slot, (Number.fin 0).add d, 1⟩] [⟨slot, d⟩] [] where
  clock := by simpa using reached
  doubles := by simpa using double
  seen := by simp
  counted := ⟨by simp [sharesIn, sumOf], by simp [sharesIn]⟩
  pending := by simp
  once := by simp
  every other := by
    simp only [List.map_cons, List.map_nil, List.mem_singleton]
    constructor
    · rintro rfl
      exact ⟨le_refl _, rfl⟩
    · exact And.right
  earlier old member early := by
    obtain rfl := List.mem_singleton.mp member
    simp at early

theorem mono (h : Booked now row rows log waiting) (le : now ≤ later) : Booked later row rows log waiting :=
  { h with clock := fun x member => (h.clock x member).trans (timeSlot_mono le) }

/-- No row is later than the counters. -/
theorem le (h : Booked now row rows log waiting) {old : StatisticsRow} (member : old ∈ rows) : old.time ≤ row.time :=
  ((h.every _).mp (List.mem_map_of_mem member)).1

/-- The calls that wait move the session forward, up to now. -/
theorem mem_waiting (h : Booked now row rows log waiting) {x : SlotShare} (waits : x ∈ waiting) :
    row.time < x.slot ∧ x ∈ log := by
  have := List.mem_filter.mp (h.pending.mem_iff.mpr waits)
  exact ⟨of_decide_eq_true this.2, this.1⟩

/-- With the clock still in the slot of the counters, no call waits to leave it. -/
theorem waiting_eq_nil (h : Booked now row rows log waiting) (within : timeSlot now ≤ row.time) : waiting = [] := by
  rw [List.eq_nil_iff_forall_not_mem]
  intro x waits
  obtain ⟨above, came⟩ := h.mem_waiting waits
  have := h.clock x came
  omega

theorem clock_append (h : Booked now row rows log waiting) (le : now ≤ later) (reached : slot ≤ timeSlot later) :
    ∀ x ∈ log ++ [⟨slot, d⟩], x.slot ≤ timeSlot later := by
  intro x member
  obtain old | new := List.mem_append.mp member
  · exact (h.clock x old).trans (timeSlot_mono le)
  · rw [List.mem_singleton.mp new]
    exact reached

theorem doubles_append (h : Booked now row rows log waiting) (double : d.isDouble = true) :
    ∀ x ∈ log ++ [⟨slot, d⟩], x.difficulty.isDouble = true := by
  intro x member
  obtain old | new := List.mem_append.mp member
  · exact h.doubles x old
  · rw [List.mem_singleton.mp new]
    exact double

/-- The slots up to that of the counters stay the same when the new one is known or later. -/
theorem every_append (h : Booked now row rows log waiting) (known : slot ≤ row.time → slot ∈ log.map (·.slot))
    (other : ℤ) : other ∈ rows.map (·.time) ↔ other ≤ row.time ∧ other ∈ (log ++ [(⟨slot, d⟩ : SlotShare)]).map (·.slot) := by
  rw [h.every other]
  simp only [List.map_append, List.map_cons, List.map_nil, List.mem_append, List.mem_singleton]
  constructor
  · exact fun ⟨below, came⟩ => ⟨below, .inl came⟩
  · rintro ⟨below, came | rfl⟩
    · exact ⟨below, came⟩
    · exact ⟨below, known below⟩

/-- One more share in the slot of the counters. -/
theorem count (h : Booked now row rows log waiting) (double : d.isDouble = true) (le : now ≤ later)
    (within : timeSlot later = row.time) :
    Booked later ⟨row.time, row.shares.add d, row.acceptedCount + 1⟩ rows (log ++ [⟨row.time, d⟩]) waiting := by
  obtain rfl := h.waiting_eq_nil ((timeSlot_mono le).trans_eq within)
  refine ⟨h.clock_append le within.ge, h.doubles_append double, ?_, ?_, ?_, h.once, h.every_append fun _ => h.seen, ?_⟩
  · simp
  · constructor
    · simp only [sharesIn_append, if_true, sumOf_append, h.counted.shares]
    · simp only [sharesIn_append, if_true, List.length_append, List.length_singleton, h.counted.acceptedCount]
  · rw [List.filter_append]
    simpa using h.pending
  · rintro old member (early | waits)
    · exact (h.earlier old member (.inl early)).append (ne_of_gt early)
    · exact absurd rfl waits

/-- The row of the slot is updated. -/
theorem update (h : Booked now row rows log waiting) : Booked now row ((Statement.update row).execute rows) log waiting where
  clock := h.clock
  doubles := h.doubles
  seen := h.seen
  counted := h.counted
  pending := h.pending
  once := by
    rw [map_time_update]
    exact h.once
  every := by
    rw [map_time_update]
    exact h.every
  earlier old member early := by
    obtain rfl | ⟨was, -⟩ := mem_update member
    · exact h.counted
    · exact h.earlier old was early

/-- A share of a later slot comes in, and the update of the slot that ends is issued. -/
theorem await (h : Booked now row rows log waiting) (double : d.isDouble = true) (le : now ≤ later)
    (reached : slot ≤ timeSlot later) (above : row.time < slot) (waits : rest.Perm (⟨slot, d⟩ :: waiting)) :
    Booked later row ((Statement.update row).execute rows) (log ++ [⟨slot, d⟩]) rest := by
  refine ⟨h.clock_append le reached, h.doubles_append double, ?_, h.counted.append (ne_of_gt above), ?_, h.update.once,
    h.update.every_append fun known => absurd known (not_le.mpr above), ?_⟩
  · rw [List.map_append]
    exact List.mem_append_left _ h.seen
  · rw [List.filter_append]
    have new : [(⟨slot, d⟩ : SlotShare)].filter (fun x => row.time < x.slot) = [⟨slot, d⟩] := by simp [above]
    rw [new]
    exact (List.perm_append_singleton _ _).trans ((h.pending.cons _).trans waits.symm)
  · intro old member _
    obtain rfl | ⟨was, other⟩ := mem_update member
    · exact h.counted.append (ne_of_gt above)
    · have below := h.le was
      refine (h.earlier old was (.inl (by omega))).append ?_
      dsimp only
      omega

theorem perm (h : Booked now row rows log waiting) (same : rest.Perm waiting) : Booked now row rows log rest :=
  { h with
    pending := h.pending.trans same.symm
    earlier := fun old member early => h.earlier old member <| early.imp id fun waits none => waits (by
      rw [none] at same
      exact same.eq_nil) }

/-- What came in for later slots is what waits. -/
theorem perm_filter (h : Booked now row rows log waiting) (later : SlotShare → Bool)
    (ahead : ∀ x, later x = true → row.time < x.slot) : (log.filter later).Perm (waiting.filter later) := by
  have kept : (log.filter fun x => row.time < x.slot).filter later = log.filter later := by
    rw [List.filter_filter]
    apply List.filter_congr
    intro x _
    cases sure : later x with
    | true => simp [ahead x sure]
    | false => rfl
  rw [← kept]
  exact h.pending.filter later

/-- A call that has waited moves the session on to its slot, and no other one waits for a slot
as early. -/
theorem move (h : Booked now row rows log waiting) (le : now ≤ later) (waits : waiting.Perm (⟨slot, d⟩ :: rest))
    (others : ∀ x ∈ rest, slot < x.slot) :
    Booked later ⟨slot, d, 1⟩ (rows ++ [⟨slot, d, 1⟩]) log rest := by
  obtain ⟨above, came⟩ : row.time < slot ∧ ⟨slot, d⟩ ∈ log := h.mem_waiting (waits.mem_iff.mpr List.mem_cons_self)
  have only : log.filter (fun x => x.slot = slot) = [⟨slot, d⟩] := by
    have none_else : rest.filter (fun x => x.slot = slot) = [] := by
      rw [List.filter_eq_nil_iff]
      intro x member
      have := others x member
      simp only [decide_eq_true_eq]
      omega
    have same := (h.perm_filter (fun x => x.slot = slot) (by simp; omega)).trans (waits.filter _)
    rw [List.filter_cons_of_pos (by simp), none_else] at same
    exact List.perm_singleton.mp same
  have beyond : (log.filter fun x => slot < x.slot).Perm rest := by
    have all_later : rest.filter (fun x => slot < x.slot) = rest :=
      List.filter_eq_self.mpr fun x member => decide_eq_true (others x member)
    have same := (h.perm_filter (fun x => slot < x.slot) (by simp; omega)).trans (waits.filter _)
    rwa [List.filter_cons_of_neg (by simp), all_later] at same
  have counted : (⟨slot, d, 1⟩ : StatisticsRow).Exact log := by
    constructor
    · rw [sharesIn, only]
      exact (Number.zero_add_of_isDouble (h.doubles _ came)).symm
    · rw [sharesIn, only]
      simp
  refine ⟨?_, h.doubles, List.mem_map_of_mem came, counted, beyond, ?_, ?_, ?_⟩
  · exact fun x member => (h.clock x member).trans (timeSlot_mono le)
  · rw [List.map_append]
    refine List.nodup_append.mpr ⟨h.once, List.nodup_singleton _, ?_⟩
    rintro time member other single rfl
    have := ((h.every time).mp member).1
    simp only [List.map_cons, List.map_nil, List.mem_singleton] at single
    omega
  · intro other
    rw [List.map_append, List.mem_append, h.every other]
    simp only [List.map_cons, List.map_nil, List.mem_singleton]
    constructor
    · rintro (⟨below, seen⟩ | rfl)
      · exact ⟨by omega, seen⟩
      · exact ⟨le_refl _, List.mem_map_of_mem came⟩
    · rintro ⟨below, seen⟩
      obtain ⟨x, member, rfl⟩ := List.mem_map.mp seen
      by_cases early : x.slot ≤ row.time
      · exact .inl ⟨early, seen⟩
      · have waited : x ∈ waiting := h.pending.mem_iff.mp (List.mem_filter.mpr ⟨member, by simpa using early⟩)
        obtain rfl | other := List.mem_cons.mp (waits.mem_iff.mp waited)
        · exact .inr rfl
        · have := others x other
          omega
  · intro old member _
    obtain was | new := List.mem_append.mp member
    · refine h.earlier old was (.inr ?_)
      rintro rfl
      exact List.cons_ne_nil _ _ waits.symm.eq_nil
    · rw [List.mem_singleton.mp new]
      exact counted

end Booked

end

/-! ## Every interleaving -/

/-- The share a call holds while it waits to move the session on. -/
def AddShares.waiting : AddShares → Option SlotShare
  | .updatePrevious slot d => some ⟨slot, d⟩
  | _ => none

/-- A session without shares, one in which some call has been overtaken, or one whose books are
right. -/
inductive Slots (s : SavedSession) (log waiting : List SlotShare) : Prop where
  | untouched (row : s.session.statistics.row = none) (shares : s.session.statistics.shares = .fin 0)
      (acceptedCount : s.session.statistics.acceptedCount = 0) (rows : s.rows = []) (log_eq : log = [])
      (waiting_eq : waiting = [])
  | overtaken {row : StatisticsRow} {x : SlotShare} (known : s.session.statistics.row = some row) (waits : x ∈ waiting)
      (late : x.slot ≤ row.time)
  | booked {row : StatisticsRow} (known : s.session.statistics.row = some row)
      (books : Booked s.session.now row s.rows log waiting)

section
variable {s s' : SavedSession} {t t' : AddShares} {log waiting waiting' others : List SlotShare} {ms : ℕ}
  {a : StatisticsAnswer}

theorem row_eq_some {statistics : ClientStatistics} {row : StatisticsRow} :
    statistics.row = some row ↔
      statistics.currentTimeSlot = some row.time ∧ statistics.shares = row.shares ∧ statistics.acceptedCount = row.acceptedCount := by
  rw [ClientStatistics.row, Option.map_eq_some_iff]
  constructor
  · rintro ⟨slot, known, rfl⟩
    exact ⟨known, rfl, rfl⟩
  · rintro ⟨known, shares, acceptedCount⟩
    exact ⟨row.time, known, by rw [shares, acceptedCount]⟩

theorem row_eq_none {statistics : ClientStatistics} : statistics.row = none ↔ statistics.currentTimeSlot = none := by
  rw [ClientStatistics.row, Option.map_eq_none_iff]

theorem exists_row {statistics : ClientStatistics} {slot : ℤ} (known : statistics.currentTimeSlot = some slot) :
    ∃ row, statistics.row = some row ∧ slot = row.time :=
  ⟨⟨slot, statistics.shares, statistics.acceptedCount⟩, by rw [ClientStatistics.row, known, Option.map_some], rfl⟩

theorem Slots.of_some (h : Slots s log waiting) {row : StatisticsRow} (known : s.session.statistics.row = some row) :
    (∃ x ∈ waiting, x.slot ≤ row.time) ∨ Booked s.session.now row s.rows log waiting := by
  cases h with
  | untouched none =>
    rw [none] at known
    cases known
  | overtaken same waits late =>
    cases same.symm.trans known
    exact .inl ⟨_, waits, late⟩
  | booked same books =>
    cases same.symm.trans known
    exact .inr books

/-- Another row in memory or in the table, from the same slot on. -/
theorem slots_of_some {row : StatisticsRow} (known : s.session.statistics.row = some row)
    (books : (∃ x ∈ waiting, x.slot ≤ row.time) ∨ Booked s.session.now row s.rows log waiting) : Slots s log waiting := by
  obtain ⟨x, waits, late⟩ | books := books
  · exact .overtaken known waits late
  · exact .booked known books

namespace Slots
variable {session : Session} {row : StatisticsRow} {slot : ℤ} {d : Number}

theorem perm (h : Slots s log waiting) (same : waiting'.Perm waiting) : Slots s log waiting' := by
  cases h with
  | untouched row shares acceptedCount rows log_eq waiting_eq =>
    exact .untouched row shares acceptedCount rows log_eq (waiting_eq ▸ same).eq_nil
  | overtaken known waits late => exact .overtaken known (same.mem_iff.mpr waits) late
  | booked known books => exact .booked known (books.perm same)

/-- The first share of the session comes in, and its row is inserted. -/
theorem first (h : Slots s log waiting) (double : d.isDouble = true) (fresh : s.session.statistics.row = none)
    (reached : slot ≤ timeSlot session.now) (known : session.statistics.row =
      some ⟨slot, s.session.statistics.shares.add d, s.session.statistics.acceptedCount + 1⟩) :
    Slots ⟨session, (session.statistics.row.map .insert).elim s.rows (Statement.execute s.rows)⟩ (log ++ [⟨slot, d⟩]) waiting := by
  cases h with
  | untouched row zero none rows log_eq waiting_eq =>
    subst waiting_eq log_eq
    rw [zero, none] at known
    refine .booked known ?_
    simp only [known, Option.map_some, Option.elim_some, Statement.execute, rows]
    exact .first double reached
  | overtaken known =>
    rw [fresh] at known
    cases known
  | booked known =>
    rw [fresh] at known
    cases known

/-- A share of another slot comes in, and the update of the slot that ends is issued. -/
theorem await (h : Slots s log waiting) (double : d.isDouble = true) (before : s.session.statistics.row = some row)
    (other : row.time ≠ slot) (began : timeSlot s.session.now ≤ slot) (le : s.session.now ≤ session.now)
    (reached : slot ≤ timeSlot session.now) (same : session.statistics.row = s.session.statistics.row) :
    Slots ⟨session, (session.statistics.row.map .update).elim s.rows (Statement.execute s.rows)⟩ (log ++ [⟨slot, d⟩])
      (⟨slot, d⟩ :: waiting) := by
  refine slots_of_some (same.trans before) ?_
  obtain ⟨x, member, late⟩ | books := h.of_some before
  · exact .inl ⟨x, List.mem_cons_of_mem _ member, late⟩
  · have above : row.time < slot := by
      obtain ⟨x, came, here⟩ := List.mem_map.mp books.seen
      have := books.clock x came
      omega
    simp only [same.trans before, Option.map_some, Option.elim_some]
    exact .inr (books.await double le reached above (.refl _))

/-- A share comes in for the slot of the counters, and its row may be updated. -/
theorem count (h : Slots s log waiting) (double : d.isDouble = true) (before : s.session.statistics.row = some row)
    (within : timeSlot (s.session.now + ms) = row.time) (began : s.session.now + ms ≤ session.now)
    (known : session.statistics.row = some ⟨row.time, row.shares.add d, row.acceptedCount + 1⟩)
    (place : t' = .updateCurrent ∨ t' = .returned ∨ t' = .rejected) :
    Slots ⟨session, (t'.statement session.statistics).elim s.rows (Statement.execute s.rows)⟩ (log ++ [⟨row.time, d⟩])
      waiting := by
  refine slots_of_some known ?_
  obtain late | books := h.of_some before
  · exact .inl late
  · have counted := (books.count double (by omega) within).mono began
    obtain rfl | rfl | rfl := place
    · simp only [AddShares.statement, known, Option.map_some, Option.elim_some]
      exact .inr counted.update
    · exact .inr counted
    · exact .inr counted

/-- A call that has waited in time moves the session on to its slot, and the row is inserted. -/
theorem move (h : Slots s log (⟨slot, d⟩ :: waiting))
    (onTime : ∀ current ∈ s.session.statistics.currentTimeSlot, current < slot) (later : s.session.now ≤ session.now)
    (known : session.statistics.row = some ⟨slot, d, 1⟩) :
    Slots ⟨session, (session.statistics.row.map .insert).elim s.rows (Statement.execute s.rows)⟩ log waiting := by
  refine slots_of_some known ?_
  by_cases late : ∃ x ∈ waiting, x.slot ≤ slot
  · exact .inl late
  cases h with
  | untouched _ _ _ _ _ waiting_eq => cases waiting_eq
  | @overtaken row x before member early =>
    have above : row.time < slot := onTime _ (row_eq_some.mp before).1
    obtain rfl | other := List.mem_cons.mp member
    · dsimp only at early
      omega
    · exact absurd ⟨x, other, by omega⟩ late
  | booked before books =>
    simp only [known, Option.map_some, Option.elim_some]
    refine .inr (books.move later (.refl _) fun x member => ?_)
    by_contra early
    exact late ⟨x, member, by omega⟩

/-- A statement has been answered. -/
theorem save (h : Slots s log waiting) (later : s.session.now ≤ session.now)
    (statistics : session.statistics = { s.session.statistics with lastSave := session.statistics.lastSave }) :
    Slots ⟨session, s.rows⟩ log waiting := by
  have row : session.statistics.row = s.session.statistics.row := by
    rw [statistics]
    rfl
  cases h with
  | untouched none zero no_shares rows log_eq waiting_eq =>
    refine .untouched (row.trans none) ?_ ?_ rows log_eq waiting_eq
    · rw [← zero, statistics]
    · rw [← no_shares, statistics]
  | overtaken known member late => exact .overtaken (row.trans known) member late
  | booked known books => exact .booked (row.trans known) (books.mono later)

/-- One resumption beside the calls that wait. -/
theorem resume (h : Slots s log waiting) (double : ∀ d, t = .addShares d → d.isDouble = true) (onTime : t.OnTime s)
    (was : waiting.Perm (t.waiting.toList ++ others)) (is : waiting'.Perm (t'.waiting.toList ++ others))
    (saved : t.saves s a = some (s', t')) : Slots s' (log ++ t.arrival s a) waiting' := by
  obtain ⟨first, second, third, session, rfl, effect, rfl⟩ := countersStep_of_saves saved
  have before := h.perm was.symm
  refine Slots.perm ?_ is
  cases effect with
  | first began fresh slot shares acceptedCount =>
    exact before.first (double _ rfl) (row_eq_none.mpr fresh) (timeSlot_mono began)
      (row_eq_some.mpr ⟨slot, shares, acceptedCount⟩)
  | transition began known other same =>
    obtain ⟨row, was, rfl⟩ := exists_row known
    have le : s.session.now ≤ session.now := by omega
    exact before.await (double _ rfl) was other (timeSlot_mono (by omega)) le (timeSlot_mono began) same
  | count began known slot shares acceptedCount place =>
    obtain ⟨row, was, slot_eq⟩ := exists_row known
    obtain ⟨-, was_shares, was_count⟩ := row_eq_some.mp was
    rw [was_shares] at shares
    rw [was_count] at acceptedCount
    have counted := before.count (double _ rfl) was slot_eq began (row_eq_some.mpr
      ⟨slot.trans (known.trans (congrArg some slot_eq)), shares, acceptedCount⟩) place
    have none_waits : t'.waiting = none := by obtain rfl | rfl | rfl := place <;> rfl
    rwa [AddShares.arrival, slot_eq, none_waits]
  | move later known =>
    have nothing : ∀ slot d, (AddShares.updatePrevious slot d).arrival s (.ran first second third) = [] := by
      simp [AddShares.arrival]
    rw [nothing, List.append_nil]
    exact before.move onTime later known
  | save later place statistics =>
    have nothing : t.arrival s (.ran first second third) = [] := by
      obtain rfl | rfl | rfl := place <;> simp [AddShares.arrival]
    have none_waits : t.waiting = none := by obtain rfl | rfl | rfl := place <;> rfl
    rw [none_waits] at before
    rw [nothing, List.append_nil]
    exact before.save later statistics

end Slots

/-- No call goes back to its beginning. -/
theorem ne_addShares_of_saves (saved : t.saves s a = some (s', t')) (d : Number) : t' ≠ .addShares d := by
  obtain ⟨first, second, third, session, -, effect, -⟩ := countersStep_of_saves saved
  rintro rfl
  cases effect with
  | count _ _ _ _ _ place => simp at place

/-- The books of a session whose calls are in progress. -/
structure Slots.Hold (p : SavedSessions) (log : List SlotShare) : Prop where
  slots : Slots p.shared log (p.calls.filterMap AddShares.waiting)
  doubles : ∀ t ∈ p.calls, ∀ d, t = .addShares d → d.isDouble = true

theorem Slots.Hold.step {p p' : SavedSessions} {log : List SlotShare} {e : Event AddShares StatisticsAnswer}
    (h : Slots.Hold p log) (onTime : OnTime p e) (moved : p.step e = some p') : Slots.Hold p' (arrivals log p e p') := by
  obtain ⟨t, rfl, share, rfl⟩ | ⟨before, t, after, a, s', t', rfl, calls, saved, rfl⟩ := Pool.step_cases moved
  · cases t with
    | addShares d =>
      have same : (p.calls ++ [AddShares.addShares d]).filterMap AddShares.waiting = p.calls.filterMap AddShares.waiting := by
        rw [List.filterMap_append, List.filterMap_cons_none rfl, List.filterMap_nil, List.append_nil]
      refine ⟨same ▸ h.slots, fun u member d' same => ?_⟩
      obtain old | new := List.mem_append.mp member
      · exact h.doubles u old d' same
      · cases same.symm.trans (List.mem_singleton.mp new)
        exact share
    | _ => cases share
  · have aside : ∀ u, ((before ++ u :: after).filterMap AddShares.waiting).Perm
        (u.waiting.toList ++ (before ++ after).filterMap AddShares.waiting) := by
      intro u
      refine (List.perm_middle.filterMap _).trans ?_
      cases found : u.waiting <;> simp [found]
    have recorded : arrivals log p (.resume before.length a) ⟨s', before ++ t' :: after⟩ = log ++ t.arrival p.shared a := by
      simp [arrivals, calls]
    have slots := h.slots
    rw [calls] at slots
    rw [recorded]
    refine ⟨slots.resume ?_ (Pool.Allowed.continues onTime calls) (aside t) (aside t') saved, fun u member d same => ?_⟩
    · exact h.doubles t (by simp [calls])
    · subst same
      obtain left | right := List.mem_append.mp member
      · exact h.doubles _ (by simp [calls, left]) d rfl
      · obtain new | right := List.mem_cons.mp right
        · exact absurd new.symm (ne_addShares_of_saves saved d)
        · exact h.doubles _ (by simp [calls, right]) d rfl

/-- The books of a session none of whose calls waits any more. -/
theorem Slots.accounted (h : Slots s log []) : Accounted s.session.statistics s.rows log := by
  cases h with
  | untouched row _ _ rows log_eq _ =>
    subst log_eq
    have none := row_eq_none.mp row
    rw [rows]
    refine ⟨.nil, by simp, by simp [none], ?_, ?_⟩ <;> simp [none]
  | overtaken _ waits => cases waits
  | booked known books =>
    rename_i row
    obtain ⟨slot, shares, acceptedCount⟩ := row_eq_some.mp known
    have none_later : ∀ x ∈ log, x.slot ≤ row.time := by
      intro x member
      by_contra above
      have waits := books.pending.mem_iff.mp (List.mem_filter.mpr ⟨member, by simpa using above⟩)
      cases waits
    refine ⟨books.once, fun other => ?_, ?_, ?_, ?_⟩
    · rw [books.every other]
      refine and_iff_right_of_imp fun seen => ?_
      obtain ⟨x, member, rfl⟩ := List.mem_map.mp seen
      exact none_later x member
    · rw [slot, eq_comm, List.max?_eq_some_iff]
      refine ⟨books.seen, fun other seen => ?_⟩
      obtain ⟨x, member, rfl⟩ := List.mem_map.mp seen
      exact none_later x member
    · intro current is_current old member earlier
      cases slot.symm.trans is_current
      have counted := books.earlier old member (.inl earlier)
      exact ⟨counted.shares, counted.acceptedCount⟩
    · intro current is_current
      cases slot.symm.trans is_current
      exact ⟨shares.trans books.counted.shares, acceptedCount.trans books.counted.acceptedCount⟩

end

/-- **The statistics account for every share**: in every run in which no call that moves the
session to its slot finds it there already, once all calls have returned there is one row for
each slot that had shares, the rows of the earlier slots hold the sums and numbers of their
shares, and the counters those of the latest. -/
theorem accounted_of_onTime {now : ℤ} {sessionDifficulty : Number} {p : SavedSessions} {log : List SlotShare}
    (run : Reaches (recording SavedSessions.step arrivals) (fun q e => OnTime q.1 e)
      (.initial now sessionDifficulty, []) (p, log))
    (returned : ∀ t ∈ p.calls, t = .returned) : Accounted p.shared.session.statistics p.shared.rows log := by
  have holds : Slots.Hold p log := by
    apply run.invariant_recording
    · exact ⟨.untouched rfl rfl rfl rfl rfl rfl, by simp [SavedSessions.initial]⟩
    · exact fun _ _ _ _ h onTime moved => h.step onTime moved
  have nobody : p.calls.filterMap AddShares.waiting = [] := by
    rw [List.filterMap_eq_nil_iff]
    intro t member
    rw [returned t member]
    rfl
  have slots := holds.slots
  rw [nobody] at slots
  exact slots.accounted

/-- Two slots, the second with two shares, the other share of which comes in after the move. -/
theorem accounted_of_onTime_two_slots : ∃ (p : SavedSessions) (log : List SlotShare), p.shared.rows.length = 2 ∧
    log.length = 3 ∧ Accounted p.shared.session.statistics p.shared.rows log := by
  obtain ⟨⟨p, log⟩, run, rows, shares, returned⟩ := exists_reaches (recording SavedSessions.step arrivals)
    (fun q e => OnTime q.1 e) (.initial 1700000400000 (.fin 1), [])
    [.start (.addShares (.fin 64)), .resume 0 (.ran 0 0 0), .resume 0 (.ran 0 0 0),
      .start (.addShares (.fin 32)), .resume 1 (.ran 600000 0 0), .resume 1 (.ran 1 0 0),
      .start (.addShares (.fin 16)), .resume 2 (.ran 1 0 0), .resume 1 (.ran 0 0 0), .resume 2 (.ran 0 0 0)]
    (fun q => q.1.shared.rows.length = 2 ∧ q.2.length = 3 ∧ ∀ t ∈ q.1.calls, t = .returned) (by decide +kernel)
  exact ⟨p, log, rows, shares, accounted_of_onTime run returned⟩

/-- Two shares at the boundary of a slot: both calls wait for the update of the previous slot, and
the second one to go on throws the share of the first away and inserts the row once more. -/
theorem not_accounted_two_shares : ¬ ∀ (now : ℤ) (sessionDifficulty : Number) (p : SavedSessions) (log : List SlotShare),
    Reaches (recording SavedSessions.step arrivals) Always (.initial now sessionDifficulty, []) (p, log) →
    (∀ t ∈ p.calls, t = .returned) → Accounted p.shared.session.statistics p.shared.rows log := by
  intro claim
  obtain ⟨⟨p, log⟩, run, returned, twice⟩ := exists_reaches (recording SavedSessions.step arrivals) Always
    (.initial 1700000400000 (.fin 1), [])
    [.start (.addShares (.fin 64)), .resume 0 (.ran 0 0 0), .resume 0 (.ran 0 0 0),
      .start (.addShares (.fin 32)), .start (.addShares (.fin 16)), .resume 1 (.ran 600000 0 0), .resume 2 (.ran 1 0 0),
      .resume 1 (.ran 0 0 0), .resume 2 (.ran 0 0 0), .resume 1 (.ran 0 0 0), .resume 2 (.ran 0 0 0)]
    (fun q => (∀ t ∈ q.1.calls, t = .returned) ∧ ¬ (q.1.shared.rows.map (·.time)).Nodup) (by decide +kernel)
  exact twice (claim _ _ p log run returned).once

end ElektronPool.Stratum
