import ElektronPool.Pplns.Conservation

/-!
# A database write that fails

`processBlockFound` inserts the credits one by one and then adds to the accounting row in two
statements. Nothing takes them back: where one of them fails, the tables are left as the
statements before it have made them (`drive_failed`).
-/

namespace ElektronPool.Pplns
set_option autoImplicit false
open Js Async

/-- What is to be written for a block: the credits, the fee, and what the credits are taken from. -/
structure Distribution where
  entries : OrderedMap String ℤ
  feeSats : ℤ
  distributable : ℤ

/-- The distribution of a reward over a window; without work in it, there are no credits. -/
def distribute (settings : Settings) (shares : List PplnsShareEntity) (blockRewardSats : ℕ) : Distribution :=
  let total := totalDifficulty shares
  if total ≤ 0 then ⟨[], 0, blockRewardSats⟩
  else
    let distributable := distributableSats settings blockRewardSats
    ⟨(perMinerTotals distributable total shares).filter fun e => 0 < e.2, blockRewardSats - distributable, distributable⟩

namespace Distribution

def dustSats (d : Distribution) : ℤ := d.distributable - (d.entries.map Prod.snd).sum

/-- Neither a fee nor dust is left for the accounting. -/
def Exact (d : Distribution) : Prop := d.feeSats = 0 ∧ d.dustSats = 0

instance (d : Distribution) : Decidable d.Exact := inferInstanceAs (Decidable (d.feeSats = 0 ∧ d.dustSats = 0))

end Distribution

/-- The statements behind the window query. -/
inductive Statement where
  | credit (address : String) (amount : ℤ)
  | insertAccounting
  | updateAccounting

def Statement.execute (height fee dust : ℤ) (s : PplnsState) : Statement → PplnsState
  | .credit address amount => { s with ledger := s.ledger.credit address amount height }
  | .insertAccounting => { s with accounting := some (insertSingleton s.accounting) }
  | .updateAccounting => { s with accounting := s.accounting.map (addToAccounting fee dust) }

def statements (entries : OrderedMap String ℤ) : List Statement :=
  entries.map (fun e => .credit e.1 e.2) ++ [.insertAccounting, .updateAccounting]

/-- The tables after the first `count` statements. -/
def afterStatements (height : ℤ) (d : Distribution) (s : PplnsState) (count : ℕ) : PplnsState :=
  ((statements d.entries).take count).foldl (Statement.execute height d.feeSats d.dustSats) s

section
variable {settings : Settings} {s s' : PplnsState} {t' : RewardCall} {height fee distributable : ℤ} {reward count : ℕ}
  {d : Distribution}

theorem length_statements (entries : OrderedMap String ℤ) : (statements entries).length = entries.length + 2 := by
  simp [statements]

/-! ## The run of one call -/

/-- After the accounting there is nothing to be resumed. -/
theorem drive_returned {answers : List Answer} {t : RewardCall}
    (run : drive (RewardCall.resume settings) s (.returned reward) answers = some (s', t)) : answers = [] := by
  cases answers with
  | nil => rfl
  | cons a answers => cases run

/-- `addFeeAndDust`, when statement number `count` fails. -/
theorem drive_addFeeAndDust_failed (height : ℤ) {dust : ℤ}
    (run : drive (RewardCall.resume settings) s (.insertAccounting reward fee dust)
      (List.replicate count .executed ++ [.dbError]) = some (s', t')) :
    count < (statements []).length ∧ s' = ((statements []).take count).foldl (Statement.execute height fee dust) s := by
  obtain _ | _ | count := count
  · cases run
    exact ⟨by decide, rfl⟩
  · cases run
    exact ⟨by decide, rfl⟩
  · have none : List.replicate count Answer.executed ++ [.dbError] = [] := drive_returned run
    simp at none

/-- The credit loop and what is behind it, when statement number `count` fails. -/
theorem drive_failed (totals : OrderedMap String ℤ) : ∀ (s : PplnsState) (allocated : ℤ) (count : ℕ),
    drive (RewardCall.resume settings) s (RewardCall.nextCredit height reward fee distributable allocated totals)
      (List.replicate count .executed ++ [.dbError]) = some (s', t') →
    count < (statements (totals.filter fun e => 0 < e.2)).length ∧
      s' = ((statements (totals.filter fun e => 0 < e.2)).take count).foldl
        (Statement.execute height fee (distributable - allocated - ((totals.filter fun e => 0 < e.2).map Prod.snd).sum)) s := by
  induction totals with
  | nil =>
    intro s allocated count run
    simpa using drive_addFeeAndDust_failed height run
  | cons entry rest ih =>
    obtain ⟨address, amount⟩ := entry
    intro s allocated count run
    by_cases zero : amount ≤ 0
    · rw [RewardCall.nextCredit, if_pos zero] at run
      rw [List.filter_cons_of_neg (by simpa using zero)]
      exact ih s allocated count run
    · rw [RewardCall.nextCredit, if_neg zero] at run
      rw [List.filter_cons_of_pos (by simpa using zero)]
      cases count with
      | zero =>
        cases run
        exact ⟨by simp [statements], rfl⟩
      | succ count =>
        obtain ⟨bound, rfl⟩ := ih _ (allocated + amount) count run
        refine ⟨by rw [length_statements] at bound ⊢; exact Nat.succ_lt_succ bound, ?_⟩
        rw [List.map_cons, List.sum_cons, ← sub_sub, ← sub_sub]
        rfl

/-- The same loop when no statement fails. -/
theorem drive_executed (totals : OrderedMap String ℤ) : ∀ (s : PplnsState) (allocated : ℤ),
    drive (RewardCall.resume settings) s (RewardCall.nextCredit height reward fee distributable allocated totals)
      (List.replicate (statements (totals.filter fun e => 0 < e.2)).length .executed) =
      some ((statements (totals.filter fun e => 0 < e.2)).foldl
        (Statement.execute height fee (distributable - allocated - ((totals.filter fun e => 0 < e.2).map Prod.snd).sum)) s,
        .returned reward) := by
  induction totals with
  | nil =>
    intro s allocated
    simp only [List.filter_nil, List.map_nil, List.sum_nil, sub_zero]
    rfl
  | cons entry rest ih =>
    obtain ⟨address, amount⟩ := entry
    intro s allocated
    by_cases zero : amount ≤ 0
    · rw [RewardCall.nextCredit, if_pos zero, List.filter_cons_of_neg (by simpa using zero)]
      exact ih s allocated
    · rw [RewardCall.nextCredit, if_neg zero, List.filter_cons_of_pos (by simpa using zero), List.map_cons, List.sum_cons,
        ← sub_sub]
      have later := ih { s with ledger := s.ledger.credit address amount height } (allocated + amount)
      rw [← sub_sub] at later
      exact later

theorem drive_splitReward (settings : Settings) (shares : List PplnsShareEntity) (s : PplnsState) (height : ℤ)
    (reward : ℕ) :
    drive (RewardCall.resume settings) s (RewardCall.splitReward settings shares height reward)
      (List.replicate (statements (distribute settings shares reward).entries).length .executed) =
      some (afterStatements height (distribute settings shares reward) s
        (statements (distribute settings shares reward).entries).length, .returned reward) := by
  unfold RewardCall.splitReward afterStatements Distribution.dustSats distribute
  rw [List.take_length]
  by_cases zero : totalDifficulty shares ≤ 0
  · simp only [if_pos zero, List.map_nil, List.sum_nil, sub_zero]
    rfl
  · simp only [if_neg zero]
    rw [drive_executed, sub_zero]

/-- A call one of whose statements fails leaves what the statements before it have made. -/
theorem drive_splitReward_failed {shares : List PplnsShareEntity}
    (run : drive (RewardCall.resume settings) s (RewardCall.splitReward settings shares height reward)
      (List.replicate count .executed ++ [.dbError]) = some (s', t')) :
    count < (statements (distribute settings shares reward).entries).length ∧
      s' = afterStatements height (distribute settings shares reward) s count := by
  unfold RewardCall.splitReward at run
  unfold afterStatements Distribution.dustSats distribute
  by_cases zero : totalDifficulty shares ≤ 0
  · simp only [if_pos zero] at run ⊢
    simpa using drive_addFeeAndDust_failed height run
  · simp only [if_neg zero] at run ⊢
    simpa using drive_failed _ s 0 count run

/-! ## The tables part of the way through -/

def creditAll (height : ℤ) (L : PayoutLedger) (entries : OrderedMap String ℤ) : PayoutLedger :=
  entries.foldl (fun L e => L.credit e.1 e.2 height) L

/-- The accounting row after some of its two statements. -/
def accountingAfter (d : Distribution) (row : Option PoolAccountingEntity) : ℕ → Option PoolAccountingEntity
  | 0 => row
  | 1 => some (insertSingleton row)
  | _ => some (addToAccounting d.feeSats d.dustSats (insertSingleton row))

theorem afterStatements_eq : afterStatements height d s count =
    { s with
      ledger := creditAll height s.ledger (d.entries.take count)
      accounting := accountingAfter d s.accounting (count - d.entries.length) } := by
  have credits : ∀ (entries : OrderedMap String ℤ) (s : PplnsState),
      (entries.map fun e => Statement.credit e.1 e.2).foldl (Statement.execute height d.feeSats d.dustSats) s =
        { s with ledger := creditAll height s.ledger entries } := by
    intro entries
    induction entries with
    | nil => exact fun s => rfl
    | cons e rest ih => exact fun s => ih _
  rw [afterStatements, statements, List.take_append, List.foldl_append, ← List.map_take, credits, List.length_map]
  obtain _ | _ | more := count - d.entries.length
  · rfl
  · rfl
  · simp [Statement.execute, accountingAfter]

theorem length_creditAll (height : ℤ) (L : PayoutLedger) {entries : OrderedMap String ℤ} (positive : ∀ e ∈ entries, 0 < e.2) :
    (creditAll height L entries).rows.length = L.rows.length + entries.length := by
  induction entries generalizing L with
  | nil => rfl
  | cons e rest ih =>
    have later := ih (L.credit e.1 e.2 height) fun e member => positive e (List.mem_cons_of_mem _ member)
    rw [PayoutLedger.rows_credit_of_pos (positive e List.mem_cons_self), List.length_append] at later
    rw [creditAll, List.foldl_cons]
    refine later.trans ?_
    simp only [List.length_cons, List.length_nil]
    omega

theorem positive_distribute (settings : Settings) (shares : List PplnsShareEntity) (reward : ℕ) :
    ∀ e ∈ (distribute settings shares reward).entries, 0 < e.2 := by
  unfold distribute
  dsimp only
  split
  · intro e member
    cases member
  · intro e member
    exact of_decide_eq_true (List.mem_filter.mp member).2

theorem addToAccounting_eq_self_iff {dust : ℤ} {row : PoolAccountingEntity} :
    addToAccounting fee dust row = row ↔ fee = 0 ∧ dust = 0 := by
  obtain ⟨totalFee, totalDust⟩ := row
  simp [addToAccounting]

end

/-- The ledger and the accounting of one state are those of another. -/
structure SameBooks (s s' : PplnsState) : Prop where
  ledger : s'.ledger = s.ledger
  accounting : s'.accounting = s.accounting

/-- The statements before number `count` have changed nothing. -/
def NothingWritten (d : Distribution) (s : PplnsState) (count : ℕ) : Prop :=
  count = 0 ∨ d.entries = [] ∧ count = 1 ∧ s.accounting.isSome

/-- The statements from number `count` on would change nothing. -/
def NothingLeft (d : Distribution) (s : PplnsState) (count : ℕ) : Prop :=
  d.Exact ∧ (d.entries.length < count ∨ d.entries.length = count ∧ s.accounting.isSome)

section
variable {s : PplnsState} {height : ℤ} {count : ℕ} {d : Distribution}

theorem sameBooks_before_iff (positive : ∀ e ∈ d.entries, 0 < e.2) (bound : count < (statements d.entries).length) :
    SameBooks s (afterStatements height d s count) ↔ NothingWritten d s count := by
  rw [length_statements] at bound
  rw [afterStatements_eq]
  constructor
  · rintro ⟨ledger, accounting⟩
    have lengths := congrArg (fun L => L.rows.length) ledger
    dsimp only at lengths
    rw [length_creditAll height _ fun e member => positive e (List.mem_of_mem_take member), List.length_take] at lengths
    obtain zero | none : count = 0 ∨ d.entries.length = 0 := by omega
    · exact .inl zero
    · obtain zero | one : count = 0 ∨ count = 1 := by omega
      · exact .inl zero
      · rw [one, none] at accounting
        exact .inr ⟨List.length_eq_zero_iff.mp none, one, by rw [← accounting]; rfl⟩
  · rintro (rfl | ⟨none, rfl, present⟩)
    · exact ⟨by simp [creditAll], by simp [accountingAfter]⟩
    · obtain ⟨row, is_row⟩ := Option.isSome_iff_exists.mp present
      exact ⟨by simp [none, creditAll], by simp [none, is_row, accountingAfter, insertSingleton]⟩

theorem sameBooks_after_iff (positive : ∀ e ∈ d.entries, 0 < e.2) (bound : count < (statements d.entries).length) :
    SameBooks (afterStatements height d s (statements d.entries).length) (afterStatements height d s count) ↔
      NothingLeft d s count := by
  rw [length_statements] at bound ⊢
  rw [afterStatements_eq, afterStatements_eq]
  have last : d.entries.length + 2 - d.entries.length = 2 := by omega
  have all : d.entries.take (d.entries.length + 2) = d.entries := List.take_of_length_le (by omega)
  rw [last, all]
  constructor
  · rintro ⟨ledger, accounting⟩
    have lengths := congrArg (fun L => L.rows.length) ledger
    dsimp only at lengths
    rw [length_creditAll height _ fun e member => positive e (List.mem_of_mem_take member), List.length_take,
      length_creditAll height _ positive] at lengths
    obtain same | later : count = d.entries.length ∨ count = d.entries.length + 1 := by omega
    · rw [same, Nat.sub_self] at accounting
      cases present : s.accounting with
      | none =>
        rw [present] at accounting
        cases accounting
      | some row =>
        rw [present] at accounting
        exact ⟨addToAccounting_eq_self_iff.mp (Option.some.inj accounting).symm, .inr ⟨same.symm, by rw [present]; rfl⟩⟩
    · have one : count - d.entries.length = 1 := by omega
      rw [one] at accounting
      exact ⟨addToAccounting_eq_self_iff.mp (Option.some.inj accounting).symm, .inl (by omega)⟩
  · rintro ⟨exact, place⟩
    have whole : d.entries.take count = d.entries := List.take_of_length_le (by omega)
    refine ⟨by rw [whole], ?_⟩
    have unchanged : ∀ row, addToAccounting d.feeSats d.dustSats row = row := fun row =>
      addToAccounting_eq_self_iff.mpr exact
    obtain later | ⟨same, present⟩ := place
    · have one : count - d.entries.length = 1 := by omega
      simp only [one, accountingAfter, unchanged]
    · obtain ⟨row, is_row⟩ := Option.isSome_iff_exists.mp present
      simp only [← same, Nat.sub_self, accountingAfter, unchanged, is_row, insertSingleton]

end

/-- Two miners with one share each. -/
def unevenMiners : PplnsState := ⟨[⟨"a", 3, 0, 7⟩, ⟨"b", 1, 0, 7⟩], .empty, none, []⟩

end ElektronPool.Pplns
