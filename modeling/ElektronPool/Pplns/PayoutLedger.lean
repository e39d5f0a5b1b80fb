import Mathlib.Algebra.Order.BigOperators.Group.List
import Mathlib.Data.List.Dedup
import Mathlib.Data.List.Range
import Mathlib.Tactic.Linarith

/-!
# The payout ledger

`payout_ledger_entity` and the statements `PayoutLedgerService` runs on it. A ledger
carries its own well-formedness: row ids are handed out in insertion order and never
reused, amounts are positive (`credit` drops the others), and a row has a txid exactly
when it has left PENDING. Every statement keeps these by construction.
-/

namespace ElektronPool.Pplns
set_option autoImplicit false

/-- `ePayoutStatus`. -/
inductive PayoutStatus where
  | pending
  | sent
  | confirmed
  deriving DecidableEq, Repr

/-- One PPLNS reward credit. -/
structure PayoutLedgerEntity where
  id : ℕ
  minerAddress : String
  blockHeight : ℤ
  amountSats : ℤ
  status : PayoutStatus
  txid : Option String
  deriving DecidableEq, Repr

/-- SUM(amountSats) of some rows. -/
def sumSats (rows : List PayoutLedgerEntity) : ℤ := (rows.map (·.amountSats)).sum

@[simp] theorem sumSats_nil : sumSats [] = 0 := rfl

@[simp] theorem sumSats_cons (r : PayoutLedgerEntity) (rows : List PayoutLedgerEntity) :
    sumSats (r :: rows) = r.amountSats + sumSats rows := rfl

@[simp] theorem sumSats_append (a b : List PayoutLedgerEntity) : sumSats (a ++ b) = sumSats a + sumSats b := by
  simp [sumSats]

theorem sumSats_nonneg {rows : List PayoutLedgerEntity} (positive : ∀ r ∈ rows, 0 < r.amountSats) :
    0 ≤ sumSats rows :=
  List.sum_nonneg fun _ member => by
    obtain ⟨r, hr, rfl⟩ := List.mem_map.mp member
    exact (positive r hr).le

/-- Two selections that share no row add up to their union. -/
theorem sumSats_filter_add {rows : List PayoutLedgerEntity} {p q : PayoutLedgerEntity → Bool}
    (apart : ∀ r, p r = true → q r ≠ true) :
    sumSats (rows.filter p) + sumSats (rows.filter q) = sumSats (rows.filter fun r => p r || q r) := by
  induction rows with
  | nil => rfl
  | cons r rows ih =>
    have here := apart r
    cases hp : p r <;> cases hq : q r <;> simp_all
    all_goals omega

/-- A wider selection is worth at least as much. -/
theorem sumSats_filter_le {rows : List PayoutLedgerEntity} {p q : PayoutLedgerEntity → Bool}
    (positive : ∀ r ∈ rows, 0 < r.amountSats) (implies : ∀ r, p r = true → q r = true) :
    sumSats (rows.filter p) ≤ sumSats (rows.filter q) := by
  induction rows with
  | nil => rfl
  | cons r rows ih =>
    have here := implies r
    have head := positive r List.mem_cons_self
    have tail := ih fun r member => positive r (List.mem_cons_of_mem _ member)
    cases hp : p r <;> cases hq : q r <;> simp_all
    all_goals omega

/-- Amounts are positive: a selection is worth nothing only when it is empty. -/
theorem sumSats_filter_eq_zero {rows : List PayoutLedgerEntity} {p : PayoutLedgerEntity → Bool}
    (positive : ∀ r ∈ rows, 0 < r.amountSats) : sumSats (rows.filter p) = 0 ↔ ∀ r ∈ rows, ¬ p r = true := by
  constructor
  · intro zero r member selected
    have here : r ∈ rows.filter p := List.mem_filter.mpr ⟨member, selected⟩
    have others : 0 ≤ sumSats ((rows.filter p).erase r) := sumSats_nonneg fun r' member' =>
      positive r' (List.mem_of_mem_filter (List.mem_of_mem_erase member'))
    have whole : sumSats (rows.filter p) = r.amountSats + sumSats ((rows.filter p).erase r) :=
      ((List.perm_cons_erase here).map _).sum_eq
    have := positive r member
    omega
  · intro none
    rw [List.filter_eq_nil_iff.mpr none, sumSats_nil]

/-- Disjoint sets of ids select rows that add up. -/
theorem sum_filter_ids (rows : List PayoutLedgerEntity) {groups : List (List ℕ)} (disjoint : groups.flatten.Nodup) :
    (groups.map fun ids => sumSats (rows.filter fun r => r.id ∈ ids)).sum =
      sumSats (rows.filter fun r => r.id ∈ groups.flatten) := by
  induction groups with
  | nil => simp
  | cons ids rest ih =>
    obtain ⟨-, tail, apart⟩ := List.nodup_append.mp (List.flatten_cons ▸ disjoint)
    rw [List.map_cons, List.sum_cons, ih tail, sumSats_filter_add]
    · simp only [List.flatten_cons, List.mem_append, ← Bool.decide_or]
    · intro r here there
      exact apart _ (of_decide_eq_true here) _ (of_decide_eq_true there) rfl

/-- MAX(id) of some rows. -/
def maxId (rows : List PayoutLedgerEntity) : ℕ := (rows.map (·.id)).foldr max 0

theorem le_maxId {rows : List PayoutLedgerEntity} {r : PayoutLedgerEntity} (member : r ∈ rows) :
    r.id ≤ maxId rows := by
  induction rows with
  | nil => cases member
  | cons x xs ih =>
    simp only [maxId, List.map_cons, List.foldr_cons] at ih ⊢
    rcases List.mem_cons.mp member with rfl | tail
    · exact le_max_left _ _
    · exact (ih tail).trans (le_max_right _ _)

theorem maxId_mem {rows : List PayoutLedgerEntity} (nonempty : rows ≠ []) :
    ∃ r ∈ rows, r.id = maxId rows := by
  induction rows with
  | nil => exact absurd rfl nonempty
  | cons x xs ih =>
    have unfolded : maxId (x :: xs) = max x.id (maxId xs) := rfl
    by_cases empty : xs = []
    · subst empty
      exact ⟨x, List.mem_cons_self, by simp [maxId]⟩
    · obtain ⟨r, member, top⟩ := ih empty
      rcases le_total x.id (maxId xs) with low | high
      · exact ⟨r, List.mem_cons_of_mem _ member, by rw [unfolded, max_eq_right low, top]⟩
      · exact ⟨x, List.mem_cons_self, by rw [unfolded, max_eq_left high]⟩

/-- `IPendingPayoutCandidate`. `rowIds` is no column of the query: it says which rows the
SUM ran over, so that a payment can be traced to the credits it pays. -/
structure PendingPayoutCandidate where
  minerAddress : String
  totalPendingSats : ℤ
  maxRowId : ℕ
  rowIds : List ℕ
  deriving DecidableEq, Repr

/-- The group of one miner in a GROUP BY minerAddress. -/
def minerGroup (rows : List PayoutLedgerEntity) (minerAddress : String) : List PayoutLedgerEntity :=
  rows.filter fun r => r.minerAddress = minerAddress

def groupTotals (rows : List PayoutLedgerEntity) (minerAddress : String) : PendingPayoutCandidate where
  minerAddress := minerAddress
  totalPendingSats := sumSats (minerGroup rows minerAddress)
  maxRowId := maxId (minerGroup rows minerAddress)
  rowIds := (minerGroup rows minerAddress).map (·.id)

/-- SELECT minerAddress, SUM(amountSats), MAX(id) … GROUP BY minerAddress. -/
def groupByMiner (rows : List PayoutLedgerEntity) : List PendingPayoutCandidate :=
  (rows.map (·.minerAddress)).dedup.map (groupTotals rows)

theorem mem_groupByMiner {rows : List PayoutLedgerEntity} {c : PendingPayoutCandidate} :
    c ∈ groupByMiner rows ↔
      c.minerAddress ∈ rows.map (·.minerAddress) ∧ c = groupTotals rows c.minerAddress := by
  simp only [groupByMiner, List.mem_map, List.mem_dedup]
  constructor
  · rintro ⟨m, ⟨r, member, rfl⟩, rfl⟩
    exact ⟨⟨r, member, rfl⟩, rfl⟩
  · rintro ⟨member, eq⟩
    exact ⟨_, member, eq.symm⟩

theorem groupByMiner_nodup (rows : List PayoutLedgerEntity) :
    ((groupByMiner rows).map (·.minerAddress)).Nodup := by
  have names : (groupByMiner rows).map (·.minerAddress) = (rows.map (·.minerAddress)).dedup := by
    simp [groupByMiner, groupTotals, Function.comp_def]
  rw [names]
  exact List.nodup_dedup _

theorem minerGroup_ne_nil {rows : List PayoutLedgerEntity} {c : PendingPayoutCandidate}
    (member : c ∈ groupByMiner rows) : minerGroup rows c.minerAddress ≠ [] := by
  obtain ⟨r, inRows, same⟩ := List.mem_map.mp (mem_groupByMiner.mp member).1
  exact List.ne_nil_of_mem (List.mem_filter.mpr ⟨inRows, by simpa using same⟩)

/-- An UPDATE that touches only status and txid, sets them together and makes no row PENDING
again. -/
structure KeepsCredit (f : PayoutLedgerEntity → PayoutLedgerEntity) : Prop where
  id : ∀ r, (f r).id = r.id
  minerAddress : ∀ r, (f r).minerAddress = r.minerAddress
  blockHeight : ∀ r, (f r).blockHeight = r.blockHeight
  amountSats : ∀ r, (f r).amountSats = r.amountSats
  settled : ∀ r, r.status ≠ .pending → (f r).status ≠ .pending
  txid : ∀ r, (r.txid = none ↔ r.status = .pending) → ((f r).txid = none ↔ (f r).status = .pending)

/-- The SET and WHERE of `markSentUpTo`, on one row. -/
def PayoutLedgerEntity.markSent (minerAddress : String) (maxRowId : ℕ) (txid : String)
    (r : PayoutLedgerEntity) : PayoutLedgerEntity :=
  if r.minerAddress = minerAddress ∧ r.id ≤ maxRowId ∧ r.status = .pending then
    { r with status := .sent, txid := some txid }
  else r

/-- The SET and WHERE of `markConfirmed`, on one row. -/
def PayoutLedgerEntity.markConfirmed (txid : String) (r : PayoutLedgerEntity) : PayoutLedgerEntity :=
  if r.txid = some txid ∧ r.status = .sent then { r with status := .confirmed } else r

theorem keepsCredit_id : KeepsCredit fun r => r :=
  ⟨fun _ => rfl, fun _ => rfl, fun _ => rfl, fun _ => rfl, fun _ h => h, fun _ h => h⟩

theorem keepsCredit_markSent (m : String) (k : ℕ) (t : String) :
    KeepsCredit (PayoutLedgerEntity.markSent m k t) := by
  constructor <;> intro r <;> unfold PayoutLedgerEntity.markSent <;> split <;> simp

theorem keepsCredit_markConfirmed (t : String) : KeepsCredit (PayoutLedgerEntity.markConfirmed t) := by
  constructor <;> intro r <;> unfold PayoutLedgerEntity.markConfirmed <;> split <;> simp_all

/-- The table, in insertion order. -/
structure PayoutLedger where
  rows : List PayoutLedgerEntity
  ids : rows.map (·.id) = List.range' 1 rows.length
  positive : ∀ r ∈ rows, 0 < r.amountSats
  txids : ∀ r ∈ rows, (r.txid = none ↔ r.status = .pending)

namespace PayoutLedger

@[ext] theorem ext {L L' : PayoutLedger} (same : L.rows = L'.rows) : L = L' := by
  cases L
  cases L'
  cases same
  rfl

def empty : PayoutLedger where
  rows := []
  ids := rfl
  positive := by simp
  txids := by simp

/-- `credit`: a PENDING row without txid; nothing for an amount that is not positive. -/
def credit (L : PayoutLedger) (minerAddress : String) (amountSats blockHeight : ℤ) : PayoutLedger :=
  if positive : amountSats ≤ 0 then L
  else
    { rows := L.rows ++ [⟨L.rows.length + 1, minerAddress, blockHeight, amountSats, .pending, none⟩]
      ids := by simp [L.ids, List.range'_concat, Nat.add_comm]
      positive := by
        intro r member
        rcases List.mem_append.mp member with old | new
        · exact L.positive r old
        · rw [List.mem_singleton.mp new]
          exact not_le.mp positive
      txids := by
        intro r member
        rcases List.mem_append.mp member with old | new
        · exact L.txids r old
        · rw [List.mem_singleton.mp new]
          simp }

/-- UPDATE: one statement rewrites every row. -/
def update (L : PayoutLedger) (f : PayoutLedgerEntity → PayoutLedgerEntity) (keeps : KeepsCredit f) :
    PayoutLedger where
  rows := L.rows.map f
  ids := by simp [Function.comp_def, keeps.id, L.ids]
  positive := by
    intro r member
    obtain ⟨old, inRows, rfl⟩ := List.mem_map.mp member
    rw [keeps.amountSats]
    exact L.positive old inRows
  txids := by
    intro r member
    obtain ⟨old, inRows, rfl⟩ := List.mem_map.mp member
    exact keeps.txid old (L.txids old inRows)

def markSentUpTo (L : PayoutLedger) (minerAddress : String) (maxRowId : ℕ) (txid : String) : PayoutLedger :=
  L.update _ (keepsCredit_markSent minerAddress maxRowId txid)

def markConfirmed (L : PayoutLedger) (txid : String) : PayoutLedger :=
  L.update _ (keepsCredit_markConfirmed txid)

def pendingRows (L : PayoutLedger) : List PayoutLedgerEntity := L.rows.filter fun r => r.status = .pending

def getPendingTotal (L : PayoutLedger) (minerAddress : String) : ℤ :=
  sumSats (L.rows.filter fun r => r.minerAddress = minerAddress ∧ r.status = .pending)

def getTotalPendingAcrossAllMiners (L : PayoutLedger) : ℤ := sumSats L.pendingRows

def getAllPendingTotals (L : PayoutLedger) : List PendingPayoutCandidate := groupByMiner L.pendingRows

def getTotalPaid (L : PayoutLedger) (minerAddress : String) : ℤ :=
  sumSats (L.rows.filter fun r => r.minerAddress = minerAddress ∧ (r.status = .sent ∨ r.status = .confirmed))

/-- The rows `getMaturePendingTotals` groups. -/
def maturePending (L : PayoutLedger) (matureUpToHeight : ℤ) : List PayoutLedgerEntity :=
  L.rows.filter fun r => r.status = .pending ∧ r.blockHeight ≤ matureUpToHeight

def getMaturePendingTotals (L : PayoutLedger) (matureUpToHeight : ℤ) : List PendingPayoutCandidate :=
  groupByMiner (L.maturePending matureUpToHeight)

/-- SELECT DISTINCT txid … WHERE status = SENT, without the nulls. -/
def getDistinctSentTxids (L : PayoutLedger) : List String :=
  ((L.rows.filter fun r => r.status = .sent).filterMap (·.txid)).dedup

/-- Everything ever credited to a miner: no statement removes a row or alters its amount. -/
def totalCredited (L : PayoutLedger) (minerAddress : String) : ℤ :=
  sumSats (L.rows.filter fun r => r.minerAddress = minerAddress)

@[simp] theorem rows_markSentUpTo (L : PayoutLedger) (m : String) (k : ℕ) (t : String) :
    (L.markSentUpTo m k t).rows = L.rows.map (PayoutLedgerEntity.markSent m k t) := rfl

@[simp] theorem rows_markConfirmed (L : PayoutLedger) (t : String) :
    (L.markConfirmed t).rows = L.rows.map (PayoutLedgerEntity.markConfirmed t) := rfl

theorem rows_credit_of_pos {L : PayoutLedger} {m : String} {a h : ℤ} (positive : 0 < a) :
    (L.credit m a h).rows = L.rows ++ [⟨L.rows.length + 1, m, h, a, .pending, none⟩] := by
  simp [credit, not_le.mpr positive]

theorem credit_of_nonpos {L : PayoutLedger} {m : String} {a h : ℤ} (nonpositive : a ≤ 0) :
    L.credit m a h = L := by
  simp [credit, nonpositive]

@[simp] theorem update_id (L : PayoutLedger) : L.update _ keepsCredit_id = L := by
  ext1
  simp [update]

theorem nodup_ids (L : PayoutLedger) : (L.rows.map (·.id)).Nodup := by
  rw [L.ids]
  exact List.nodup_range'

/-- Two rows with one id are one row. -/
theorem row_eq {L : PayoutLedger} {r r' : PayoutLedgerEntity} (h : r ∈ L.rows) (h' : r' ∈ L.rows)
    (same : r.id = r'.id) : r = r' :=
  List.inj_on_of_nodup_map L.nodup_ids h h' same

theorem id_le_length {L : PayoutLedger} {r : PayoutLedgerEntity} (h : r ∈ L.rows) : r.id ≤ L.rows.length := by
  have member : r.id ∈ List.range' 1 L.rows.length := L.ids ▸ List.mem_map_of_mem h
  have := List.mem_range'_1.mp member
  omega

theorem one_le_id {L : PayoutLedger} {r : PayoutLedgerEntity} (h : r ∈ L.rows) : 1 ≤ r.id := by
  have member : r.id ∈ List.range' 1 L.rows.length := L.ids ▸ List.mem_map_of_mem h
  exact (List.mem_range'_1.mp member).1

theorem maxId_le_length {L : PayoutLedger} {rows : List PayoutLedgerEntity} (sub : rows ⊆ L.rows) :
    maxId rows ≤ L.rows.length := by
  by_cases empty : rows = []
  · subst empty
    simp [maxId]
  · obtain ⟨r, member, top⟩ := maxId_mem empty
    rw [← top]
    exact id_le_length (sub member)

/-! ## What statements preserve -/

/-- `L'` is `L` after some statements: its rows with their status moved on, then new rows. -/
def Later (L L' : PayoutLedger) : Prop :=
  ∃ f new, KeepsCredit f ∧ L'.rows = L.rows.map f ++ new

theorem Later.refl (L : PayoutLedger) : Later L L :=
  ⟨_, [], keepsCredit_id, by simp⟩

theorem later_update (L : PayoutLedger) {f : PayoutLedgerEntity → PayoutLedgerEntity} (keeps : KeepsCredit f) :
    Later L (L.update f keeps) := ⟨f, [], keeps, by simp [update]⟩

theorem later_credit (L : PayoutLedger) (m : String) (a h : ℤ) : Later L (L.credit m a h) := by
  by_cases nonpositive : a ≤ 0
  · rw [credit_of_nonpos nonpositive]
    exact .refl L
  · refine ⟨_, [⟨L.rows.length + 1, m, h, a, .pending, none⟩], keepsCredit_id, ?_⟩
    rw [rows_credit_of_pos (not_le.mp nonpositive), List.map_id']

/-- A new row has an id no earlier row had. -/
theorem new_id_gt {L L' : PayoutLedger} {old new : List PayoutLedgerEntity} (rows : L'.rows = old ++ new)
    (length : old.length = L.rows.length) {r : PayoutLedgerEntity} (member : r ∈ new) : L.rows.length < r.id := by
  have ids := L'.ids
  rw [rows, List.map_append, List.length_append, ← List.range'_append_1] at ids
  have tail := (List.append_inj ids (by simp)).2
  have inRange : r.id ∈ List.range' (1 + old.length) new.length := tail ▸ List.mem_map_of_mem member
  have := (List.mem_range'_1.mp inRange).1
  omega

/-- The rows of some ids for a miner. -/
def paidRows (L : PayoutLedger) (minerAddress : String) (ids : List ℕ) : List PayoutLedgerEntity :=
  L.rows.filter fun r => r.minerAddress = minerAddress ∧ r.id ∈ ids

/-- What existing ids are worth never changes. -/
theorem Later.sumSats_paidRows {L L' : PayoutLedger} (later : Later L L') {ids : List ℕ} (m : String)
    (exist : ∀ i ∈ ids, i ≤ L.rows.length) : sumSats (L'.paidRows m ids) = sumSats (L.paidRows m ids) := by
  obtain ⟨f, new, keeps, rows⟩ := later
  have none : new.filter (fun r => r.minerAddress = m ∧ r.id ∈ ids) = [] := by
    refine List.filter_eq_nil_iff.mpr fun r member selected => ?_
    have above := new_id_gt (L := L) rows (by simp) member
    have := exist r.id (by simpa using (of_decide_eq_true selected).2)
    omega
  rw [paidRows, paidRows, rows, List.filter_append, none, List.append_nil, List.filter_map]
  simp [sumSats, Function.comp_def, keeps.amountSats, keeps.minerAddress, keeps.id]

theorem Later.length_le {L L' : PayoutLedger} (later : Later L L') : L.rows.length ≤ L'.rows.length := by
  obtain ⟨f, new, -, rows⟩ := later
  simp [rows]

/-- A row keeps its id, miner, height and amount. -/
theorem Later.row {L L' : PayoutLedger} (later : Later L L') {r : PayoutLedgerEntity} (member : r ∈ L.rows) :
    ∃ r' ∈ L'.rows, r'.id = r.id ∧ r'.minerAddress = r.minerAddress ∧ r'.blockHeight = r.blockHeight ∧
      r'.amountSats = r.amountSats := by
  obtain ⟨f, new, keeps, rows⟩ := later
  exact ⟨f r, by rw [rows]; exact List.mem_append_left _ (List.mem_map_of_mem member),
    keeps.id r, keeps.minerAddress r, keeps.blockHeight r, keeps.amountSats r⟩

/-- The row with this id is still PENDING. -/
def Pending (L : PayoutLedger) (id : ℕ) : Prop := ∃ r ∈ L.rows, r.id = id ∧ r.status = .pending

/-- No statement makes a row PENDING that was not. -/
theorem Later.pending {L L' : PayoutLedger} (later : Later L L') {id : ℕ} (old : id ≤ L.rows.length)
    (pending : L'.Pending id) : L.Pending id := by
  obtain ⟨f, new, keeps, rows⟩ := later
  obtain ⟨r', member, same, status⟩ := pending
  rw [rows] at member
  rcases List.mem_append.mp member with moved | fresh
  · obtain ⟨r, inRows, rfl⟩ := List.mem_map.mp moved
    refine ⟨r, inRows, (keeps.id r).symm.trans same, ?_⟩
    by_contra settled
    exact keeps.settled r settled status
  · have above := new_id_gt (L := L) rows (by simp) fresh
    omega

/-- A ledger statement leaves the worth of the table alone unless it inserts. -/
theorem sumSats_update (L : PayoutLedger) {f : PayoutLedgerEntity → PayoutLedgerEntity} (keeps : KeepsCredit f) :
    sumSats (L.update f keeps).rows = sumSats L.rows := by
  simp [update, sumSats, Function.comp_def, keeps.amountSats]

/-- Disjoint sets of ids are together worth at most what the miner was credited. -/
theorem sum_paidRows_le (L : PayoutLedger) (m : String) {groups : List (List ℕ)} (disjoint : groups.flatten.Nodup) :
    (groups.map fun ids => sumSats (L.paidRows m ids)).sum ≤ L.totalCredited m := by
  have own : ∀ ids, L.paidRows m ids = (minerGroup L.rows m).filter fun r => r.id ∈ ids := by
    intro ids
    rw [paidRows, minerGroup, List.filter_filter]
    apply List.filter_congr
    intro r _
    rw [← Bool.decide_and, decide_eq_decide]
    exact and_comm
  have joined : (groups.map fun ids => sumSats (L.paidRows m ids)).sum = sumSats (L.paidRows m groups.flatten) := by
    simp only [own]
    exact sum_filter_ids _ disjoint
  rw [joined]
  exact sumSats_filter_le L.positive fun r selected => by simp_all

end PayoutLedger

end ElektronPool.Pplns
