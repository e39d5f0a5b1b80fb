import ElektronPool.Async.Run
import ElektronPool.Js.Hex
import ElektronPool.Pplns.Batches
import ElektronPool.Stratum.SubmittedBlock
import Mathlib.Data.List.Sort

/-!
# Shares reported to another pool

A pool posts its best shares to a board, which trusts the API key and the header but not the
difficulty: it hashes the header again. `rows_eq` says that the table of the board is what one makes of the shares
themselves, so that nothing is lost between the two; `board_of_run` what its list is worth.
-/

namespace ElektronPool.Stratum
set_option autoImplicit false
open Js Bitcoin Async Pplns

/-! ## The pool -/

/-- What both sides call in third-party packages. `Block.fromBuffer`, `none` where it throws, reads the time of a bare
header where it stands. -/
structure BoardPackages where
  hash256 : Buffer → Hash
  toOutputScript : Network → String → Option Buffer
  maxLength : ℕ → String → Bool
  blockTimestamp : Buffer → Option ℕ
  blockTimestamp_header : ∀ {h : Buffer}, h.length = 80 → blockTimestamp h = some (leValue ((h.drop 68).take 4))

structure ExternalPoolShare where
  worker : String
  address : String
  userAgent : String
  externalPoolName : String
  header : String
  deriving DecidableEq

/-- A session that has shares, as `AuthorizationMessage` and `SubscriptionMessage` let it pass. -/
structure MinerSession (P : BoardPackages) where
  address : String
  worker : String
  userAgent : String
  worker_length : P.maxLength 64 worker = true
  userAgent_length : P.maxLength 128 userAgent = true

/-- An accepted share, of which the rest of `handleMiningSubmission` uses the header. -/
structure MinedShare where
  header : Buffer
  length_eq : header.length = 80

namespace MinedShare

def difficulty (P : BoardPackages) (share : MinedShare) : Number := calculateDifficulty P.hash256 share.header

/-- The time in the header. -/
def ntime (share : MinedShare) : ℕ := leValue ((share.header.drop 68).take 4)

end MinedShare

/-- Every share that is accepted is one of these, and its difficulty is the one it was judged by. -/
theorem accepted_of_handleMiningSubmission {P : Packages} {service : JobsService P} {i : ℕ} {c : Client}
    {m : MiningSubmitMessage} {share : Share P}
    (judged : (handleMiningSubmission service i c m).2 = .accepted share) :
    share.header.length = 80 ∧ share.submissionDifficulty = calculateDifficulty P.hash256 share.header := by
  unfold handleMiningSubmission at judged
  split at judged
  · cases judged
  split at judged
  · cases judged
  split at judged
  · cases judged
  dsimp only at judged
  split at judged
  · cases judged
  · rename_i header built
    split at judged
    · cases judged
      exact ⟨MiningJob.length_buildHeaderBuffer built, rfl⟩
    · cases judged

section
variable (P : BoardPackages) (config : ConfigService)

def defaultMinimumDifficulty : Number := .fin 1000000000000

/-- `parseFloat(config.get('MINIMUM_DIFFICULTY')) || 1000000000000.0`. -/
def minimumDifficulty : Number :=
  match parseFloat ((config "MINIMUM_DIFFICULTY").getD "undefined") with
  | .nan => defaultMinimumDifficulty
  | .fin q => if q = 0 then defaultMinimumDifficulty else .fin q
  | other => other

def externalShareSubmissionEnabled : Bool :=
  ((config "EXTERNAL_SHARE_SUBMISSION_ENABLED").map fun text => text.toLower == "true").getD false

def externalPoolName : String := ((config "POOL_IDENTIFIER").filter (· ≠ "")).getD "Elektron-PPLNS-Pool"

/-- The share is good enough to be posted. -/
def IsReported (share : MinedShare) : Prop :=
  externalShareSubmissionEnabled config = true ∧ (share.difficulty P).ge (minimumDifficulty config) = true

instance (share : MinedShare) : Decidable (IsReported P config share) :=
  inferInstanceAs (Decidable (_ ∧ _))

/-- The body of the request. -/
def externalShare {P : BoardPackages} (session : MinerSession P) (share : MinedShare) : ExternalPoolShare where
  worker := session.worker
  address := session.address
  userAgent := session.userAgent
  externalPoolName := externalPoolName config
  header := printHex share.header

/-- `submitShare`: what is posted, with the `x-api-key`. -/
def submitShare {P : BoardPackages} (session : MinerSession P) (share : MinedShare) :
    ExternalPoolShare × Option String :=
  (externalShare config session share, config "SHARE_SUBMISSION_API_KEY")

end

/-! ## The board -/

/-- The settings of the board; its minimum is as `Number` reads it. -/
structure ExternalShareController where
  apiKey : Option String
  minimumDifficulty : Number
  config : StratumConfig

/-- A difficulty in the table is a number. -/
structure ExternalSharesEntity where
  address : String
  clientName : String
  time : ℤ
  difficulty : { d : Number // d.ge d = true }
  userAgent : String
  externalPoolName : String
  header : String
  deriving DecidableEq

theorem calculateDifficulty_ge_self (hash256 : Buffer → Hash) (header : Buffer) :
    (calculateDifficulty hash256 header).ge (calculateDifficulty hash256 header) = true :=
  (Number.ge_self_of_lt (submissionDifficulty_pos _)).2

def ExternalPoolShare.isValid (P : BoardPackages) (config : StratumConfig) (share : ExternalPoolShare) : Bool :=
  P.maxLength 64 share.worker && BitcoinAddressValidator.validate P.toOutputScript config share.address &&
    P.maxLength 128 share.userAgent && P.maxLength 128 share.externalPoolName && isHex share.header

inductive ShareAnswer where
  | badRequest
  | unauthorized (message : String)
  | threw
  | success (row : ExternalSharesEntity)
  deriving DecidableEq

namespace ExternalShareController

/-- The key is checked if one is configured. -/
def Admits (board : ExternalShareController) (apiKey : Option String) : Prop :=
  ∀ key, board.apiKey = some key → key ≠ "" → apiKey = some key

instance (board : ExternalShareController) (apiKey : Option String) : Decidable (board.Admits apiKey) :=
  inferInstanceAs (Decidable (∀ key, board.apiKey = some key → key ≠ "" → apiKey = some key))

/-- A request, with the two readings of the clock. -/
def submitExternalShare (board : ExternalShareController) (P : BoardPackages) (now later : ℤ) (share : ExternalPoolShare)
    (apiKey : Option String) : ShareAnswer :=
  if share.isValid P board.config = false then .badRequest
  else if ¬ board.Admits apiKey then .unauthorized "Invalid API key"
  else
    let headerBuffer := readHex share.header
    let difficulty := calculateDifficulty P.hash256 headerBuffer
    if difficulty.lt board.minimumDifficulty then .unauthorized "Share difficulty too low"
    else
      match P.blockTimestamp headerBuffer with
      | none => .threw
      | some timestamp =>
        let tenMinutesAgo := now / 1000 - 10 * 60
        if timestamp < tenMinutesAgo then .unauthorized "Share timestamp too old - must be within last 10 minutes"
        else .success ⟨share.address, share.worker, later, ⟨difficulty, calculateDifficulty_ge_self ..⟩,
          share.userAgent, share.externalPoolName, share.header⟩

end ExternalShareController

/-- What is inserted for an answer. -/
def ShareAnswer.row : ShareAnswer → Option ExternalSharesEntity
  | .success row => some row
  | _ => none

/-! ## getTopDifficulties -/

structure TopDifficulty where
  userAgent : String
  time : ℤ
  externalPoolName : String
  difficulty : Number
  deriving DecidableEq

namespace ExternalSharesEntity

def topDifficulty (row : ExternalSharesEntity) : TopDifficulty :=
  ⟨row.userAgent, row.time, row.externalPoolName, row.difficulty⟩

/-- `row` is at least as good. -/
def Beats (row other : ExternalSharesEntity) : Prop := row.difficulty.val.ge other.difficulty.val = true

instance : DecidableRel Beats := fun _ _ => inferInstanceAs (Decidable (_ = true))

/-- The row of a group with `MAX(share.difficulty)`, from which the other columns are taken. -/
def better (best : Option ExternalSharesEntity) (row : ExternalSharesEntity) : Option ExternalSharesEntity :=
  match best with
  | none => some row
  | some old => if old.difficulty.val.lt row.difficulty.val then some row else some old

def bestOf (rows : List ExternalSharesEntity) (address : String) : Option ExternalSharesEntity :=
  (rows.filter (·.address = address)).foldl better none

/-- `GROUP BY address ORDER BY MAX(difficulty) DESC LIMIT 10`. -/
def topRows (rows : List ExternalSharesEntity) : List ExternalSharesEntity :=
  (((rows.map (·.address)).dedup.filterMap (bestOf rows)).insertionSort Beats).take 10

end ExternalSharesEntity

def getTopDifficulties (rows : List ExternalSharesEntity) : List TopDifficulty :=
  (ExternalSharesEntity.topRows rows).map (·.topDifficulty)

namespace ExternalSharesEntity

theorem Beats.refl (row : ExternalSharesEntity) : row.Beats row := row.difficulty.2

instance : IsTrans ExternalSharesEntity Beats := ⟨fun _ _ _ first second => Number.ge_trans first second⟩

instance : Std.Total Beats where
  total row other := by
    by_cases below : row.difficulty.val.lt other.difficulty.val = true
    · exact .inr (Number.ge_of_lt below)
    · exact .inl (Number.ge_of_lt_eq_false row.difficulty.2 other.difficulty.2 (by simpa using below))

section
variable {rows : List ExternalSharesEntity} {row best : ExternalSharesEntity} {address : String}

theorem foldl_better (rows : List ExternalSharesEntity) (old : ExternalSharesEntity) :
    ∃ best, rows.foldl better (some old) = some best ∧ (best = old ∨ best ∈ rows) ∧ best.Beats old ∧
      ∀ row ∈ rows, best.Beats row := by
  induction rows generalizing old with
  | nil => exact ⟨old, rfl, .inl rfl, .refl old, by simp⟩
  | cons row rows ih =>
    rw [List.foldl_cons]
    by_cases below : old.difficulty.val.lt row.difficulty.val = true
    · obtain ⟨best, found, from_, beats, all⟩ := ih row
      refine ⟨best, by rwa [better, if_pos below], ?_, ?_, List.forall_mem_cons.mpr ⟨beats, all⟩⟩
      · exact .inr (List.mem_cons.mpr from_)
      · exact Number.ge_trans beats (Number.ge_of_lt below)
    · obtain ⟨best, found, from_, beats, all⟩ := ih old
      have kept : old.Beats row := Number.ge_of_lt_eq_false old.difficulty.2 row.difficulty.2 (by simpa using below)
      refine ⟨best, by rwa [better, if_neg below], ?_, beats,
        List.forall_mem_cons.mpr ⟨Number.ge_trans beats kept, all⟩⟩
      exact from_.imp_right (List.mem_cons_of_mem row)

/-- Every address of the table has a best row. -/
theorem exists_bestOf (known : address ∈ rows.map (·.address)) : ∃ best, bestOf rows address = some best ∧
    best ∈ rows ∧ best.address = address ∧ ∀ row ∈ rows, row.address = address → best.Beats row := by
  obtain ⟨row, member, rfl⟩ := List.mem_map.mp known
  have chosen : row ∈ rows.filter (·.address = row.address) := List.mem_filter.mpr ⟨member, decide_eq_true rfl⟩
  obtain ⟨first, rest, split⟩ := List.exists_cons_of_ne_nil (List.ne_nil_of_mem chosen)
  obtain ⟨best, found, from_, beats, all⟩ := foldl_better rest first
  have among : best ∈ rows.filter (·.address = row.address) := by
    rw [split]
    exact List.mem_cons.mpr from_
  obtain ⟨inside, same⟩ := List.mem_filter.mp among
  refine ⟨best, ?_, inside, of_decide_eq_true same, fun other here its => ?_⟩
  · rw [bestOf, split, List.foldl_cons]
    exact found
  · have other_chosen : other ∈ first :: rest := by
      rw [← split]
      exact List.mem_filter.mpr ⟨here, decide_eq_true its⟩
    rcases List.mem_cons.mp other_chosen with rfl | later
    · exact beats
    · exact all other later

theorem address_filterMap_bestOf {addresses : List String} (known : addresses ⊆ rows.map (·.address)) :
    (addresses.filterMap (bestOf rows)).map (·.address) = addresses := by
  induction addresses with
  | nil => rfl
  | cons address addresses ih =>
    obtain ⟨here, rest⟩ := List.cons_subset.mp known
    obtain ⟨best, found, -, same, -⟩ := exists_bestOf here
    rw [List.filterMap_cons_some found, List.map_cons, same, ih rest]

/-- The best rows of all addresses, in order. -/
theorem mem_groups {row : ExternalSharesEntity} :
    row ∈ ((rows.map (·.address)).dedup.filterMap (bestOf rows)).insertionSort Beats ↔
      ∃ address ∈ rows.map (·.address), bestOf rows address = some row := by
  rw [List.mem_insertionSort, List.mem_filterMap]
  simp only [List.mem_dedup]

/-- What is in front of a sorted list beats what is behind. -/
theorem beats_of_take {sorted : List ExternalSharesEntity} (ordered : sorted.Pairwise Beats) {n : ℕ}
    (front : row ∈ sorted.take n) (behind : best ∈ sorted.drop n) : row.Beats best := by
  rw [← List.take_append_drop n sorted] at ordered
  exact (List.pairwise_append.mp ordered).2.2 row front best behind

end

/-- **The list of the best**: at most ten addresses, each once and with its best row, in order, and who is missing
is beaten by all ten. -/
theorem topRows_spec (rows : List ExternalSharesEntity) :
    (topRows rows).length ≤ 10 ∧ ((topRows rows).map (·.address)).Nodup ∧ (topRows rows).Pairwise Beats ∧
    (∀ best ∈ topRows rows, best ∈ rows ∧ ∀ row ∈ rows, row.address = best.address → best.Beats row) ∧
    ∀ row ∈ rows, row.address ∈ (topRows rows).map (·.address) ∨
      (topRows rows).length = 10 ∧ ∀ best ∈ topRows rows, best.Beats row := by
  have ordered := List.pairwise_insertionSort Beats ((rows.map (·.address)).dedup.filterMap (bestOf rows))
  have addresses : ((((rows.map (·.address)).dedup.filterMap (bestOf rows)).insertionSort Beats).map (·.address)).Nodup := by
    rw [((List.perm_insertionSort Beats _).map _).nodup_iff, address_filterMap_bestOf (List.dedup_subset _)]
    exact List.nodup_dedup _
  refine ⟨List.length_take_le .., ?_, ordered.sublist (List.take_sublist ..), ?_, ?_⟩
  · exact addresses.sublist ((List.take_sublist ..).map _)
  · intro best member
    obtain ⟨address, known, found⟩ := mem_groups.mp (List.mem_of_mem_take member)
    obtain ⟨best', found', inside, same, all⟩ := exists_bestOf known
    cases found.symm.trans found'
    exact ⟨inside, fun row here its => all row here (its.trans same)⟩
  · intro row member
    have known : row.address ∈ rows.map (·.address) := List.mem_map_of_mem member
    obtain ⟨best, found, -, same, all⟩ := exists_bestOf known
    have grouped : best ∈ ((rows.map (·.address)).dedup.filterMap (bestOf rows)).insertionSort Beats :=
      mem_groups.mpr ⟨_, known, found⟩
    rw [← List.take_append_drop 10 (((rows.map (·.address)).dedup.filterMap (bestOf rows)).insertionSort Beats),
      List.mem_append] at grouped
    rcases grouped with front | behind
    · exact .inl (List.mem_map.mpr ⟨best, front, same⟩)
    · refine .inr ⟨?_, fun top front => ?_⟩
      · have more := List.length_pos_of_mem behind
        rw [List.length_drop] at more
        rw [topRows, List.length_take]
        omega
      · exact Number.ge_trans (beats_of_take ordered front behind) (all row member rfl)

end ExternalSharesEntity

/-! ## A share on its way -/

section
variable {P : BoardPackages} {config : ConfigService} {board : ExternalShareController}

/-- What the board asks of a share of the pool, put about the share. -/
structure Counts (config : ConfigService) (board : ExternalShareController) (session : MinerSession P)
    (share : MinedShare) (now : ℤ) : Prop where
  address : BitcoinAddressValidator.validate P.toOutputScript board.config session.address = true
  externalPoolName : P.maxLength 128 (externalPoolName config) = true
  apiKey : board.Admits (config "SHARE_SUBMISSION_API_KEY")
  difficulty : (share.difficulty P).lt board.minimumDifficulty = false
  recent : now / 1000 - 10 * 60 ≤ share.ntime

instance (session : MinerSession P) (share : MinedShare) (now : ℤ) :
    Decidable (Counts config board session share now) :=
  decidable_of_iff (BitcoinAddressValidator.validate P.toOutputScript board.config session.address = true ∧
      P.maxLength 128 (externalPoolName config) = true ∧ board.Admits (config "SHARE_SUBMISSION_API_KEY") ∧
      (share.difficulty P).lt board.minimumDifficulty = false ∧ now / 1000 - 10 * 60 ≤ share.ntime)
    ⟨fun ⟨a, b, c, d, e⟩ => ⟨a, b, c, d, e⟩, fun ⟨a, b, c, d, e⟩ => ⟨a, b, c, d, e⟩⟩

/-- The row of a share, from the share. -/
def MinedShare.row (config : ConfigService) (session : MinerSession P) (share : MinedShare) (time : ℤ) :
    ExternalSharesEntity where
  address := session.address
  clientName := session.worker
  time := time
  difficulty := ⟨share.difficulty P, calculateDifficulty_ge_self ..⟩
  userAgent := session.userAgent
  externalPoolName := externalPoolName config
  header := printHex share.header

theorem isValid_externalShare (config : ConfigService) (session : MinerSession P) (share : MinedShare)
    (boardConfig : StratumConfig) : (externalShare config session share).isValid P boardConfig = true ↔
      BitcoinAddressValidator.validate P.toOutputScript boardConfig session.address = true ∧
        P.maxLength 128 (externalPoolName config) = true := by
  have nonempty : share.header ≠ [] := by
    intro empty
    have length := share.length_eq
    rw [empty] at length
    cases length
  simp [ExternalPoolShare.isValid, externalShare, session.worker_length, session.userAgent_length, isHex_printHex nonempty]

/-- **The two ends agree**: the board makes the same row of a posted share as one would of the share itself. -/
theorem row_submitExternalShare (session : MinerSession P) (share : MinedShare) (now later : ℤ) :
    (board.submitExternalShare P now later (submitShare config session share).1 (submitShare config session share).2).row =
      if Counts config board session share now then some (share.row config session later) else none := by
  have bytes : readHex (externalShare config session share).header = share.header := readHex_printHex share.header
  have read : P.blockTimestamp share.header = some share.ntime := P.blockTimestamp_header share.length_eq
  have valid := isValid_externalShare config session share board.config
  unfold ExternalShareController.submitExternalShare submitShare
  simp only [bytes, read]
  split
  · rename_i invalid
    rw [if_neg]
    · rfl
    · intro counts
      rw [valid.mpr ⟨counts.address, counts.externalPoolName⟩] at invalid
      cases invalid
  rename_i isValid
  obtain ⟨address, name⟩ := valid.mp (by simpa using isValid)
  split
  · rename_i refused
    rw [if_neg fun counts : Counts config board session share now => refused counts.apiKey]
    rfl
  rename_i admits
  split
  · rename_i low
    rw [if_neg]
    · rfl
    · intro counts
      exact absurd counts.difficulty (by simpa [MinedShare.difficulty] using low)
  rename_i enough
  split
  · rename_i old
    rw [if_neg fun counts : Counts config board session share now => absurd counts.recent (by omega)]
    rfl
  rename_i recent
  rw [if_pos ⟨address, name, not_not.mp admits, by simpa [MinedShare.difficulty] using enough, by omega⟩]
  rfl

/-- Whatever is posted, a row has the difficulty of its header, and the header its age. -/
structure Earned (P : BoardPackages) (board : ExternalShareController) (row : ExternalSharesEntity) : Prop where
  address : BitcoinAddressValidator.validate P.toOutputScript board.config row.address = true
  difficulty : row.difficulty.val = calculateDifficulty P.hash256 (readHex row.header)
  enough : row.difficulty.val.lt board.minimumDifficulty = false
  recent : ∃ now ≤ row.time, ∃ timestamp ∈ P.blockTimestamp (readHex row.header), now / 1000 - 10 * 60 ≤ timestamp

theorem earned_of_row {share : ExternalPoolShare} {apiKey : Option String} {now later : ℤ} {row : ExternalSharesEntity}
    (le : now ≤ later) (counted : (board.submitExternalShare P now later share apiKey).row = some row) :
    Earned P board row ∧ board.Admits apiKey := by
  unfold ExternalShareController.submitExternalShare at counted
  split at counted
  · cases counted
  rename_i valid
  split at counted
  · cases counted
  rename_i admits
  dsimp only at counted
  split at counted
  · cases counted
  rename_i enough
  split at counted
  · cases counted
  rename_i timestamp read
  split at counted
  · cases counted
  rename_i recent
  cases counted
  simp only [ExternalPoolShare.isValid, Bool.not_eq_false, Bool.and_eq_true] at valid
  exact ⟨⟨valid.1.1.1.2, rfl, by simpa using enough, now, le, timestamp, read, by omega⟩, not_not.mp admits⟩

end

/-! ## Runs -/

structure SharingWorld where
  now : ℤ
  /-- Requests of the pool that have not been answered. -/
  inFlight : List (ExternalPoolShare × Option String)
  rows : List ExternalSharesEntity
  deriving DecidableEq

/-- What happens at the pool, on the way and at the board. A request takes some time there, and its insertion may
fail; anyone may post. -/
inductive SharingEvent (P : BoardPackages) where
  | wait (ms : ℕ)
  | handled (session : MinerSession P) (share : MinedShare)
  | delivered (k ms : ℕ) (inserted : Bool)
  | lost (k : ℕ)
  | request (share : ExternalPoolShare) (apiKey : Option String) (ms : ℕ) (inserted : Bool)

/-- What the board has been sent: a share of the pool, or what others made up. -/
inductive Post (P : BoardPackages) where
  | own (session : MinerSession P) (share : MinedShare)
  | other (share : ExternalPoolShare) (apiKey : Option String)

structure Arrival (P : BoardPackages) where
  post : Post P
  now : ℤ
  later : ℤ
  inserted : Bool

abbrev SessionShare (P : BoardPackages) := MinerSession P × MinedShare

/-- What has become of the shares of the pool, and all that has come in at the board. -/
structure SharingLog (P : BoardPackages) where
  handled : List (SessionShare P)
  inFlight : List (SessionShare P)
  lost : List (SessionShare P)
  arrived : List (Arrival P)

section
variable (P : BoardPackages) (config : ConfigService) (board : ExternalShareController)

namespace SharingWorld

def initial (now : ℤ) : SharingWorld := ⟨now, [], []⟩

def receive (w : SharingWorld) (share : ExternalPoolShare) (apiKey : Option String) (ms : ℕ) (inserted : Bool) :
    SharingWorld :=
  { w with
    now := w.now + ms
    rows := w.rows ++
      (if inserted then (board.submitExternalShare P w.now (w.now + ms) share apiKey).row else none).toList }

def step (w : SharingWorld) : SharingEvent P → Option SharingWorld
  | .wait ms => some { w with now := w.now + ms }
  | .handled session share =>
    some (if IsReported P config share then { w with inFlight := w.inFlight ++ [submitShare config session share] } else w)
  | .delivered k ms inserted =>
    w.inFlight[k]?.map fun post => { w.receive P board post.1 post.2 ms inserted with inFlight := w.inFlight.eraseIdx k }
  | .lost k => w.inFlight[k]?.map fun _ => { w with inFlight := w.inFlight.eraseIdx k }
  | .request share apiKey ms inserted => some (w.receive P board share apiKey ms inserted)

end SharingWorld

def SharingLog.empty : SharingLog P := ⟨[], [], [], []⟩

def recordShares (g : SharingLog P) (w : SharingWorld) : SharingEvent P → SharingWorld → SharingLog P
  | .wait _, _ => g
  | .handled session share, _ =>
    { g with
      handled := g.handled ++ [(session, share)]
      inFlight := if IsReported P config share then g.inFlight ++ [(session, share)] else g.inFlight }
  | .delivered k _ inserted, w' =>
    match g.inFlight[k]? with
    | some (session, share) =>
      { g with
        inFlight := g.inFlight.eraseIdx k
        arrived := g.arrived ++ [⟨.own session share, w.now, w'.now, inserted⟩] }
    | none => g
  | .lost k, _ =>
    match g.inFlight[k]? with
    | some sent => { g with inFlight := g.inFlight.eraseIdx k, lost := g.lost ++ [sent] }
    | none => g
  | .request share apiKey _ inserted, w' =>
    { g with arrived := g.arrived ++ [⟨.other share apiKey, w.now, w'.now, inserted⟩] }

/-- The row of an arrival: of the share itself, where it is one of the pool. -/
def Arrival.row (a : Arrival P) : Option ExternalSharesEntity :=
  if a.inserted then
    match a.post with
    | .own session share =>
      if Counts config board session share a.now then some (share.row config session a.later) else none
    | .other share apiKey => (board.submitExternalShare P a.now a.later share apiKey).row
  else none

def Arrival.share? (a : Arrival P) : Option (SessionShare P) :=
  match a.post with
  | .own session share => some (session, share)
  | .other _ _ => none

end

section
variable {P : BoardPackages} {config : ConfigService} {board : ExternalShareController}

/-- The world against what has happened. -/
structure Shared (config : ConfigService) (board : ExternalShareController) (w : SharingWorld) (g : SharingLog P) :
    Prop where
  inFlight : w.inFlight = g.inFlight.map fun sent => submitShare config sent.1 sent.2
  rows : w.rows = g.arrived.filterMap (Arrival.row P config board)
  once : (g.inFlight ++ g.lost ++ g.arrived.filterMap (Arrival.share? P)).Perm
    (g.handled.filter fun sent => IsReported P config sent.2)
  clock : ∀ a ∈ g.arrived, a.now ≤ a.later

/-- The request that has arrived. -/
def Post.request (config : ConfigService) : Post P → ExternalPoolShare × Option String
  | .own session share => submitShare config session share
  | .other share apiKey => (share, apiKey)

/-- What one more arrival puts into the table is what the board makes of the request. -/
theorem row_arrival (a : Arrival P) :
    a.row P config board = if a.inserted then
      (board.submitExternalShare P a.now a.later (a.post.request config).1 (a.post.request config).2).row else none := by
  obtain ⟨post, now, later, inserted⟩ := a
  cases post with
  | own session share => simp only [Arrival.row, Post.request, row_submitExternalShare]
  | other share apiKey => rfl

theorem filterMap_append_singleton {α β : Type*} (f : α → Option β) (l : List α) (a : α) :
    (l ++ [a]).filterMap f = l.filterMap f ++ (f a).toList := by
  rw [List.filterMap_append]
  cases found : f a <;> simp [found]

theorem perm_append_insert {α : Type*} (l m : List α) (a : α) : (l ++ [a] ++ m).Perm (l ++ m ++ [a]) := by
  rw [List.append_assoc, List.append_assoc]
  exact List.perm_append_comm.append_left l

/-- An element goes from one list to the end of another. -/
theorem perm_move {α : Type*} {l m : List α} {k : ℕ} {a : α} (here : l[k]? = some a) :
    (l.eraseIdx k ++ (m ++ [a])).Perm (l ++ m) := by
  obtain ⟨bound, rfl⟩ := List.getElem?_eq_some_iff.mp here
  have put_back : (l.eraseIdx k ++ [l[k]]).Perm l :=
    (List.perm_append_singleton ..).trans (List.getElem_cons_eraseIdx_perm bound)
  rw [← List.append_assoc]
  exact (perm_append_insert ..).symm.trans (put_back.append_right m)

theorem shared_initial (now : ℤ) : Shared config board (.initial now) (.empty P) where
  inFlight := rfl
  rows := rfl
  once := by simp [SharingLog.empty]
  clock := by simp [SharingLog.empty]

/-- An arrival makes its row. -/
theorem Shared.receive {w : SharingWorld} {g : SharingLog P} (shared : Shared config board w g) (post : Post P) (ms : ℕ)
    (inserted : Bool) :
    (w.receive P board (post.request config).1 (post.request config).2 ms inserted).rows =
      (g.arrived ++ [(⟨post, w.now, w.now + ms, inserted⟩ : Arrival P)]).filterMap (Arrival.row P config board) := by
  rw [filterMap_append_singleton, row_arrival, ← shared.rows]
  rfl

theorem Shared.step {w w' : SharingWorld} {g : SharingLog P} {e : SharingEvent P} (shared : Shared config board w g)
    (moved : SharingWorld.step P config board w e = some w') :
    Shared config board w' (recordShares P config g w e w') := by
  cases e with
  | wait ms =>
    cases moved
    exact ⟨shared.inFlight, shared.rows, shared.once, shared.clock⟩
  | handled session share =>
    cases moved
    by_cases reported : IsReported P config share
    · simp only [recordShares, if_pos reported]
      refine ⟨?_, shared.rows, ?_, shared.clock⟩
      · simp [shared.inFlight]
      · have more := shared.once.append_right [(session, share)]
        rw [List.filter_append, List.filter_cons_of_pos (by simpa using reported), List.filter_nil]
        rw [List.append_assoc]
        exact (perm_append_insert ..).trans (by rwa [← List.append_assoc])
    · simp only [recordShares, if_neg reported]
      refine ⟨shared.inFlight, shared.rows, ?_, shared.clock⟩
      rw [List.filter_append, List.filter_cons_of_neg (by simpa using reported), List.filter_nil, List.append_nil]
      exact shared.once
  | delivered k ms inserted =>
    obtain ⟨post, here, rfl⟩ := Option.map_eq_some_iff.mp moved
    rw [shared.inFlight, List.getElem?_map, Option.map_eq_some_iff] at here
    obtain ⟨⟨session, share⟩, at_k, rfl⟩ := here
    simp only [recordShares, at_k]
    refine ⟨?_, ?_, ?_, ?_⟩
    · rw [shared.inFlight, List.eraseIdx_map]
    · exact shared.receive (.own session share) ms inserted
    · rw [filterMap_append_singleton, List.append_assoc, ← List.append_assoc g.lost]
      refine (perm_move at_k).trans ?_
      rw [← List.append_assoc]
      exact shared.once
    · intro a member
      rcases List.mem_append.mp member with old | new
      · exact shared.clock a old
      · rw [List.mem_singleton.mp new]
        simp [SharingWorld.receive]
  | lost k =>
    obtain ⟨post, here, rfl⟩ := Option.map_eq_some_iff.mp moved
    rw [shared.inFlight, List.getElem?_map, Option.map_eq_some_iff] at here
    obtain ⟨sent, at_k, rfl⟩ := here
    simp only [recordShares, at_k]
    refine ⟨?_, shared.rows, ?_, shared.clock⟩
    · rw [shared.inFlight, List.eraseIdx_map]
    · exact ((perm_move at_k).append_right _).trans shared.once
  | request share apiKey ms inserted =>
    cases moved
    refine ⟨shared.inFlight, shared.receive (.other share apiKey) ms inserted, ?_, ?_⟩
    · simp only [recordShares, filterMap_append_singleton, Arrival.share?, Option.toList_none, List.append_nil]
      exact shared.once
    · intro a member
      rcases List.mem_append.mp member with old | new
      · exact shared.clock a old
      · rw [List.mem_singleton.mp new]
        simp [SharingWorld.receive]

theorem shared_of_run {ok : SharingWorld × SharingLog P → SharingEvent P → Prop} {start : ℤ} {w : SharingWorld}
    {g : SharingLog P}
    (run : Reaches (recording (SharingWorld.step P config board) (recordShares P config)) ok
      (.initial start, .empty P) (w, g)) : Shared config board w g := by
  apply run.invariant_recording
  · exact shared_initial start
  · intro w g e w' shared _ moved
    exact shared.step moved

end

/-- **The board counts what the pool has accepted.** However requests overtake each other, get lost or fail, and whatever
others post: every share good enough is on its way, lost or has come in, and once; and the table is, arrival by
arrival, what one makes of the shares themselves, with the difficulty they were accepted for. -/
theorem rows_eq_of_run {P : BoardPackages} {config : ConfigService} {board : ExternalShareController}
    {ok : SharingWorld × SharingLog P → SharingEvent P → Prop} {start : ℤ} {w : SharingWorld} {g : SharingLog P}
    (run : Reaches (recording (SharingWorld.step P config board) (recordShares P config)) ok
      (.initial start, .empty P) (w, g)) :
    w.rows = g.arrived.filterMap (Arrival.row P config board) ∧
    (g.inFlight ++ g.lost ++ g.arrived.filterMap (Arrival.share? P)).Perm
      (g.handled.filter fun sent => IsReported P config sent.2) :=
  ⟨(shared_of_run run).rows, (shared_of_run run).once⟩

namespace Regtest

/-- Every header has hash 1. -/
def boardPackages : BoardPackages where
  hash256 _ := ⟨leBytes 32 1, length_leBytes ..⟩
  toOutputScript _ address := if address = "bcrt1qminer" then some [0x51] else none
  maxLength bound text := text.length ≤ bound
  blockTimestamp h := if h.length = 80 then some (leValue ((h.drop 68).take 4)) else none
  blockTimestamp_header length := if_pos length

def reportingPool : ConfigService := fun key =>
  if key = "EXTERNAL_SHARE_SUBMISSION_ENABLED" then some "TRUE"
  else if key = "SHARE_SUBMISSION_API_KEY" then some "key"
  else none

def shareBoard : ExternalShareController := ⟨some "key", defaultMinimumDifficulty, config⟩

def minerSession (worker : String) (short : worker.length ≤ 64) : MinerSession boardPackages :=
  ⟨"bcrt1qminer", worker, "bitaxe", decide_eq_true short, by decide⟩

/-- A header of 1700000000. -/
def reportedShare : MinedShare := ⟨alloc 68 ++ wordBytes 1700000000 ++ alloc 8, by decide⟩

/-- The share of the second worker comes in, that of the first is lost, and a third party has no key. -/
def reports : List (SharingEvent boardPackages) := [
  .handled (minerSession "one" (by decide)) reportedShare, .handled (minerSession "two" (by decide)) reportedShare,
  .request ⟨"three", "bcrt1qminer", "bitaxe", "Pool", printHex reportedShare.header⟩ none 5 true,
  .delivered 1 5 true, .lost 0]

theorem exists_reports : ∃ (w : SharingWorld) (g : SharingLog boardPackages),
    Reaches (recording (SharingWorld.step boardPackages reportingPool shareBoard) (recordShares boardPackages reportingPool))
      Always (.initial 1700000500000, .empty boardPackages) (w, g) ∧
    w.rows.map (fun row => (row.clientName, row.time)) = [("two", 1700000500010)] ∧ g.lost.length = 1 := by
  obtain ⟨⟨w, g⟩, run, done⟩ := exists_reaches
    (recording (SharingWorld.step boardPackages reportingPool shareBoard) (recordShares boardPackages reportingPool))
    Always (.initial 1700000500000, .empty boardPackages) reports
    (fun q => q.1.rows.map (fun row => (row.clientName, row.time)) = [("two", 1700000500010)] ∧ q.2.lost.length = 1)
    (by decide +kernel)
  exact ⟨w, g, run, done⟩

end Regtest

theorem rows_eq_of_run_two : ∃ (w : SharingWorld) (g : SharingLog Regtest.boardPackages),
    (w.rows.map (fun row => (row.clientName, row.time)) = [("two", 1700000500010)] ∧ g.lost.length = 1) ∧
    w.rows = g.arrived.filterMap (Arrival.row Regtest.boardPackages Regtest.reportingPool Regtest.shareBoard) := by
  obtain ⟨w, g, run, done⟩ := Regtest.exists_reports
  exact ⟨w, g, done, (rows_eq_of_run run).1⟩

end ElektronPool.Stratum
