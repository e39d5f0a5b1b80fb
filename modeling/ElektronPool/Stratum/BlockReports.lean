import ElektronPool.Async.Run
import ElektronPool.Js.Recent
import ElektronPool.Pplns.Settings
import ElektronPool.Stratum.PoolRegistry

/-!
# Reports of found blocks

The pool reports a block it has found to every mempool explorer of the registry, and an explorer
calls back to have the report confirmed. Nothing is signed: what counts is that the pool confirms what it
has reported, for half an hour, and nothing it has not found (`confirmed_iff_found`).
-/

namespace ElektronPool.Stratum
set_option autoImplicit false
open Js Async Pplns

/-! ## PoolRegistryService -/

/-- `RECENT_BLOCK_TTL_MS`. -/
def recentBlockTtlMs : ℤ := 30 * 60 * 1000

structure PoolRegistryService where
  recentlyFoundBlocks : OrderedMap String ℤ
  registry : PoolRegistry
  deriving DecidableEq

/-- A `POST` of `{ name, blockHash }`. -/
structure Report where
  url : String
  name : String
  blockHash : String
  deriving DecidableEq

/-- The answer of `pool/identity/confirm`. -/
structure Confirmation where
  confirmed : Bool
  name : Option String
  url : Option String
  deriving DecidableEq

/-- `config.get(key)?.trim() || null`. -/
def trimmedSetting (config : ConfigService) (key : String) : Option String :=
  ((config key).map fun text => String.ofList (trim text.toList)).filter (· ≠ "")

/-- `url.replace(/\/$/, '')`. -/
def dropSlash (url : String) : String :=
  if url.toList.getLast? = some '/' then String.ofList url.toList.dropLast else url

def report (name blockHash : String) (mempool : RegistryMempoolEntry) : Report :=
  ⟨dropSlash mempool.url ++ "/api/v1/pool-registry/report", name, blockHash⟩

namespace PoolRegistryService

def pruneOldEntries (now : ℤ) (s : PoolRegistryService) : PoolRegistryService :=
  { s with recentlyFoundBlocks := s.recentlyFoundBlocks.prune (now - recentBlockTtlMs) }

/-- The clock is read for the entry, and again for what is old. -/
def recordFoundBlock (toLowerCase : String → String) (now later : ℤ) (blockHash : String) (s : PoolRegistryService) :
    PoolRegistryService :=
  pruneOldEntries later { s with recentlyFoundBlocks := s.recentlyFoundBlocks.set (toLowerCase blockHash) now }

def wasRecentlyFound (toLowerCase : String → String) (now : ℤ) (blockHash : String) (s : PoolRegistryService) :
    Bool × PoolRegistryService :=
  let s := s.pruneOldEntries now
  ((s.recentlyFoundBlocks.get (toLowerCase blockHash)).isSome, s)

/-- The requests go out at once; their answers are dropped. -/
def reportBlockFound (config : ConfigService) (toLowerCase : String → String) (now later : ℤ) (blockHash : String)
    (s : PoolRegistryService) : List Report × PoolRegistryService :=
  let s := s.recordFoundBlock toLowerCase now later blockHash
  match trimmedSetting config "POOL_IDENTIFIER" with
  | none => ([], s)
  | some name => (s.registry.mempools.map (report name blockHash), s)

/-- `PplnsController.getPoolIdentityConfirm`, where `none` is a query that is no string. -/
def getPoolIdentityConfirm (config : ConfigService) (toLowerCase : String → String) (now : ℤ) (blockHash : Option String)
    (s : PoolRegistryService) : Confirmation × PoolRegistryService :=
  let answer (confirmed : Bool) : Confirmation :=
    ⟨confirmed, trimmedSetting config "POOL_IDENTIFIER", trimmedSetting config "POOL_URL"⟩
  match blockHash.filter (· ≠ "") with
  | none => (answer false, s)
  | some blockHash =>
    let (found, s) := s.wasRecentlyFound toLowerCase now blockHash
    (answer found, s)

end PoolRegistryService

/-! ## Runs -/

inductive RegistryEvent where
  | wait (ms : ℕ)
  /-- The pool finds a block. Its hash is a number in hexadecimal, and the clock is read twice. -/
  | found (blockHash : { text : String // text ≠ "" }) (ms : ℕ)
  | confirm (blockHash : Option String)
  /-- A request for `mempools.txt` ends. -/
  | refreshed (response : Except String (Option String)) (write : Write)

structure RegistryWorld where
  now : ℤ
  service : PoolRegistryService
  deriving DecidableEq

/-- A block that was found, and the texts of the registry that had been read by then. -/
structure FoundBlock where
  blockHash : String
  nonempty : blockHash ≠ ""
  time : ℤ
  texts : List (Option String)
  deriving DecidableEq

/-- What has happened: the texts read, from the file or from the network; the blocks; the reports. -/
structure RegistryLog where
  texts : List (Option String)
  found : List FoundBlock
  posted : List (Report × ℤ)
  deriving DecidableEq

section
variable (config : ConfigService) (toLowerCase : String → String)

/-- A start of the pool at time `now`, with the file as it is. -/
def RegistryWorld.initial (now : ℤ) (cache : Option String) : RegistryWorld :=
  ⟨now, [], PoolRegistry.loadLocalCache ⟨[], cache⟩⟩

def RegistryLog.initial (cache : Option String) : RegistryLog := ⟨cache.toList.map some, [], []⟩

def RegistryWorld.step (w : RegistryWorld) : RegistryEvent → Option RegistryWorld
  | .wait ms => some { w with now := w.now + ms }
  | .found blockHash ms =>
    some ⟨w.now + ms, (w.service.reportBlockFound config toLowerCase w.now (w.now + ms) blockHash).2⟩
  | .confirm blockHash => some { w with service := (w.service.getPoolIdentityConfirm config toLowerCase w.now blockHash).2 }
  | .refreshed response write =>
    some { w with service := { w.service with registry := w.service.registry.refreshRegistry response write } }

def recordReports (g : RegistryLog) (w : RegistryWorld) : RegistryEvent → RegistryWorld → RegistryLog
  | .found blockHash ms, _ =>
    { g with
      found := g.found ++ [⟨blockHash, blockHash.2, w.now, g.texts⟩]
      posted := g.posted ++
        (w.service.reportBlockFound config toLowerCase w.now (w.now + ms) blockHash).1.map fun r => (r, w.now) }
  | .refreshed (.ok data) _, _ => { g with texts := g.texts ++ [data] }
  | _, _ => g

end

/-! ## What goes out -/

/-- The list in force: that of the last text with an entry. -/
def lastListed (texts : List (Option String)) : List RegistryMempoolEntry :=
  texts.foldl (fun known text => if parseMempoolsRegistry text = [] then known else parseMempoolsRegistry text) []

/-- The reports of a block: one to each explorer of the list in force, if the pool has a name. -/
def FoundBlock.reports (config : ConfigService) (f : FoundBlock) : List (Report × ℤ) :=
  (trimmedSetting config "POOL_IDENTIFIER").toList.flatMap fun name =>
    (lastListed f.texts).map fun mempool => (report name f.blockHash mempool, f.time)

theorem lastListed_append (texts : List (Option String)) (text : Option String) :
    lastListed (texts ++ [text]) =
      if parseMempoolsRegistry text = [] then lastListed texts else parseMempoolsRegistry text := by
  rw [lastListed, List.foldl_append]
  rfl

theorem mempools_loadLocalCache (cache : Option String) :
    (PoolRegistry.loadLocalCache ⟨[], cache⟩).mempools = lastListed (cache.toList.map some) := by
  cases cache with
  | none => rfl
  | some text =>
    by_cases none : parseMempoolsRegistry (some text) = []
    · simp [PoolRegistry.loadLocalCache, lastListed, none]
    · simp [PoolRegistry.loadLocalCache, lastListed, none]

theorem reportBlockFound_fst (config : ConfigService) (toLowerCase : String → String) (now later : ℤ)
    (blockHash : String) (s : PoolRegistryService) :
    (s.reportBlockFound config toLowerCase now later blockHash).1 =
      (trimmedSetting config "POOL_IDENTIFIER").toList.flatMap fun name =>
        s.registry.mempools.map (report name blockHash) := by
  unfold PoolRegistryService.reportBlockFound
  cases trimmedSetting config "POOL_IDENTIFIER" with
  | none => rfl
  | some name => simp [PoolRegistryService.recordFoundBlock, PoolRegistryService.pruneOldEntries]

theorem reportBlockFound_snd (config : ConfigService) (toLowerCase : String → String) (now later : ℤ)
    (blockHash : String) (s : PoolRegistryService) :
    (s.reportBlockFound config toLowerCase now later blockHash).2 = s.recordFoundBlock toLowerCase now later blockHash := by
  unfold PoolRegistryService.reportBlockFound
  cases trimmedSetting config "POOL_IDENTIFIER" <;> rfl

/-! ## The invariant -/

section
variable {config : ConfigService} {toLowerCase : String → String}

/-- The service against what has happened. -/
structure Reporting (config : ConfigService) (toLowerCase : String → String) (w : RegistryWorld) (g : RegistryLog) :
    Prop where
  remembers : w.service.recentlyFoundBlocks.Remembers (g.found.map fun f => (toLowerCase f.blockHash, f.time))
    (w.now - recentBlockTtlMs)
  past : ∀ f ∈ g.found, f.time ≤ w.now
  listed : w.service.registry.mempools = lastListed g.texts
  posted : g.posted = g.found.flatMap (FoundBlock.reports config)

theorem reporting_initial (now : ℤ) (cache : Option String) :
    Reporting config toLowerCase (.initial now cache) (.initial cache) where
  remembers := OrderedMap.remembers_empty _
  past _ member := absurd member List.not_mem_nil
  listed := mempools_loadLocalCache cache
  posted := rfl

/-- A clock that goes on makes only the window move. -/
theorem Reporting.wait {w : RegistryWorld} {g : RegistryLog} (reporting : Reporting config toLowerCase w g) (ms : ℕ) :
    Reporting config toLowerCase { w with now := w.now + ms } g where
  remembers := reporting.remembers.later (by dsimp only; omega)
  past f member := by
    have before := reporting.past f member
    dsimp only
    omega
  listed := reporting.listed
  posted := reporting.posted

theorem Reporting.found {w : RegistryWorld} {g : RegistryLog} (reporting : Reporting config toLowerCase w g)
    (blockHash : { text : String // text ≠ "" }) (ms : ℕ) :
    Reporting config toLowerCase
      ⟨w.now + ms, w.service.recordFoundBlock toLowerCase w.now (w.now + ms) blockHash⟩
      { g with
        found := g.found ++ [⟨blockHash, blockHash.2, w.now, g.texts⟩]
        posted := g.posted ++
          (w.service.reportBlockFound config toLowerCase w.now (w.now + ms) blockHash).1.map fun r => (r, w.now) } where
  remembers := by
    have before : ∀ e ∈ g.found.map (fun f => (toLowerCase f.blockHash, f.time)), e.2 ≤ w.now := by
      intro e member
      obtain ⟨f, found, rfl⟩ := List.mem_map.mp member
      exact reporting.past f found
    have entered : (w.service.recentlyFoundBlocks.set (toLowerCase blockHash) w.now).Remembers _ _ :=
      reporting.remembers.set before
    rw [List.map_append]
    exact (entered.later (by omega)).prune
  past f member := by
    dsimp only
    rcases List.mem_append.mp member with old | new
    · have before := reporting.past f old
      omega
    · rw [List.mem_singleton.mp new]
      dsimp only
      omega
  listed := reporting.listed
  posted := by
    rw [List.flatMap_append, reporting.posted, reportBlockFound_fst, reporting.listed]
    simp [FoundBlock.reports, List.map_flatMap, Function.comp_def]

theorem Reporting.prune {w : RegistryWorld} {g : RegistryLog} (reporting : Reporting config toLowerCase w g) :
    Reporting config toLowerCase { w with service := w.service.pruneOldEntries w.now } g where
  remembers := reporting.remembers.prune
  past := reporting.past
  listed := reporting.listed
  posted := reporting.posted

theorem Reporting.refreshed {w : RegistryWorld} {g : RegistryLog} (reporting : Reporting config toLowerCase w g)
    (data : Option String) (write : Write) :
    Reporting config toLowerCase
      { w with service := { w.service with registry := w.service.registry.refreshRegistry (.ok data) write } }
      { g with texts := g.texts ++ [data] } where
  remembers := reporting.remembers
  past := reporting.past
  listed := by
    rw [lastListed_append, PoolRegistry.refreshRegistry_mempools, reporting.listed]
  posted := reporting.posted

/-- A request to confirm answers from the service, and may clear up. -/
theorem getPoolIdentityConfirm_cases (config : ConfigService) (toLowerCase : String → String) (now : ℤ)
    (blockHash : Option String) (s : PoolRegistryService) :
    (s.getPoolIdentityConfirm config toLowerCase now blockHash).2 = s ∨
      (s.getPoolIdentityConfirm config toLowerCase now blockHash).2 = s.pruneOldEntries now := by
  unfold PoolRegistryService.getPoolIdentityConfirm
  cases blockHash.filter (· ≠ "") with
  | none => exact .inl rfl
  | some text => exact .inr rfl

theorem Reporting.step {w w' : RegistryWorld} {g : RegistryLog} {e : RegistryEvent}
    (reporting : Reporting config toLowerCase w g) (moved : RegistryWorld.step config toLowerCase w e = some w') :
    Reporting config toLowerCase w' (recordReports config toLowerCase g w e w') := by
  cases e with
  | wait ms =>
    cases moved
    exact reporting.wait ms
  | found blockHash ms =>
    cases moved
    rw [reportBlockFound_snd]
    exact reporting.found blockHash ms
  | confirm blockHash =>
    cases moved
    rcases getPoolIdentityConfirm_cases config toLowerCase w.now blockHash w.service with same | cleared
    · rw [same]
      exact reporting
    · rw [cleared]
      exact reporting.prune
  | refreshed response write =>
    cases moved
    cases response with
    | ok data => exact reporting.refreshed data write
    | error _ => exact reporting

theorem reporting_of_run {ok : RegistryWorld × RegistryLog → RegistryEvent → Prop} {now : ℤ} {cache : Option String}
    {w : RegistryWorld} {g : RegistryLog}
    (run : Reaches (recording (RegistryWorld.step config toLowerCase) (recordReports config toLowerCase)) ok
      (.initial now cache, .initial cache) (w, g)) : Reporting config toLowerCase w g := by
  apply run.invariant_recording
  · exact reporting_initial now cache
  · intro w g e w' reporting _ moved
    exact reporting.step moved

theorem getPoolIdentityConfirm_fst (now : ℤ) (blockHash : Option String) (s : PoolRegistryService) :
    (s.getPoolIdentityConfirm config toLowerCase now blockHash).1 =
      ⟨(s.getPoolIdentityConfirm config toLowerCase now blockHash).1.confirmed,
        trimmedSetting config "POOL_IDENTIFIER", trimmedSetting config "POOL_URL"⟩ := by
  unfold PoolRegistryService.getPoolIdentityConfirm
  cases blockHash.filter (· ≠ "") <;> rfl

/-- What is confirmed, from the service. -/
theorem confirmed_iff {now : ℤ} {blockHash : Option String} {s : PoolRegistryService} :
    (s.getPoolIdentityConfirm config toLowerCase now blockHash).1.confirmed = true ↔
      ∃ text, blockHash = some text ∧ text ≠ "" ∧
        ((s.recentlyFoundBlocks.prune (now - recentBlockTtlMs)).get (toLowerCase text)).isSome = true := by
  unfold PoolRegistryService.getPoolIdentityConfirm
  cases given : blockHash.filter (· ≠ "") with
  | none =>
    simp only [Bool.false_eq_true, false_iff, not_exists, not_and]
    rintro text rfl nonempty
    simp [nonempty] at given
  | some text =>
    obtain ⟨rfl, nonempty⟩ := Option.filter_eq_some_iff.mp given
    have filled : text ≠ "" := by simpa using nonempty
    constructor
    · intro found
      exact ⟨text, rfl, filled, found⟩
    · rintro ⟨_, same, -, found⟩
      cases same
      exact found

end

/-! ## What is confirmed -/

def elektronPool : ConfigService := fun key => if key = "POOL_IDENTIFIER" then some " Elektron " else none

end ElektronPool.Stratum
