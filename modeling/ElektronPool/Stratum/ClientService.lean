import ElektronPool.Async.Pool
import ElektronPool.Js.Number

/-!
# ClientService

The rows of the connected miners. `insert` only queues a row: every five seconds the timer
`insertClients` inserts all queued rows by one statement, and then every waiting caller goes on with
its part of the reply. `destroy` marks the rows of its session as deleted, whatever is queued. A
statement takes effect (`executed`) some time before its reply arrives (`ran`).

Subscribing makes a session here, since before it a session has no id and `destroy` has nothing to
delete.
-/

namespace ElektronPool.Stratum.ClientService
set_option autoImplicit false
open Js Async

/-! ## Rows -/

/-- The primary key of `client_entity`. -/
structure PrimaryKey where
  address : String
  clientName : String
  sessionId : String
  deriving DecidableEq

/-- What a session gives for its row. -/
structure PartialClient where
  sessionId : String
  address : String
  clientName : String
  userAgent : String
  startTime : ℤ
  bestDifficulty : Number
  deriving DecidableEq

def PartialClient.key (c : PartialClient) : PrimaryKey := ⟨c.address, c.clientName, c.sessionId⟩

/-- What the database adds: an entry of `generatedMaps`. -/
structure GeneratedMap where
  createdAt : ℤ
  updatedAt : Option ℤ
  deriving DecidableEq

/-- A row with the values it was inserted with. `deleted` says that `deletedAt` is set. -/
structure ClientRow where
  client : PartialClient
  generated : GeneratedMap
  updatedAt : Option ℤ
  hashRate : Number
  deleted : Bool
  deriving DecidableEq

/-- How the promise of an `insert` ends. -/
inductive Outcome where
  | resolved (generatedMap : GeneratedMap)
  | rejected
  deriving DecidableEq

/-- A `Subject` with the client it was made for and what it has been told. -/
structure Subject where
  partialClient : PartialClient
  signals : List Outcome
  deriving DecidableEq

/-- An entry of `insertQueue`; the subject is given by its number. -/
structure QueuedClient where
  result : ℕ
  partialClient : PartialClient
  deriving DecidableEq

/-! ## Sessions -/

/-- `destroyPromise`: the soft delete is on its way or has taken effect, or `destroy` has completed. -/
inductive DestroyPromise where
  | deleting
  | deleted
  | settled
  deriving DecidableEq

/-- The reply to the soft delete. -/
def DestroyPromise.reply : DestroyPromise → DestroyPromise
  | .deleted => .settled
  | promise => promise

/-- `this.entity`, as far as the heartbeat goes. -/
structure Entity where
  client : PartialClient
  updatedAt : Option ℤ
  deriving DecidableEq

structure Session where
  id : String
  userAgent : String
  /-- The address and the worker, once authorized. -/
  authorization : Option (String × String)
  hashRate : Number
  entity : Option Entity
  creatingEntity : Option ℕ
  destroyPromise : Option DestroyPromise
  deriving DecidableEq

/-- The soft delete has had its chance. -/
def Session.isGone (session : Session) : Bool :=
  session.destroyPromise = some .deleted ∨ session.destroyPromise = some .settled

structure World where
  insertQueue : List QueuedClient
  subjects : List Subject
  rows : List ClientRow
  sessions : List Session

def World.empty : World := ⟨[], [], [], []⟩

def World.updateSession (s : World) (k : ℕ) (f : Session → Session) : World :=
  { s with sessions := s.sessions.modify k f }

/-! ## Statements -/

/-- The rows of an `INSERT`. -/
def added (batch : List QueuedClient) (generatedMaps : List GeneratedMap) : List ClientRow :=
  (batch.zip generatedMaps).map fun q => ⟨q.1.partialClient, q.2, q.2.updatedAt, .fin 0, false⟩

/-- The `INSERT` works out with these values: one for each row, and no primary key is taken. -/
def Fits (rows : List ClientRow) (batch : List QueuedClient) (generatedMaps : List GeneratedMap) : Prop :=
  batch.length = generatedMaps.length ∧ ((rows ++ added batch generatedMaps).map (·.client.key)).Nodup

instance (rows : List ClientRow) (batch : List QueuedClient) (generatedMaps : List GeneratedMap) :
    Decidable (Fits rows batch generatedMaps) :=
  inferInstanceAs (Decidable (_ ∧ _))

/-- `softDelete({ sessionId })`. -/
def softDelete (sessionId : String) (rows : List ClientRow) : List ClientRow :=
  rows.map fun row => if row.client.sessionId = sessionId then { row with deleted := true } else row

/-- The statement of `heartbeat`, which takes a deletion back. -/
def revive (key : PrimaryKey) (hashRate : Number) (updatedAt : ℤ) (rows : List ClientRow) : List ClientRow :=
  rows.map fun row => if row.client.key = key then
    { row with hashRate := hashRate, deleted := false, updatedAt := some updatedAt } else row

/-- Subjects are told their outcomes, one after the other. -/
def signal (subjects : List Subject) (outcomes : List (ℕ × Outcome)) : List Subject :=
  outcomes.foldl (fun subjects o => subjects.modify o.1 fun x => { x with signals := x.signals ++ [o.2] }) subjects

/-- Every caller of a batch is given the values of its own row. -/
def resolutions (batch : List QueuedClient) (generatedMaps : List GeneratedMap) : List (ℕ × Outcome) :=
  (batch.zip generatedMaps).map fun q => (q.1.result, .resolved q.2)

def rejections (batch : List QueuedClient) : List (ℕ × Outcome) := batch.map fun c => (c.result, .rejected)

/-! ## Calls -/

/-- Where a call stands. -/
inductive Call where
  | subscribe (id userAgent : String)
  | resubscribe (session : ℕ) (userAgent : String)
  | authorize (session : ℕ) (address worker : String)
  | setHashRate (session : ℕ) (hashRate : Number)
  | ensureClientEntity (session : ℕ)
  | creatingEntity (session subject : ℕ)
  | addShares (session : ℕ)
  | heartbeat (session : ℕ) (key : PrimaryKey) (hashRate : Number) (now : ℤ)
  | heartbeatReply (session : ℕ) (now : ℤ)
  | insertClients
  | inserting (batch : List QueuedClient)
  | inserted (batch : List QueuedClient) (generatedMaps : List GeneratedMap)
  | insertFailed (batch : List QueuedClient)
  | destroy (session : ℕ)
  | deleting (session : ℕ)
  | deleteReply (session : ℕ)
  | returned
  | rejected
  deriving DecidableEq

/-- A call goes on, the statement it waits for takes effect, or it fails. -/
inductive Answer where
  | ran (now : ℤ)
  | executed (generatedMaps : List GeneratedMap)
  | threw
  deriving DecidableEq

namespace Call

/-- The messages, a new job (which takes the hash rate over), the timer and the end of a connection. -/
def isEntry : Call → Bool
  | .subscribe .. | .resubscribe .. | .authorize .. | .setHashRate .. | .ensureClientEntity _ | .insertClients |
    .destroy _ => true
  | _ => false

/-- `ensureClientEntity`: the first share queues the row, and the others wait for it too. -/
def ensure (s : World) (k : ℕ) (session : Session) (now : ℤ) : Option (World × Call) :=
  match session.entity, session.creatingEntity, session.authorization with
  | some _, _, _ => some (s, .addShares k)
  | none, some n, _ => some (s, .creatingEntity k n)
  | none, none, none => none
  | none, none, some (address, worker) =>
    let partialClient : PartialClient := ⟨session.id, address, worker, session.userAgent, now, .fin 0⟩
    let result := s.subjects.length
    let queued : World := { s with
      insertQueue := s.insertQueue ++ [⟨result, partialClient⟩]
      subjects := s.subjects ++ [⟨partialClient, []⟩] }
    some (queued.updateSession k fun c => { c with creatingEntity := some result }, .creatingEntity k result)

/-- The share goes on with the entity that has been created. -/
def created (s : World) (k n : ℕ) : Option (World × Call) :=
  (s.subjects[n]?).bind fun x =>
    match x.signals.head? with
    | none => none
    | some (.resolved g) =>
      some (s.updateSession k fun c => { c with entity := some (c.entity.getD ⟨x.partialClient, g.updatedAt⟩) }, .addShares k)
    | some .rejected => some (s, .rejected)

/-- Behind `addShares`: a heartbeat once a minute. -/
def beat (s : World) (k : ℕ) (session : Session) (now : ℤ) : World × Call :=
  match session.entity with
  | none => (s, .returned)
  | some entity =>
    if ∀ updatedAt ∈ entity.updatedAt, 1000 * 60 < now - updatedAt then
      (s, .heartbeat k entity.client.key session.hashRate now)
    else (s, .returned)

/-- `destroy`, up to the statement. -/
def close (s : World) (k : ℕ) (session : Session) : World × Call :=
  match session.destroyPromise with
  | some _ => (s, .returned)
  | none => (s.updateSession k fun c => { c with destroyPromise := some .deleting }, .deleting k)

/-- `insertClients`, up to the statement. -/
def flush (s : World) : World × Call :=
  match s.insertQueue with
  | [] => (s, .returned)
  | c :: queueCopy => ({ s with insertQueue := [] }, .inserting (c :: queueCopy))

def resume (s : World) : Call → Answer → Option (World × Call)
  | .subscribe id userAgent, .ran _ =>
    some ({ s with sessions := s.sessions ++ [⟨id, userAgent, none, .fin 0, none, none, none⟩] }, .returned)
  | .resubscribe k userAgent, .ran _ => some (s.updateSession k fun c => { c with userAgent := userAgent }, .returned)
  | .authorize k address worker, .ran _ =>
    some (s.updateSession k fun c => { c with authorization := some (address, worker) }, .returned)
  | .setHashRate k hashRate, .ran _ =>
    some (s.updateSession k fun c => { c with hashRate := if c.entity.isSome then hashRate else c.hashRate }, .returned)
  | .ensureClientEntity k, .ran now => s.sessions[k]?.bind fun session => ensure s k session now
  | .creatingEntity k n, .ran _ => created s k n
  | .addShares k, .ran now => s.sessions[k]?.map fun session => beat s k session now
  | .addShares _, .threw => some (s, .returned)
  | .heartbeat k key hashRate now, .executed _ =>
    some ({ s with rows := revive key hashRate now s.rows }, .heartbeatReply k now)
  | .heartbeat .., .threw => some (s, .returned)
  | .heartbeatReply k now, .ran _ =>
    some (s.updateSession k fun c => { c with entity := c.entity.map fun e => { e with updatedAt := some now } }, .returned)
  | .insertClients, .ran _ => some (flush s)
  | .inserting batch, .executed generatedMaps =>
    if Fits s.rows batch generatedMaps then
      some ({ s with rows := s.rows ++ added batch generatedMaps }, .inserted batch generatedMaps)
    else none
  | .inserting batch, .threw => some (s, .insertFailed batch)
  | .inserted batch generatedMaps, .ran _ =>
    some ({ s with subjects := signal s.subjects (resolutions batch generatedMaps) }, .returned)
  | .insertFailed batch, .ran _ =>
    some ({ s with subjects := signal s.subjects (rejections batch) }, .rejected)
  | .destroy k, .ran _ => s.sessions[k]?.map fun session => close s k session
  | .deleting k, .executed _ => s.sessions[k]?.map fun session =>
    let marked : World := { s with rows := softDelete session.id s.rows }
    (marked.updateSession k fun c => { c with destroyPromise := some .deleted }, .deleteReply k)
  | .deleting k, .threw => some (s.updateSession k fun c => { c with destroyPromise := some .settled }, .returned)
  | .deleteReply k, .ran _ =>
    some (s.updateSession k fun c => { c with destroyPromise := c.destroyPromise.map DestroyPromise.reply }, .returned)
  | _, _ => none

end Call

abbrev Server := Pool World Call

def Server.step : Server → Event Call Answer → Option Server := Pool.step Call.isEntry Call.resume

def Server.initial : Server := ⟨.empty, []⟩

end ElektronPool.Stratum.ClientService
