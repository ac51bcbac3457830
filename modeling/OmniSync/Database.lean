import Mathlib.Data.List.Sort
import Mathlib.Data.Prod.Lex
import OmniSync.Data.Selection
import OmniSync.Data.Table
import OmniSync.Integrations.Schemas
import OmniSync.Txn.Cluster

/-!
# The database engine

The statements that the services issue, and what PostgreSQL answers under READ
COMMITTED. A row that `session.add` puts into a session is inserted by the next
statement of that session at the latest (autoflush), so it is inserted at once
here. An attribute that is assigned to a loaded row is a pending write at once; if
its flush fails, the commit does. A multi-row `INSERT … ON CONFLICT` takes its row
locks one after the other, so it is issued row by row. A violated unique constraint
is an error of the statement.

The vector index, the task broker, the object store and the clock are not
transactional: they are the `World`.
-/

namespace OmniSync

open Txn

/-- The tables. -/
structure Store where
  normalizedEvents : Table NormalizedEvent.key := ∅
  eventVersions : Table EventVersion.key := ∅
  outboxEvents : Table OutboxEvent.id := ∅
  failedEvents : Table FailedEvent.id := ∅
  syncLogs : Table SyncLog.id := ∅
  webhookDeliveries : Table WebhookDelivery.key := ∅
  rawPayloads : Table RawPayload.id := ∅
  syncState : Table SyncState.key := ∅

instance : EmptyCollection Store := ⟨{}⟩

/-- One row write. `lockOutbox` and `lockFailed` are `SELECT … FOR UPDATE`. -/
inductive Write where
  | putEvent (row : NormalizedEvent)
  | addVersion (row : EventVersion)
  | addOutbox (row : OutboxEvent)
  | lockOutbox (id : Uuid)
  | patchOutbox (id : Uuid) (patch : OutboxPatch)
  | addFailed (row : FailedEvent)
  | lockFailed (id : Uuid)
  | patchFailed (id : Uuid) (patch : FailedPatch)
  | addSyncLog (row : SyncLog)
  | setSyncLog (id : Uuid) (status : RunStatus) (errorText : Option String)
  | addDelivery (row : WebhookDelivery)
  | setDelivery (key : String × String) (status : DeliveryStatus) (errorText : Option String)
  | addRawPayload (row : RawPayload)
  | addSyncState (row : SyncState)
  | setSyncState (key : String × String) (cursor : Option String) (updatedAt : Time)

/-- What a write locks: a row, or the index entry of a unique key. -/
inductive Lock where
  | event (key : String × String)
  | eventId (id : Uuid)
  | version (key : Uuid × Nat)
  | outbox (id : Uuid)
  | failed (id : Uuid)
  | syncLog (id : Uuid)
  | delivery (key : String × String)
  | rawPayload (id : Uuid)
  | syncState (key : String × String)
  deriving DecidableEq

def Write.locks : Write → List Lock
  | putEvent row => [.event row.key, .eventId row.id]
  | addVersion row => [.version row.key]
  | addOutbox row => [.outbox row.id]
  | lockOutbox id => [.outbox id]
  | patchOutbox id _ => [.outbox id]
  | addFailed row => [.failed row.id]
  | lockFailed id => [.failed id]
  | patchFailed id _ => [.failed id]
  | addSyncLog row => [.syncLog row.id]
  | setSyncLog id _ _ => [.syncLog id]
  | addDelivery row => [.delivery row.key]
  | setDelivery key _ _ => [.delivery key]
  | addRawPayload row => [.rawPayload row.id]
  | addSyncState row => [.syncState row.key]
  | setSyncState key _ _ => [.syncState key]

def Write.conflict (v w : Write) : Bool := v.locks.any (fun lock => decide (lock ∈ w.locks))

theorem Write.conflict_eq_false_iff {v w : Write} :
    v.conflict w = false ↔ ∀ lock ∈ v.locks, lock ∉ w.locks := by
  simp only [conflict, List.any_eq_false, decide_eq_true_eq]

theorem Write.conflict_symm (v w : Write) : v.conflict w = w.conflict v := by
  rw [Bool.eq_iff_iff]
  simp only [conflict, List.any_eq_true, decide_eq_true_eq]
  exact ⟨fun ⟨lock, hv, hw⟩ => ⟨lock, hw, hv⟩, fun ⟨lock, hw, hv⟩ => ⟨lock, hv, hw⟩⟩

/-- Perform one write. -/
def Store.put (s : Store) : Write → Store
  | .putEvent row => { s with normalizedEvents := s.normalizedEvents.put row }
  | .addVersion row => { s with eventVersions := s.eventVersions.add row }
  | .addOutbox row => { s with outboxEvents := s.outboxEvents.add row }
  | .lockOutbox _ => s
  | .patchOutbox id p =>
      { s with outboxEvents := s.outboxEvents.modify id (·.patch p) (fun _ => rfl) }
  | .addFailed row => { s with failedEvents := s.failedEvents.add row }
  | .lockFailed _ => s
  | .patchFailed id p =>
      { s with failedEvents := s.failedEvents.modify id (·.patch p) (fun _ => rfl) }
  | .addSyncLog row => { s with syncLogs := s.syncLogs.add row }
  | .setSyncLog id status errorText =>
      { s with
        syncLogs := s.syncLogs.modify id (·.setStatus status errorText) (fun _ => rfl) }
  | .addDelivery row => { s with webhookDeliveries := s.webhookDeliveries.add row }
  | .setDelivery key status errorText =>
      { s with
        webhookDeliveries :=
          s.webhookDeliveries.modify key (·.setStatus status errorText) (fun _ => rfl) }
  | .addRawPayload row => { s with rawPayloads := s.rawPayloads.add row }
  | .addSyncState row => { s with syncState := s.syncState.add row }
  | .setSyncState key cursor updatedAt =>
      { s with
        syncState := s.syncState.modify key (·.setCursor cursor updatedAt) (fun _ => rfl) }

/-- The clocks of the machines. `free` clocks show anything. A `shared` clock
never runs backwards, and is at least `gap` past the stamps of a flush when the
next one begins. -/
inductive Clock where
  | free
  | shared (now : Time) (gap : Nat)
  deriving DecidableEq

namespace Clock

/-- The clock may show `t`. -/
def shows : Clock → Time → Bool
  | free, _ => true
  | shared now _, t => decide (now ≤ t)

/-- The clock once it has shown `t`. -/
def read : Clock → Time → Clock
  | free, _ => free
  | shared _ gap, t => shared t gap

/-- The clock once a flush has taken the stamps `ts`. -/
def flush : Clock → List Time → Clock
  | free, _ => free
  | shared now gap, ts => shared (ts.foldl (fun m t => max m (t + gap)) now) gap

end Clock

/-- A point of the vector index: the text whose embedding is stored, and the
payload. -/
structure IndexPoint where
  embedded : String
  source : String
  eventType : String
  content : String
  deriving DecidableEq, Repr

/-- The parameters of an event listing. The cursor is the position that `decode_cursor`
reads from the text that a client sends. -/
structure EventFilterParams where
  source : Option String := none
  authorId : Option String := none
  eventType : Option String := none
  dateFrom : Option Time := none
  dateTo : Option Time := none
  cursor : Option (Time × Uuid) := none
  deriving DecidableEq, Repr

/-- A row whose identifier and timestamp the ORM supplies at `INSERT` time. -/
abbrev Draft (α : Type) := Uuid → Time → α

/-- The statements, and the calls of external services. -/
inductive Stmt where
  | utcNow
  | uuid4
  | generateCorrelationId
  | selectEvents (keys : List (String × String))
  | selectVersion (eventId : Uuid) (version : Nat)
  | insertVersion (row : Draft EventVersion)
  | insertOnConflict (row : NormalizedEvent)
  | insertOutbox (rows : List (Draft OutboxEvent))
  | selectPending (limit : Nat)
  | selectChanges (after : Option (Time × Uuid)) (limit : Nat)
  | selectListing (filters : EventFilterParams) (limit : Nat)
  | selectWatermark (source : String) (eventType : Option String)
  | updateOutbox (id : Uuid) (patch : OutboxPatch)
  | flush
  | selectActive (source operation : String)
  | selectDue (maxAttempts : Nat) (now : Time) (limit : Nat)
  | selectFailed (id : Uuid)
  | insertFailed (row : Draft FailedEvent)
  | updateFailed (id : Uuid) (patch : FailedPatch)
  | insertSyncLog (row : Draft SyncLog)
  | updateSyncLog (id : Uuid) (status : RunStatus) (errorText : Option String)
  | selectDelivery (key : String × String)
  | insertDelivery (row : Draft WebhookDelivery)
  | updateDelivery (key : String × String) (status : DeliveryStatus) (errorText : Option String)
  | selectRawPayload (source contentHash : String)
  | insertRawPayload (row : Draft RawPayload)
  | selectCursor (key : String × String)
  | insertCursor (row : Draft SyncState)
  | updateCursor (key : String × String) (cursor : Option String)
  | qdrantClient
  | qdrantUpsert (eventId : Uuid) (point : IndexPoint)
  | sendTask (name : String)
  | putObject (key : String) (body : Json)
  | fetch (source : String) (since : Option Time)
  | fetchMail (folder : String) (since : Option Datetime)
  | getCommits (owner repo : String) (since : Option String)
  | getPullRequests (owner repo : String) (since : Option String)
  | getUpdates (offset : Option Int)

/-- The type of the answer to a statement. -/
@[reducible] def Answer : Stmt → Type
  | .utcNow => Time
  | .uuid4 => Uuid
  | .generateCorrelationId => String
  | .selectEvents _ => List NormalizedEvent
  | .selectVersion _ _ => Option Uuid
  | .insertVersion _ => Uuid
  | .insertOnConflict _ => Unit
  | .insertOutbox _ => Unit
  | .selectPending _ => List OutboxEvent
  | .selectChanges _ _ => List OutboxEvent
  | .selectListing _ _ => List NormalizedEvent
  | .selectWatermark _ _ => Option Time
  | .updateOutbox _ _ => Unit
  | .flush => Unit
  | .selectActive _ _ => Option FailedEvent
  | .selectDue _ _ _ => List FailedEvent
  | .selectFailed _ => Option FailedEvent
  | .insertFailed _ => Uuid
  | .updateFailed _ _ => Unit
  | .insertSyncLog _ => Uuid
  | .updateSyncLog _ _ _ => Unit
  | .selectDelivery _ => Option WebhookDelivery
  | .insertDelivery _ => Uuid
  | .updateDelivery _ _ _ => Unit
  | .selectRawPayload _ _ => Option Uuid
  | .insertRawPayload _ => Uuid
  | .selectCursor _ => Option SyncState
  | .insertCursor _ => Uuid
  | .updateCursor _ _ => Unit
  | .qdrantClient => Bool
  | .qdrantUpsert _ _ => Unit
  | .sendTask _ => String
  | .putObject _ _ => Unit
  | .fetch _ _ => List Json
  | .fetchMail _ _ => List RawMessage
  | .getCommits _ _ _ => List GitHubCommitData
  | .getPullRequests _ _ _ => List GitHubPRData
  | .getUpdates _ => List Json

/-- What the external services answer to the calls that they determine. -/
abbrev Remote := (s : Stmt) → Option (Answer s)

/-- What is not transactional. `deliveries` is a history variable: the successful writes to
the index, in order. `remote` is what an external service answers to a call; where it says
nothing, the answer may be anything. -/
structure World where
  clock : Clock := .free
  index : Uuid → Option IndexPoint := fun _ => none
  broker : List String := []
  objects : List (String × Json) := []
  deliveries : List (Uuid × IndexPoint) := []
  remote : Remote := fun _ => none

/-- What resolves a statement that the database does not determine: a reading of
the clock, drawn identifiers with their stamps, the rows that a query with ties
returns, or the answer of an external service. -/
inductive Choice where
  | none
  | time (t : Time)
  | draw (id : Uuid) (t : Time)
  | draws (stamps : List (Uuid × Time))
  | rows (ids : List Uuid)
  | flag (b : Bool)
  | text (s : String)
  | items (xs : List Json)
  | mails (xs : List RawMessage)
  | commits (xs : List GitHubCommitData)
  | pullRequests (xs : List GitHubPRData)

/-- A unique constraint is violated. -/
def integrityError (constraint : String) : Exn :=
  ⟨"IntegrityError", "duplicate key value violates unique constraint " ++ constraint⟩

/-- Statuses from which an entry can still be (re)tried automatically. -/
def FailedEvent.active (row : FailedEvent) : Bool :=
  decide (row.status = .pending) || decide (row.status = .retrying)

/-- `ORDER BY next_retry_at ASC NULLS FIRST`. -/
def FailedEvent.dueBefore (a b : FailedEvent) : Bool :=
  match a.nextRetryAt, b.nextRetryAt with
  | .none, _ => true
  | .some _, .none => false
  | .some s, .some t => decide (s ≤ t)

/-- Position of a row in the change feed. -/
def OutboxEvent.position (row : OutboxEvent) : Time ×ₗ Uuid := toLex (row.createdAt, row.id)

/-- The rows of the change feed after a position, in feed order. -/
def Store.changes (s : Store) (after : Option (Time × Uuid)) : List OutboxEvent :=
  (s.outboxEvents.rows.filter (fun row =>
    match after with
    | .none => true
    | .some p => decide (toLex p < row.position))).insertionSort
      (fun a b => a.position ≤ b.position)

/-- Position of a row in the event listing. -/
def NormalizedEvent.position (row : NormalizedEvent) : Time ×ₗ Uuid :=
  toLex (row.timestamp, row.id)

/-- `if value: query = query.where(column == value)`. -/
def whereEq (column : String) : Option String → Bool
  | none => true
  | some value => decide (value = "") || decide (column = value)

/-- The row matches the filters, wherever the cursor is. -/
def EventFilterParams.accepts (filters : EventFilterParams) (row : NormalizedEvent) : Bool :=
  whereEq row.source filters.source && whereEq row.authorId filters.authorId &&
    whereEq row.eventType filters.eventType &&
    filters.dateFrom.all (fun t => decide (t ≤ row.timestamp)) &&
    filters.dateTo.all (fun t => decide (row.timestamp ≤ t))

/-- The row comes after the cursor in a listing. -/
def EventFilterParams.resumes (filters : EventFilterParams) (row : NormalizedEvent) : Bool :=
  filters.cursor.all (fun c =>
    decide (row.timestamp < c.1) || (decide (row.timestamp = c.1) && decide (row.id < c.2)))

/-- The rows of a listing, newest first. -/
def Store.listing (s : Store) (filters : EventFilterParams) : List NormalizedEvent :=
  (s.normalizedEvents.rows.filter (fun row =>
    filters.accepts row && filters.resumes row)).insertionSort (fun a b => b.position ≤ a.position)

/-- `max(timestamp)` over the events of a source, and of a type if one is given. -/
def Store.watermark (s : Store) (source : String) (eventType : Option String) : Option Time :=
  ((s.normalizedEvents.rows.filter (fun row =>
    decide (row.source = source) && whereEq row.eventType eventType)).map
      NormalizedEvent.timestamp).max?

/-- The pending outbox rows that no other session has locked. -/
def Store.unlockedPending (s : Store) (locked : Write → Bool) : List OutboxEvent :=
  s.outboxEvents.rows.filter
    (fun row => decide (row.status = .pending) && !locked (.lockOutbox row.id))

/-- The active entries of one operation. -/
def Store.activeEntries (s : Store) (source operation : String) : List FailedEvent :=
  s.failedEvents.rows.filter
    (fun row => decide (row.source = source) && decide (row.operation = operation) && row.active)

/-- The entries that are due and that no other session has locked. -/
def Store.dueEntries (s : Store) (maxAttempts : Nat) (now : Time) (locked : Write → Bool) :
    List FailedEvent :=
  s.failedEvents.rows.filter (fun row =>
    row.active && decide (row.replayAttempts < maxAttempts) &&
      (match row.nextRetryAt with
        | .none => true
        | .some t => decide (t ≤ now)) &&
      !locked (.lockFailed row.id))

/-- Insert `row`, unless one of the rows `taken` has the unique values of `row`. -/
def insertUnless {α : Type} (taken : Bool) (constraint : String) (answer : α) (write : Write)
    (world : World) : Option (Except Exn α × List Write × World) :=
  if taken then some (.error (integrityError constraint), [], world)
  else some (.ok answer, [write], world)

/-- The row that `INSERT … ON CONFLICT (source, external_id) DO UPDATE` leaves. -/
def NormalizedEvent.excluded (row : NormalizedEvent) : Option NormalizedEvent → NormalizedEvent
  | none => row
  | some existing =>
      { existing with
        authorId := row.authorId
        authorName := row.authorName
        content := row.content
        eventType := row.eventType
        timestamp := row.timestamp
        rawPayloadId := row.rawPayloadId
        schemaVersion := row.schemaVersion
        version := row.version
        updatedAt := row.updatedAt }

/-- The row that an upsert of `row` leaves in a session with this view. -/
def Store.excluded (view : Store) (row : NormalizedEvent) : NormalizedEvent :=
  row.excluded (view.normalizedEvents.find row.key)

@[simp] theorem Store.excluded_key (view : Store) (row : NormalizedEvent) :
    (view.excluded row).key = row.key := by
  unfold excluded
  cases found : view.normalizedEvents.find row.key with
  | none => rfl
  | some existing => exact (Table.find_eq_some_iff.mp found).2

/-- The answer to a statement, the rows it writes, and the world after it. -/
def exec (s : Stmt) (choice : Choice) (world : World) (view : Store) (locked : Write → Bool) :
    Option (Except Exn (Answer s) × List Write × World) :=
  match s, choice with
  | .utcNow, .time t =>
      if world.clock.shows t then some (.ok t, [], { world with clock := world.clock.read t })
      else none
  | .uuid4, .draw id _ => some (.ok id, [], world)
  | .generateCorrelationId, .text cid => some (.ok cid, [], world)
  | .selectEvents keys, .none =>
      some (.ok (view.normalizedEvents.rows.filter (fun row => decide (row.key ∈ keys))), [], world)
  | .selectVersion eventId version, .none =>
      some (.ok ((view.eventVersions.find (eventId, version)).map EventVersion.id), [], world)
  | .insertVersion row, .draw id t =>
      if world.clock.shows t then
        insertUnless
          ((view.eventVersions.find (row id t).key).isSome ||
            view.eventVersions.rows.any (fun other => decide (other.id = id)))
          "uq_event_version" id (.addVersion (row id t))
          { world with clock := world.clock.read t }
      else none
  | .insertOnConflict row, .none =>
      insertUnless
        ((view.normalizedEvents.find row.key).isNone &&
          view.normalizedEvents.rows.any (fun other => decide (other.id = row.id)))
        "normalized_events_pkey" () (.putEvent (view.excluded row)) world
  | .insertOutbox rows, .draws stamps =>
      if stamps.length = rows.length ∧ stamps.all (fun p => world.clock.shows p.2) then
        if (stamps.map Prod.fst).Nodup ∧
            stamps.all (fun p => (view.outboxEvents.find p.1).isNone) then
          some (.ok (), (List.zipWith (fun row p => row p.1 p.2) rows stamps).map .addOutbox,
            { world with clock := world.clock.flush (stamps.map Prod.snd) })
        else some (.error (integrityError "outbox_events_pkey"), [], world)
      else none
  | .selectPending limit, .rows ids =>
      if selects OutboxEvent.id (fun a b => decide (a.createdAt ≤ b.createdAt)) limit
          (view.unlockedPending locked) ids then
        some (.ok (rowsOf OutboxEvent.id (view.unlockedPending locked) ids),
          ids.map .lockOutbox, world)
      else none
  | .selectChanges after limit, .none =>
      some (.ok ((view.changes after).take limit), [], world)
  | .selectListing filters limit, .none =>
      some (.ok ((view.listing filters).take limit), [], world)
  | .selectWatermark source eventType, .none =>
      some (.ok (view.watermark source eventType), [], world)
  | .updateOutbox id patch, .none => some (.ok (), [.patchOutbox id patch], world)
  | .flush, .none => some (.ok (), [], world)
  | .selectActive source operation, .rows ids =>
      if selects FailedEvent.id (fun a b => decide (b.createdAt ≤ a.createdAt)) 1
          (view.activeEntries source operation) ids then
        some (.ok (rowsOf FailedEvent.id (view.activeEntries source operation) ids).head?, [], world)
      else none
  | .selectDue maxAttempts now limit, .rows ids =>
      if selects FailedEvent.id FailedEvent.dueBefore limit
          (view.dueEntries maxAttempts now locked) ids then
        some (.ok (rowsOf FailedEvent.id (view.dueEntries maxAttempts now locked) ids),
          ids.map .lockFailed, world)
      else none
  | .selectFailed id, .none => some (.ok (view.failedEvents.find id), [], world)
  | .insertFailed row, .draw id t =>
      if world.clock.shows t then
        insertUnless (view.failedEvents.find (row id t).id).isSome "failed_events_pkey" id
          (.addFailed (row id t)) { world with clock := world.clock.read t }
      else none
  | .updateFailed id patch, .none => some (.ok (), [.patchFailed id patch], world)
  | .insertSyncLog row, .draw id t =>
      if world.clock.shows t then
        insertUnless (view.syncLogs.find (row id t).id).isSome "sync_logs_pkey" id
          (.addSyncLog (row id t)) { world with clock := world.clock.read t }
      else none
  | .updateSyncLog id status errorText, .none =>
      some (.ok (),
        if (view.syncLogs.find id).isSome then [.setSyncLog id status errorText] else [], world)
  | .selectDelivery key, .none => some (.ok (view.webhookDeliveries.find key), [], world)
  | .insertDelivery row, .draw id t =>
      if world.clock.shows t then
        insertUnless (view.webhookDeliveries.find (row id t).key).isSome "uq_webhook_delivery" id
          (.addDelivery (row id t)) { world with clock := world.clock.read t }
      else none
  | .updateDelivery key status errorText, .none =>
      some (.ok (),
        if (view.webhookDeliveries.find key).isSome then [.setDelivery key status errorText]
        else [], world)
  | .selectRawPayload source contentHash, .none =>
      some (.ok ((view.rawPayloads.rows.find? (fun row =>
        decide (row.source = source) && decide (row.contentHash = some contentHash))).map
          RawPayload.id), [], world)
  | .insertRawPayload row, .draw id t =>
      if world.clock.shows t then
        insertUnless (view.rawPayloads.find (row id t).id).isSome "raw_payloads_pkey" id
          (.addRawPayload (row id t)) { world with clock := world.clock.read t }
      else none
  | .selectCursor key, .none => some (.ok (view.syncState.find key), [], world)
  | .insertCursor row, .draw id t =>
      if world.clock.shows t then
        insertUnless (view.syncState.find (row id t).key).isSome "uq_sync_state_source_stream" id
          (.addSyncState (row id t)) { world with clock := world.clock.read t }
      else none
  | .updateCursor key cursor, .time t =>
      if world.clock.shows t then
        some (.ok (), [.setSyncState key cursor t], { world with clock := world.clock.read t })
      else none
  | .qdrantClient, .flag up => some (.ok up, [], world)
  | .qdrantUpsert eventId point, .none =>
      some (.ok (), [],
        { world with
          index := Function.update world.index eventId (some point)
          deliveries := world.deliveries ++ [(eventId, point)] })
  | .sendTask name, .text taskId =>
      some (.ok taskId, [], { world with broker := world.broker ++ [name] })
  | .putObject key body, .none =>
      some (.ok (), [], { world with objects := world.objects ++ [(key, body)] })
  | .fetch source since, .items xs =>
      some (.ok ((world.remote (.fetch source since)).getD xs), [], world)
  | .fetchMail folder since, .mails xs =>
      some (.ok ((world.remote (.fetchMail folder since)).getD xs), [], world)
  | .getCommits owner repo since, .commits xs =>
      some (.ok ((world.remote (.getCommits owner repo since)).getD xs), [], world)
  | .getPullRequests owner repo since, .pullRequests xs =>
      some (.ok ((world.remote (.getPullRequests owner repo since)).getD xs), [], world)
  | .getUpdates offset, .items xs =>
      some (.ok ((world.remote (.getUpdates offset)).getD xs), [], world)
  | _, _ => none

/-- Reading the clock, drawing random numbers and assigning attributes never fails, and
`_get_client` answers `None` instead of raising. -/
def fallible : Stmt → Bool
  | .utcNow => false
  | .uuid4 => false
  | .generateCorrelationId => false
  | .updateOutbox _ _ => false
  | .updateFailed _ _ => false
  | .qdrantClient => false
  | _ => true

/-- PostgreSQL, with the services around it. -/
def postgres : Engine Answer Exn Store Write World Choice where
  put := Store.put
  conflict := Write.conflict
  conflict_symm := Write.conflict_symm
  fallible := fallible
  exec := exec

/-- A program of the services. -/
abbrev Tx := Prog Answer Exn

namespace Db

/-- Issue one statement. -/
abbrev issue (s : Stmt) : Tx (Answer s) := Prog.issue s

def utcNow : Tx Time := issue .utcNow
def uuid4 : Tx Uuid := issue .uuid4
def generateCorrelationId : Tx String := issue .generateCorrelationId
def selectEvents (keys : List (String × String)) : Tx (List NormalizedEvent) :=
  issue (.selectEvents keys)
def selectVersion (eventId : Uuid) (version : Nat) : Tx (Option Uuid) :=
  issue (.selectVersion eventId version)
def insertVersion (row : Draft EventVersion) : Tx Uuid := issue (.insertVersion row)
def insertOnConflict (row : NormalizedEvent) : Tx Unit := issue (.insertOnConflict row)
def insertOutbox (rows : List (Draft OutboxEvent)) : Tx Unit := issue (.insertOutbox rows)
def selectPending (limit : Nat) : Tx (List OutboxEvent) := issue (.selectPending limit)
def selectChanges (after : Option (Time × Uuid)) (limit : Nat) : Tx (List OutboxEvent) :=
  issue (.selectChanges after limit)
def selectListing (filters : EventFilterParams) (limit : Nat) : Tx (List NormalizedEvent) :=
  issue (.selectListing filters limit)
def selectWatermark (source : String) (eventType : Option String) : Tx (Option Time) :=
  issue (.selectWatermark source eventType)
def updateOutbox (id : Uuid) (patch : OutboxPatch) : Tx Unit := issue (.updateOutbox id patch)
def flush : Tx Unit := issue .flush
def selectActive (source operation : String) : Tx (Option FailedEvent) :=
  issue (.selectActive source operation)
def selectDue (maxAttempts : Nat) (now : Time) (limit : Nat) : Tx (List FailedEvent) :=
  issue (.selectDue maxAttempts now limit)
def selectFailed (id : Uuid) : Tx (Option FailedEvent) := issue (.selectFailed id)
def insertFailed (row : Draft FailedEvent) : Tx Uuid := issue (.insertFailed row)
def updateFailed (id : Uuid) (patch : FailedPatch) : Tx Unit := issue (.updateFailed id patch)
def insertSyncLog (row : Draft SyncLog) : Tx Uuid := issue (.insertSyncLog row)
def updateSyncLog (id : Uuid) (status : RunStatus) (errorText : Option String) : Tx Unit :=
  issue (.updateSyncLog id status errorText)
def selectDelivery (key : String × String) : Tx (Option WebhookDelivery) :=
  issue (.selectDelivery key)
def insertDelivery (row : Draft WebhookDelivery) : Tx Uuid := issue (.insertDelivery row)
def updateDelivery (key : String × String) (status : DeliveryStatus) (errorText : Option String) :
    Tx Unit :=
  issue (.updateDelivery key status errorText)
def selectRawPayload (source contentHash : String) : Tx (Option Uuid) :=
  issue (.selectRawPayload source contentHash)
def insertRawPayload (row : Draft RawPayload) : Tx Uuid := issue (.insertRawPayload row)
def selectCursor (key : String × String) : Tx (Option SyncState) := issue (.selectCursor key)
def insertCursor (row : Draft SyncState) : Tx Uuid := issue (.insertCursor row)
def updateCursor (key : String × String) (cursor : Option String) : Tx Unit :=
  issue (.updateCursor key cursor)
def qdrantClient : Tx Bool := issue .qdrantClient
def qdrantUpsert (eventId : Uuid) (point : IndexPoint) : Tx Unit :=
  issue (.qdrantUpsert eventId point)
def sendTask (name : String) : Tx String := issue (.sendTask name)
def putObject (key : String) (body : Json) : Tx Unit := issue (.putObject key body)
def fetch (source : String) (since : Option Time) : Tx (List Json) :=
  issue (.fetch source since)
def fetchMail (folder : String) (since : Option Datetime) : Tx (List RawMessage) :=
  issue (.fetchMail folder since)
def getCommits (owner repo : String) (since : Option String) : Tx (List GitHubCommitData) :=
  issue (.getCommits owner repo since)
def getPullRequests (owner repo : String) (since : Option String) : Tx (List GitHubPRData) :=
  issue (.getPullRequests owner repo since)
def getUpdates (offset : Option Int) : Tx (List Json) := issue (.getUpdates offset)

end Db

/-- A session of the services. -/
abbrev TxSession (α : Type) := Session Answer Exn Write α

/-- What the sessions share. -/
abbrev State (ι : Type) := Shared Store Write World ι

end OmniSync
