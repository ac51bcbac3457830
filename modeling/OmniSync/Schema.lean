import Mathlib.Order.Defs.LinearOrder
import Mathlib.Data.Option.Basic

/-!
# The database schema

One structure for each ORM model, with the columns that the services read or
write. A column with a fixed set of string values is an inductive type. Optional
columns are `Option`, and defaults that the ORM supplies at `INSERT` time are
structure defaults.

A `datetime` is the number of microseconds since the epoch, unless the code depends on its
UTC offset (`Datetime`). A UUID is its 128-bit
value, which PostgreSQL orders like the canonical text; `str` of a UUID loses
nothing, so the text is not distinguished from the value.
-/

namespace OmniSync

abbrev Uuid := Nat

abbrev Time := Int

/-- One second, in the unit of `Time`. -/
def second : Time := 1000000

/-- A `datetime` with its own clock: the wall-clock reading, in the unit of `Time`, and the
UTC offset, unless it is naive. -/
structure Datetime where
  wall : Int
  offset : Option Int := none
  deriving DecidableEq, Repr

/-- A Python value as `json` produces it, or one that a source puts into a dictionary. A float
is given by its `repr`, and a value that `json` has to coerce by its `str`, with the instant
that it denotes if it is a datetime. -/
inductive Json where
  | null
  | bool (b : Bool)
  | int (n : Int)
  | float (repr : String)
  | str (text : String)
  | arr (items : List Json)
  | obj (fields : List (String × Json))
  | other (text : String) (instant : Option Time)

/-- A raised exception: its class and `str(e)`. -/
structure Exn where
  kind : String
  message : String
  deriving DecidableEq, Repr

/-- Version of the normalized-event content contract. -/
def CONTENT_SCHEMA_VERSION : Int := 1

/-- What a connector hands to the event service. `timestamp` is the instant that the database
stores, `naive` the clock of a timestamp without an offset. -/
structure NormalizedEventCreate where
  externalId : String
  source : String
  authorId : String
  authorName : String
  content : String
  eventType : String
  timestamp : Time
  rawPayloadId : Option Uuid := none
  schemaVersion : Int := CONTENT_SCHEMA_VERSION
  naive : Option Int := none
  deriving DecidableEq, Repr

/-- A row of `normalized_events`. -/
structure NormalizedEvent where
  id : Uuid
  externalId : String
  source : String
  authorId : String
  authorName : String
  content : String
  eventType : String
  timestamp : Time
  rawPayloadId : Option Uuid
  createdAt : Time
  updatedAt : Time
  version : Nat
  schemaVersion : Int
  deriving DecidableEq, Repr

/-- A row of `event_versions`. -/
structure EventVersion where
  id : Uuid
  eventId : Uuid
  version : Nat
  content : String
  schemaVersion : Int
  rawPayloadId : Option Uuid
  changedBy : Option String
  changedAt : Time
  deriving DecidableEq, Repr

inductive OutboxStatus where
  | pending
  | published
  | dead
  deriving DecidableEq, Repr

/-- The payload of an outbox row of a normalized event. -/
structure OutboxPayload where
  eventId : Uuid
  source : String
  externalId : String
  eventType : String
  content : String
  version : Nat
  schemaVersion : Int
  deriving DecidableEq, Repr

/-- A row of `outbox_events`. -/
structure OutboxEvent where
  id : Uuid
  aggregateType : String
  aggregateId : Uuid
  eventType : String
  payload : OutboxPayload
  status : OutboxStatus := .pending
  attempts : Nat := 0
  lastError : Option String := none
  createdAt : Time
  publishedAt : Option Time := none
  deriving DecidableEq, Repr

inductive FailedStatus where
  | pending
  | retrying
  | exhausted
  | resolved
  | failed
  deriving DecidableEq, Repr

/-- A row of `failed_events`. -/
structure FailedEvent where
  id : Uuid
  source : String
  operation : String
  correlationId : Option String
  payload : Json
  errorText : String
  status : FailedStatus := .pending
  replayAttempts : Nat := 0
  createdAt : Time
  lastAttemptAt : Option Time := none
  nextRetryAt : Option Time := none
  resolvedAt : Option Time := none

inductive RunStatus where
  | started
  | completed
  | failed
  deriving DecidableEq, Repr

/-- A row of `sync_logs`. -/
structure SyncLog where
  id : Uuid
  correlationId : String
  source : String
  status : RunStatus
  errorText : Option String := none
  createdAt : Time
  deriving DecidableEq, Repr

inductive DeliveryStatus where
  | processing
  | completed
  | failed
  deriving DecidableEq, Repr

/-- A row of `webhook_deliveries`. -/
structure WebhookDelivery where
  id : Uuid
  source : String
  deliveryId : String
  status : DeliveryStatus := .processing
  errorText : Option String := none
  receivedAt : Time
  deriving DecidableEq, Repr

/-- A row of `raw_payloads`. -/
structure RawPayload where
  id : Uuid
  source : String
  payload : Option Json
  contentHash : Option String
  correlationId : String
  receivedAt : Time
  storageUrl : Option String

/-- A row of `sync_state`. -/
structure SyncState where
  id : Uuid
  source : String
  stream : String := "default"
  cursor : Option String
  updatedAt : Time
  deriving DecidableEq, Repr

/-- The unique key of `normalized_events`. -/
def NormalizedEvent.key (row : NormalizedEvent) : String × String := (row.source, row.externalId)

/-- The key under which an event is stored. -/
def NormalizedEventCreate.key (e : NormalizedEventCreate) : String × String :=
  (e.source, e.externalId)

/-- The unique key of `event_versions`. -/
def EventVersion.key (row : EventVersion) : Uuid × Nat := (row.eventId, row.version)

/-- The unique key of `webhook_deliveries`. -/
def WebhookDelivery.key (row : WebhookDelivery) : String × String := (row.source, row.deliveryId)

/-- The unique key of `sync_state`. -/
def SyncState.key (row : SyncState) : String × String := (row.source, row.stream)

/-- The columns of an outbox row that an ORM update sets. -/
structure OutboxPatch where
  status : Option OutboxStatus := none
  attempts : Option Nat := none
  lastError : Option (Option String) := none
  publishedAt : Option (Option Time) := none
  deriving DecidableEq, Repr

def OutboxEvent.patch (row : OutboxEvent) (p : OutboxPatch) : OutboxEvent :=
  { row with
    status := p.status.getD row.status
    attempts := p.attempts.getD row.attempts
    lastError := p.lastError.getD row.lastError
    publishedAt := p.publishedAt.getD row.publishedAt }

@[simp] theorem OutboxEvent.patch_id (row : OutboxEvent) (p : OutboxPatch) :
    (row.patch p).id = row.id := rfl

@[simp] theorem OutboxEvent.patch_payload (row : OutboxEvent) (p : OutboxPatch) :
    (row.patch p).payload = row.payload := rfl

@[simp] theorem OutboxEvent.patch_createdAt (row : OutboxEvent) (p : OutboxPatch) :
    (row.patch p).createdAt = row.createdAt := rfl

/-- The columns of a dead-letter entry that an ORM update sets. -/
structure FailedPatch where
  correlationId : Option (Option String) := none
  payload : Option Json := none
  errorText : Option String := none
  status : Option FailedStatus := none
  replayAttempts : Option Nat := none
  lastAttemptAt : Option (Option Time) := none
  nextRetryAt : Option (Option Time) := none
  resolvedAt : Option (Option Time) := none

def FailedEvent.patch (row : FailedEvent) (p : FailedPatch) : FailedEvent :=
  { row with
    correlationId := p.correlationId.getD row.correlationId
    payload := p.payload.getD row.payload
    errorText := p.errorText.getD row.errorText
    status := p.status.getD row.status
    replayAttempts := p.replayAttempts.getD row.replayAttempts
    lastAttemptAt := p.lastAttemptAt.getD row.lastAttemptAt
    nextRetryAt := p.nextRetryAt.getD row.nextRetryAt
    resolvedAt := p.resolvedAt.getD row.resolvedAt }

@[simp] theorem FailedEvent.patch_id (row : FailedEvent) (p : FailedPatch) :
    (row.patch p).id = row.id := rfl

@[simp] theorem FailedEvent.patch_source (row : FailedEvent) (p : FailedPatch) :
    (row.patch p).source = row.source := rfl

@[simp] theorem FailedEvent.patch_operation (row : FailedEvent) (p : FailedPatch) :
    (row.patch p).operation = row.operation := rfl

def SyncLog.setStatus (row : SyncLog) (status : RunStatus) (errorText : Option String) : SyncLog :=
  { row with status := status, errorText := errorText }

@[simp] theorem SyncLog.setStatus_id (row : SyncLog) (status : RunStatus)
    (errorText : Option String) : (row.setStatus status errorText).id = row.id := rfl

def WebhookDelivery.setStatus (row : WebhookDelivery) (status : DeliveryStatus)
    (errorText : Option String) : WebhookDelivery :=
  { row with status := status, errorText := errorText }

@[simp] theorem WebhookDelivery.setStatus_key (row : WebhookDelivery) (status : DeliveryStatus)
    (errorText : Option String) : (row.setStatus status errorText).key = row.key := rfl

def SyncState.setCursor (row : SyncState) (cursor : Option String) (updatedAt : Time) : SyncState :=
  { row with cursor := cursor, updatedAt := updatedAt }

@[simp] theorem SyncState.setCursor_key (row : SyncState) (cursor : Option String)
    (updatedAt : Time) : (row.setCursor cursor updatedAt).key = row.key := rfl

/-- The settings that the services read. -/
structure Settings where
  OUTBOX_BATCH_SIZE : Nat := 100
  OUTBOX_MAX_ATTEMPTS : Nat := 10
  DLQ_MAX_REPLAY_ATTEMPTS : Nat := 5
  DLQ_RETRY_ENABLED : Bool := true
  DLQ_RETRY_BASE_DELAY : Nat := 60
  DLQ_RETRY_MAX_DELAY : Nat := 3600
  DLQ_RETRY_BATCH_SIZE : Nat := 50
  S3_PAYLOAD_THRESHOLD : Nat := 32768
  S3_ENDPOINT_URL : String := "http://localhost:9000"
  S3_BUCKET : String := "omnisync-raw-payloads"
  RAW_PAYLOAD_TTL_DAYS : Int := 90

end OmniSync
