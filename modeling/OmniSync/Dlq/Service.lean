import OmniSync.Outbox.Service

/-!
# The dead-letter queue

An entry belongs to a `(source, operation)`; the operation is the name of the Celery
task to run again. Repeated failures of one operation refresh its active entry.
-/

namespace OmniSync

/-- Exponential backoff for the next automatic replay. -/
def computeBackoff (settings : Settings) (attempts : Nat) : Time :=
  (min (settings.DLQ_RETRY_BASE_DELAY * Nat.pow 2 attempts) settings.DLQ_RETRY_MAX_DELAY : Nat) * second

/-- `if text:` for an optional string. -/
def truthy (text : Option String) : Bool :=
  match text with
  | some text => text != ""
  | none => false

/-- The columns that a renewed failure sets on the active entry. -/
def refreshed (settings : Settings) (existing : FailedEvent) (payload : Json) (errorText : String)
    (correlationId : Option String) (now : Time) : FailedPatch :=
  { errorText := some (slice errorText 2000)
    payload := some payload
    correlationId := if truthy correlationId then some correlationId else none
    -- Only seed the backoff watermark if nothing scheduled it yet.
    nextRetryAt :=
      if existing.nextRetryAt.isNone then
        some (some (now + computeBackoff settings existing.replayAttempts))
      else none }

/-- The entry for a first failure. -/
def recorded (settings : Settings) (source operation : String) (payload : Json)
    (errorText : String) (correlationId : Option String) (now : Time) : Draft FailedEvent :=
  fun id createdAt =>
    { id := id
      source := source
      operation := operation
      correlationId := correlationId
      payload := payload
      errorText := slice errorText 2000
      createdAt := createdAt
      nextRetryAt := some (now + computeBackoff settings 0) }

/-- Persist (or refresh) a dead-letter entry for a failed operation. -/
def recordFailure (settings : Settings) (source operation : String) (payload : Json)
    (errorText : String) (correlationId : Option String) : Tx Uuid := do
  let now ← Db.utcNow
  match ← Db.selectActive source operation with
  | some existing =>
      Db.updateFailed existing.id
        (refreshed settings existing payload errorText correlationId now)
      Db.flush
      return existing.id
  | none =>
      Db.insertFailed (recorded settings source operation payload errorText correlationId now)

/-- Record a failure in a transaction of its own. -/
def recordFailureStandalone (settings : Settings) (source operation : String) (payload : Json)
    (errorText : String) (correlationId : Option String) : Tx Unit := do
  let _ ← recordFailure settings source operation payload errorText correlationId
  Txn.Prog.commitWork

/-- Active dead-letter entries whose backoff window has elapsed. -/
def fetchDueRetries (settings : Settings) (now : Option Time) (limit : Option Nat) :
    Tx (List FailedEvent) := do
  let now ←
    match now with
    | some now => pure now
    | none => Db.utcNow
  Db.selectDue settings.DLQ_MAX_REPLAY_ATTEMPTS now (limitOr limit settings.DLQ_RETRY_BATCH_SIZE)

/-- The columns that accounting for an automatic replay sets. -/
def scheduled (settings : Settings) (failed : FailedEvent) (now : Time) : FailedPatch :=
  if settings.DLQ_MAX_REPLAY_ATTEMPTS ≤ failed.replayAttempts + 1 then
    { replayAttempts := some (failed.replayAttempts + 1)
      lastAttemptAt := some (some now)
      status := some .exhausted
      nextRetryAt := some none }
  else
    { replayAttempts := some (failed.replayAttempts + 1)
      lastAttemptAt := some (some now)
      status := some .retrying
      nextRetryAt := some (some (now + computeBackoff settings (failed.replayAttempts + 1))) }

/-- Account for an automatic replay, or retire the entry once the attempt budget is
spent. -/
def markRetryScheduled (settings : Settings) (failed : FailedEvent) : Tx Unit := do
  let now ← Db.utcNow
  Db.updateFailed failed.id (scheduled settings failed now)

def getFailed (failedEventId : Uuid) : Tx (Option FailedEvent) := Db.selectFailed failedEventId

def markResolved (failed : FailedEvent) : Tx Unit := do
  let now ← Db.utcNow
  Db.updateFailed failed.id
    { status := some .resolved
      nextRetryAt := some none
      resolvedAt := some (some now) }

end OmniSync
