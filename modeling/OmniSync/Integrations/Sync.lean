import OmniSync.Dlq.Service
import OmniSync.Events.Service
import OmniSync.Integrations.Latest
import OmniSync.RawPayloads.Service
import OmniSync.SyncLogs.Service
import OmniSync.SyncState.Service

/-!
# The generic sync driver

One incremental run of a registered connector, as a transaction. A run that fails is
rolled back, logged as failed, and recorded in the dead-letter queue.
-/

namespace OmniSync

open Txn

/-- `operation or f"{source}_poll"`. -/
def operationOf (source : String) (operation : Option String) : String :=
  match operation with
  | some operation => if operation = "" then source ++ "_poll" else operation
  | none => source ++ "_poll"

/-- The timestamp of an event: the instant that is stored of it, and its clock if it has no
offset. -/
structure Stamp where
  instant : Time
  naive : Option Int
  deriving DecidableEq, Repr

/-- The datetime that is compared. An aware one is compared by its instant. -/
def Stamp.datetime (stamp : Stamp) : Datetime :=
  match stamp.naive with
  | some wall => ⟨wall, none⟩
  | none => .utc stamp.instant

theorem Stamp.datetime_aware {stamp : Stamp} : stamp.datetime.Aware ↔ stamp.naive = none := by
  obtain ⟨instant, _ | wall⟩ := stamp
  · exact ⟨fun _ => rfl, fun _ => Datetime.utc_aware instant⟩
  · exact ⟨fun aware => (aware rfl).elim, fun impossible => (nomatch impossible)⟩

def NormalizedEventCreate.stamp (e : NormalizedEventCreate) : Stamp := ⟨e.timestamp, e.naive⟩

/-- The later one of a watermark and a timestamp. -/
def advanced (maxTs : Option Stamp) (timestamp : Stamp) : Except Exn (Option Stamp) :=
  laterBy Stamp.datetime maxTs timestamp

/-- Collect the event of an item whose raw payload was kept. -/
def collectEvent {α : Type} (normalize : α → Option Uuid → Except Exn (Option NormalizedEventCreate))
    (collected : List NormalizedEventCreate × Option Stamp) (raw : α)
    (rawPayloadId : Option Uuid) : Except Exn (List NormalizedEventCreate × Option Stamp) := do
  match ← normalize raw rawPayloadId with
  | none => return collected
  | some eventData =>
      return (collected.1 ++ [eventData], ← advanced collected.2 eventData.stamp)

/-- One iteration of the loop over the fetched items: keep the raw payload and collect the
event. -/
def collectItem (rt : Runtime) (settings : Settings) (connector : Connector)
    (operation correlationId : String)
    (collected : List NormalizedEventCreate × Option Stamp) (raw : Json) :
    Tx (List NormalizedEventCreate × Option Stamp) := do
  let rawPayloadId ← saveRawPayload rt settings operation raw correlationId
  Prog.ofAnswer (collectEvent connector.normalize collected raw (some rawPayloadId))

/-- Store a batch of events, if there is one. -/
def storeCollected (eventDataList : List NormalizedEventCreate) (correlationId : String) :
    Tx (List NormalizedEvent) :=
  if eventDataList.isEmpty then pure []
  else NormalizedEventService.upsertEventsBulk eventDataList (some correlationId)

/-- The time from which a run fetches. -/
def parseSince (rt : Runtime) (cursor : Option String) : Tx (Option Time) :=
  match cursor with
  | some cursor =>
      if cursor = "" then pure none else some <$> Prog.ofAnswer (rt.fromisoformat cursor)
  | none => pure none

/-- Advance the watermark to the latest event, if there is one. -/
def saveWatermark (rt : Runtime) (source : String) (maxTs : Option Stamp) : Tx Unit :=
  match maxTs with
  | some maxTs => setCursor source (some (rt.isoformat maxTs.instant))
  | none => pure ()

/-- The work of a run up to its commit. -/
def ingest (rt : Runtime) (settings : Settings) (source operation correlationId : String) :
    Tx (List NormalizedEvent) := do
  let connector ← Prog.ofAnswer (rt.getConnector source)
  let cursor ← getCursor source
  let since ← parseSince rt cursor
  let rawItems ← Db.fetch source since
  let collected ←
    rawItems.foldlM (collectItem rt settings connector operation correlationId) ([], none)
  let results ← storeCollected collected.1 correlationId
  saveWatermark rt source collected.2
  return results

/-- The payload of the entries that sync runs record. -/
def resyncPayload : Json := .obj [("trigger", .str "resync")]

/-- Generic incremental sync driver for registry connectors. -/
def runConnectorSync (rt : Runtime) (settings : Settings) (source : String)
    (operation : Option String) : Tx Nat := do
  let operation := operationOf source operation
  let correlationId ← Db.generateCorrelationId
  let logId ← createSyncLog true correlationId operation
  Prog.tryCatch
    (do
      let results ← ingest rt settings source operation correlationId
      Prog.commitWork
      updateSyncLogStatus true logId .completed none
      return results.length)
    (fun e => do
      Prog.rollbackWork
      updateSyncLogStatus true logId .failed (some e.message)
      recordFailureStandalone settings source operation resyncPayload e.message
        (if correlationId = "" then none else some correlationId)
      throw e)

end OmniSync
