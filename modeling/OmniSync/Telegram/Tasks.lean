import OmniSync.Telegram.Service

/-!
# Polling Telegram

The task asks for the updates from its cursor on, and moves the cursor behind the last one
that it has seen.
-/

namespace OmniSync

open Txn

/-- The larger one of a maximum and the id of an update. -/
def laterId (maxUpdateId : Option Int) (updateId : Int) : Option Int :=
  match maxUpdateId with
  | none => some updateId
  | some latest => if latest < updateId then some updateId else some latest

/-- One iteration of the loop over the updates. -/
def collectUpdate (rt : Runtime) (settings : Settings) (correlationId : String)
    (collected : List NormalizedEventCreate × Option Int) (update : TelegramUpdate) :
    Tx (List NormalizedEventCreate × Option Int) := do
  let maxUpdateId := laterId collected.2 update.updateId
  match update.message with
  | none => return (collected.1, maxUpdateId)
  | some message =>
      let rawPayloadId ←
        saveRawPayload rt settings "telegram_poll" update.modelDump correlationId
      let now ← Db.utcNow
      match ← Prog.ofAnswer (parseMessageToEvent rt now message (some rawPayloadId)) with
      | none => return (collected.1, maxUpdateId)
      | some eventData => return (collected.1 ++ [eventData], maxUpdateId)

/-- `int(cursor) if cursor else None`. -/
def parseOffset (cursor : Option String) : Tx (Option Int) :=
  match cursor with
  | none => pure none
  | some cursor =>
      if cursor = "" then pure none
      else match signed cursor.toList with
        | some offset => pure (some offset)
        | none => throw ⟨"ValueError", "invalid literal for int() with base 10: " ++ cursor⟩

/-- Acknowledge the updates that were consumed. -/
def acknowledge (maxUpdateId : Option Int) : Tx Unit :=
  match maxUpdateId with
  | some maxUpdateId => setCursor "telegram" (some (toString (maxUpdateId + 1)))
  | none => pure ()

/-- The task: how the updates from some offset on are fetched is a parameter. -/
def pollTelegram (rt : Runtime) (settings : Settings)
    (get : Option Int → Tx (List TelegramUpdate)) : Tx Unit := do
  let correlationId ← Db.generateCorrelationId
  let logId ← createSyncLog true correlationId "telegram_poll"
  Prog.tryCatch
    (do
      let cursor ← getCursor "telegram"
      let offset ← parseOffset cursor
      let updates ← get offset
      let collected ← updates.foldlM (collectUpdate rt settings correlationId) ([], none)
      acknowledge collected.2
      if collected.1.isEmpty then
        Prog.commitWork
        updateSyncLogStatus true logId .completed none
      else
        let _ ← NormalizedEventService.upsertEventsBulk collected.1 (some correlationId)
        Prog.commitWork
        updateSyncLogStatus true logId .completed none)
    (fun e => do
      Prog.rollbackWork
      updateSyncLogStatus true logId .failed (some e.message)
      throw e)

def syncTelegramMessages (rt : Runtime) (settings : Settings) : Tx Unit :=
  pollTelegram rt settings (TelegramClient.getUpdates rt)

end OmniSync
