import OmniSync.Events.Service
import OmniSync.Imap.Service
import OmniSync.Integrations.Latest
import OmniSync.RawPayloads.Service
import OmniSync.SyncLogs.Service
import OmniSync.SyncState.Service

/-!
# Polling the mailbox

The task reads its watermark, fetches, and sets the watermark to the latest date of the
messages that it has fetched.
-/

namespace OmniSync

open Txn

/-- The settings of the mailbox. -/
structure ImapSettings where
  IMAP_HOST : String := ""
  IMAP_USERNAME : String := ""
  IMAP_PASSWORD : String := ""
  IMAP_FOLDER : String := "INBOX"

/-- The later one of a date and the date of a message. -/
def laterDate (maxDate : Option Datetime) (rawDate : Datetime) : Except Exn (Option Datetime) :=
  laterBy id maxDate rawDate

/-- One iteration of the loop over the fetched messages. -/
def collectMessage (lib : DatetimeLib) (rt : Runtime) (settings : Settings)
    (correlationId : String) (collected : List NormalizedEventCreate × Option Datetime)
    (raw : RawMessage) : Tx (List NormalizedEventCreate × Option Datetime) := do
  let maxDate ← Prog.ofAnswer (laterDate collected.2 raw.date)
  let rawPayloadId ← saveRawPayload rt settings "imap_poll" (raw.modelDump lib) correlationId
  match IMAPConnector.normalize lib raw (some rawPayloadId) with
  | none => return (collected.1, maxDate)
  | some eventData => return (collected.1 ++ [eventData], maxDate)

/-- The date from which a poll searches. -/
def parseSinceDate (lib : DatetimeLib) (cursor : Option String) : Tx (Option Datetime) :=
  match cursor with
  | some cursor =>
      if cursor = "" then pure none else some <$> Prog.ofAnswer (lib.fromisoformat cursor)
  | none => pure none

/-- Move the watermark to the latest date, if a message was fetched. -/
def saveMaxDate (lib : DatetimeLib) (maxDate : Option Datetime) : Tx Unit :=
  match maxDate with
  | some maxDate => setCursor "imap" (some (lib.isoformat maxDate))
  | none => pure ()

/-- Complete the entry of the sync log. -/
def completeSyncLog (logId : Uuid) : Tx Unit := updateSyncLogStatus true logId .completed none

def syncImapMessages (lib : DatetimeLib) (rt : Runtime) (settings : Settings)
    (imapSettings : ImapSettings) : Tx Unit := do
  if imapSettings.IMAP_HOST = "" then
    return ()
  let correlationId ← Db.generateCorrelationId
  let logId ← createSyncLog true correlationId "imap_poll"
  Prog.ofAnswer (IMAPConnector.new imapSettings.IMAP_HOST imapSettings.IMAP_USERNAME
    imapSettings.IMAP_PASSWORD)
  Prog.tryCatch
    (do
      let cursor ← getCursor "imap"
      let since ← parseSinceDate lib cursor
      let rawItems ← Db.fetchMail imapSettings.IMAP_FOLDER since
      let collected ←
        rawItems.foldlM (collectMessage lib rt settings correlationId) ([], none)
      saveMaxDate lib collected.2
      if collected.1.isEmpty then
        Prog.commitWork
        completeSyncLog logId
      else
        let _ ← NormalizedEventService.upsertEventsBulk collected.1 (some correlationId)
        Prog.commitWork
        completeSyncLog logId)
    (fun e => do
      Prog.rollbackWork
      updateSyncLogStatus true logId .failed (some e.message)
      throw e)

end OmniSync
