import OmniSync.Imap.Tasks
import OmniSync.Integrations.Sync
import OmniSync.SyncLogs.Requests

/-!
# The mailbox endpoint

The request fetches from the start of the mailbox: it neither reads nor moves the watermark.
-/

namespace OmniSync

open Txn

/-- The answer of `/sync`. -/
structure ImapSyncResponse where
  messages : Nat
  eventsCreated : Nat

/-- One iteration of the loop over the fetched messages. -/
def syncMessage (lib : DatetimeLib) (rt : Runtime) (settings : Settings) (correlationId : String)
    (eventDataList : List NormalizedEventCreate) (raw : RawMessage) :
    Tx (List NormalizedEventCreate) := do
  let rawPayloadId ← saveRawPayload rt settings "imap_poll" (raw.modelDump lib) correlationId
  match IMAPConnector.normalize lib raw (some rawPayloadId) with
  | none => return eventDataList
  | some eventData => return eventDataList ++ [eventData]

def imapSync (lib : DatetimeLib) (rt : Runtime) (settings : Settings)
    (imapSettings : ImapSettings) : Tx ImapSyncResponse := do
  if imapSettings.IMAP_HOST = "" then
    throw ⟨"HTTPException", "503: IMAP not configured"⟩
  else
    let correlationId ← Db.generateCorrelationId
    let logId ← createSyncLog false correlationId "imap_poll"
    Prog.ofAnswer (IMAPConnector.new imapSettings.IMAP_HOST imapSettings.IMAP_USERNAME
      imapSettings.IMAP_PASSWORD)
    Prog.tryCatch
      (do
        let rawItems ← Db.fetchMail imapSettings.IMAP_FOLDER none
        let eventDataList ← rawItems.foldlM (syncMessage lib rt settings correlationId) []
        let results ← storeCollected eventDataList correlationId
        Prog.commitWork
        updateSyncLogStatus false logId .completed none
        return ⟨rawItems.length, results.length⟩)
      (failRequest logId)

/-- The request to sync the mailbox. -/
def imapSyncRequest (lib : DatetimeLib) (rt : Runtime) (settings : Settings)
    (imapSettings : ImapSettings) : LoggedRequest ImapSyncResponse ImapSyncResponse where
  operation := "imap_poll"
  setup := IMAPConnector.new imapSettings.IMAP_HOST imapSettings.IMAP_USERNAME
    imapSettings.IMAP_PASSWORD
  body correlationId := do
    let rawItems ← Db.fetchMail imapSettings.IMAP_FOLDER none
    let eventDataList ← rawItems.foldlM (syncMessage lib rt settings correlationId) []
    let results ← storeCollected eventDataList correlationId
    return ⟨rawItems.length, results.length⟩
  result := id

theorem imapSync_eq {lib : DatetimeLib} {rt : Runtime} {settings : Settings}
    {imapSettings : ImapSettings} :
    imapSync lib rt settings imapSettings =
      if imapSettings.IMAP_HOST = "" then throw ⟨"HTTPException", "503: IMAP not configured"⟩
      else (imapSyncRequest lib rt settings imapSettings).prog := by
  unfold imapSync LoggedRequest.prog LoggedRequest.opened LoggedRequest.finish
  simp only [imapSyncRequest, Prog.bind_assoc]
  rfl

end OmniSync
