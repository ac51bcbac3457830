import OmniSync.SyncLogs.Requests
import OmniSync.Telegram.Service

/-!
# The Telegram endpoints

The handlers of the Telegram requests.
-/

namespace OmniSync

open Txn

/-- The answer of `/sync`. -/
structure TelegramSyncResponse where
  updates : Nat
  eventsCreated : Nat

/-- One iteration of the loop over the updates. -/
def syncUpdate (rt : Runtime) (settings : Settings) (correlationId : String)
    (eventsCreated : Nat) (update : TelegramUpdate) : Tx Nat := do
  match update.message with
  | none => return eventsCreated
  | some message =>
      let rawPayloadId ←
        saveRawPayload rt settings "telegram_poll" update.modelDump correlationId
      let now ← Db.utcNow
      match ← Prog.ofAnswer (parseMessageToEvent rt now message (some rawPayloadId)) with
      | none => return eventsCreated
      | some eventData =>
          let _ ← NormalizedEventService.upsertEvent eventData none
          return eventsCreated + 1

/-- `str(update_id)`, if there is an id. -/
def telegramDelivery (rt : Runtime) (updateId : Option Json) : Option (String × String) :=
  match updateId with
  | some updateId => if updateId.truthy then some ("telegram", formatted rt updateId) else none
  | none => none

/-- The secret of the request is the configured one, if there is one. -/
def verifySecretToken (webhooks : WebhookSettings) (token : Option String) : Except Exn Unit :=
  if webhooks.TELEGRAM_WEBHOOK_SECRET = "" then .ok ()
  else
    match token.filter (fun token => decide (token ≠ "")) with
    | none => .error ⟨"HTTPException", "401: Missing secret token"⟩
    | some token => do
        if !(← compareDigest token webhooks.TELEGRAM_WEBHOOK_SECRET) then
          throw ⟨"HTTPException", "403: Invalid secret token"⟩

def telegramWebhook (rt : Runtime) (settings : Settings) (webhooks : WebhookSettings)
    (token : Option String) (json : Except Exn Json) : Tx WebhookResponse := do
  Prog.ofAnswer (verifySecretToken webhooks token)
  let body ← Prog.ofAnswer json
  let updateId ← Prog.ofAnswer (body.get? "update_id")
  let delivery := telegramDelivery rt updateId
  if ← claimDelivery delivery then
    return .duplicate
  else
    let correlationId ← Db.generateCorrelationId
    let logId ← createSyncLog false correlationId "telegram_webhook"
    Prog.tryCatch
      (do
        let update ← Prog.ofAnswer (rt.validateUpdate body)
        match update.message with
        | none =>
            Prog.commitWork
            updateSyncLogStatus false logId .completed none
            settleDelivery delivery .completed none
            return .processed 0
        | some message =>
            let rawPayloadId ← saveRawPayload rt settings "telegram_webhook" body correlationId
            let now ← Db.utcNow
            match ← Prog.ofAnswer (parseMessageToEvent rt now message (some rawPayloadId)) with
            | none =>
                Prog.commitWork
                updateSyncLogStatus false logId .completed none
                settleDelivery delivery .completed none
                return .processed 0
            | some eventData =>
                let _ ← NormalizedEventService.upsertEvent eventData none
                Prog.commitWork
                updateSyncLogStatus false logId .completed none
                settleDelivery delivery .completed none
                return .processed 1)
      (failWebhook delivery logId)

def telegramSync (rt : Runtime) (settings : Settings) : Tx TelegramSyncResponse := do
  let correlationId ← Db.generateCorrelationId
  let logId ← createSyncLog false correlationId "telegram_poll"
  Prog.tryCatch
    (do
      let updates ← TelegramClient.getUpdates rt none
      let eventsCreated ← updates.foldlM (syncUpdate rt settings correlationId) 0
      Prog.commitWork
      updateSyncLogStatus false logId .completed none
      return ⟨updates.length, eventsCreated⟩)
    (failRequest logId)

section Requests

variable {rt : Runtime} {settings : Settings}

/-- The request to sync the messages. -/
def telegramSyncRequest (rt : Runtime) (settings : Settings) :
    LoggedRequest TelegramSyncResponse TelegramSyncResponse where
  operation := "telegram_poll"
  body correlationId := do
    let updates ← TelegramClient.getUpdates rt none
    let eventsCreated ← updates.foldlM (syncUpdate rt settings correlationId) 0
    return ⟨updates.length, eventsCreated⟩
  result := id

theorem telegramSync_eq : telegramSync rt settings = (telegramSyncRequest rt settings).prog := by
  unfold telegramSync LoggedRequest.prog LoggedRequest.opened LoggedRequest.finish
  simp only [telegramSyncRequest, Prog.bind_assoc]
  rfl

/-- The work of a webhook that is no duplicate. -/
def telegramWebhookRequest (rt : Runtime) (settings : Settings) (body : Json)
    (delivery : Option (String × String)) : LoggedRequest Nat WebhookResponse where
  operation := "telegram_webhook"
  delivery := delivery
  body correlationId := do
    let update ← Prog.ofAnswer (rt.validateUpdate body)
    match update.message with
    | none => return 0
    | some message =>
        let rawPayloadId ← saveRawPayload rt settings "telegram_webhook" body correlationId
        let now ← Db.utcNow
        match ← Prog.ofAnswer (parseMessageToEvent rt now message (some rawPayloadId)) with
        | none => return 0
        | some eventData =>
            let _ ← NormalizedEventService.upsertEvent eventData none
            return 1
  result := .processed

theorem telegramWebhook_eq {webhooks : WebhookSettings} {token : Option String}
    {json : Except Exn Json} :
    telegramWebhook rt settings webhooks token json = (do
      Prog.ofAnswer (verifySecretToken webhooks token)
      let body ← Prog.ofAnswer json
      let updateId ← Prog.ofAnswer (body.get? "update_id")
      (telegramWebhookRequest rt settings body (telegramDelivery rt updateId)).received) := by
  refine bind_congr (fun _ => bind_congr (fun body => bind_congr (fun updateId => ?_)))
  refine bind_congr (fun known => ite_congr rfl (fun _ => rfl) (fun _ => ?_))
  refine bind_congr (fun cid => bind_congr (fun logId => ?_))
  refine congrArg (fun p => Prog.tryCatch p (failWebhook _ logId)) ?_
  simp only [telegramWebhookRequest, Prog.bind_assoc]
  refine bind_congr (fun update => ?_)
  cases update.message with
  | none => rfl
  | some message =>
      simp only [Prog.bind_assoc]
      refine bind_congr (fun id => bind_congr (fun now => bind_congr (fun result => ?_)))
      cases result with
      | none => rfl
      | some e =>
          dsimp only
          rw [Prog.bind_assoc]
          rfl

end Requests

end OmniSync
