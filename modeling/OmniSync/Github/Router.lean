import OmniSync.Github.Service
import OmniSync.SyncLogs.Requests

/-!
# The GitHub endpoints

The handlers of the GitHub requests.
-/

namespace OmniSync

open Txn

/-- The request was signed with the secret, if there is one. -/
def verifyWebhookSignature (webhooks : WebhookSettings) (payloadBody : String)
    (signature : Option String) : Except Exn Bool :=
  if webhooks.GITHUB_WEBHOOK_SECRET = "" then .ok true
  else
    match signature with
    | none => .ok false
    | some signature =>
        if signature = "" then .ok false
        else
          let secret := webhooks.GITHUB_WEBHOOK_SECRET
          let expected := "sha256=" ++ webhooks.hmacSha256 secret payloadBody
          compareDigest expected signature

/-- The events of a webhook payload, under no repository name. -/
def webhookEvents (lib : DatetimeLib) (payload : GitHubWebhookPayload) (rawPayloadId : Uuid) :
    Tx (List NormalizedEventCreate) := do
  let eventDataList ← parseItems (parseCommitToEvent lib) "" rawPayloadId []
    (payload.commits.getD [])
  parseItems (parsePrToEvent lib) "" rawPayloadId eventDataList payload.pullRequest.toList

def githubWebhook (lib : DatetimeLib) (rt : Runtime) (settings : Settings)
    (webhooks : WebhookSettings) (body : String) (signature deliveryHeader : Option String) :
    Tx WebhookResponse := do
  let verified ← Prog.ofAnswer (verifyWebhookSignature webhooks body signature)
  if !verified then
    throw ⟨"GitHubWebhookError", "Invalid webhook signature"⟩
  else
    let deliveryId := deliveryHeader.getD ""
    let delivery := if deliveryId = "" then none else some ("github", deliveryId)
    if ← claimDelivery delivery then
      return .duplicate
    else
      let correlationId ← Db.generateCorrelationId
      let logId ← createSyncLog false correlationId "github_webhook"
      Prog.tryCatch
        (do
          let payload ← Prog.ofAnswer (rt.validateWebhook body)
          let rawPayloadId ← saveRawPayload rt settings "github_webhook" payload.modelDump
            correlationId
          let eventDataList ← webhookEvents lib payload rawPayloadId
          let results ← NormalizedEventService.upsertEventsBulk eventDataList (some correlationId)
          Prog.commitWork
          updateSyncLogStatus false logId .completed none
          settleDelivery delivery .completed none
          return .processed results.length)
        (failWebhook delivery logId)

/-- The answer of `/sync`. -/
structure GitHubSyncResponse where
  commits : Nat
  pullRequests : Nat
  eventsCreated : Nat

def githubSync (lib : DatetimeLib) (rt : Runtime) (settings : Settings) (owner repo : String) :
    Tx GitHubSyncResponse := do
  let correlationId ← Db.generateCorrelationId
  let logId ← createSyncLog false correlationId "github_poll"
  Prog.tryCatch
    (do
      let commits ← GitHubClient.getCommits owner repo none
      let prs ← GitHubClient.getPullRequests owner repo none
      let eventDataList ← collectSummarized rt settings "commits" (owner ++ "/" ++ repo)
        correlationId (parseCommitToEvent lib) [] commits
      let eventDataList ← collectSummarized rt settings "pull_requests" (owner ++ "/" ++ repo)
        correlationId (parsePrToEvent lib) eventDataList prs
      let results ← NormalizedEventService.upsertEventsBulk eventDataList (some correlationId)
      Prog.commitWork
      updateSyncLogStatus false logId .completed none
      return ⟨commits.length, prs.length, results.length⟩)
    (failRequest logId)

section Requests

variable {lib : DatetimeLib} {rt : Runtime} {settings : Settings}

/-- The request to sync a repository. -/
def githubSyncRequest (lib : DatetimeLib) (rt : Runtime) (settings : Settings)
    (owner repo : String) : LoggedRequest GitHubSyncResponse GitHubSyncResponse where
  operation := "github_poll"
  body correlationId := do
    let commits ← GitHubClient.getCommits owner repo none
    let prs ← GitHubClient.getPullRequests owner repo none
    let eventDataList ← collectSummarized rt settings "commits" (owner ++ "/" ++ repo)
      correlationId (parseCommitToEvent lib) [] commits
    let eventDataList ← collectSummarized rt settings "pull_requests" (owner ++ "/" ++ repo)
      correlationId (parsePrToEvent lib) eventDataList prs
    let results ← NormalizedEventService.upsertEventsBulk eventDataList (some correlationId)
    return ⟨commits.length, prs.length, results.length⟩
  result := id

theorem githubSync_eq (owner repo : String) :
    githubSync lib rt settings owner repo =
      (githubSyncRequest lib rt settings owner repo).prog := by
  unfold githubSync LoggedRequest.prog LoggedRequest.opened LoggedRequest.finish
  simp only [githubSyncRequest, Prog.bind_assoc]
  rfl

/-- The work of a webhook that is no duplicate. -/
def githubWebhookRequest (lib : DatetimeLib) (rt : Runtime) (settings : Settings)
    (body : String) (delivery : Option (String × String)) : LoggedRequest Nat WebhookResponse where
  operation := "github_webhook"
  delivery := delivery
  body correlationId := do
    let payload ← Prog.ofAnswer (rt.validateWebhook body)
    let rawPayloadId ← saveRawPayload rt settings "github_webhook" payload.modelDump correlationId
    let eventDataList ← webhookEvents lib payload rawPayloadId
    let results ← NormalizedEventService.upsertEventsBulk eventDataList (some correlationId)
    return results.length
  result := .processed

/-- The delivery of a webhook request with this header. -/
def githubDelivery (deliveryHeader : Option String) : Option (String × String) :=
  if deliveryHeader.getD "" = "" then none else some ("github", deliveryHeader.getD "")

theorem githubWebhook_eq {webhooks : WebhookSettings} {body : String}
    {signature deliveryHeader : Option String} :
    githubWebhook lib rt settings webhooks body signature deliveryHeader =
      (Prog.ofAnswer (verifyWebhookSignature webhooks body signature) >>= fun verified =>
        if !verified then throw ⟨"GitHubWebhookError", "Invalid webhook signature"⟩
        else (githubWebhookRequest lib rt settings body
          (githubDelivery deliveryHeader)).received) := by
  unfold githubWebhook LoggedRequest.received LoggedRequest.prog LoggedRequest.opened
    LoggedRequest.finish
  simp only [githubWebhookRequest, Prog.bind_assoc]
  rfl

end Requests

end OmniSync
