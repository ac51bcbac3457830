import OmniSync.Github.Service

/-!
# Polling GitHub

The two tasks poll the configured repository, from the latest event of their type on. They
differ in what they fetch and how they parse it.
-/

namespace OmniSync

open Txn

/-- The environment of the tasks. -/
structure GitHubEnv where
  GITHUB_SYNC_OWNER : String := ""
  GITHUB_SYNC_REPO : String := ""

namespace NormalizedEventService

/-- The timestamp of the latest event. -/
def getWatermark (source : String) (eventType : Option String) : Tx (Option Time) :=
  Db.selectWatermark source eventType

end NormalizedEventService

/-- A task: the operation in the sync log, the type of its events, the name of its items, how
they are fetched, and how they are parsed. -/
def pollGithub {α : Type} (rt : Runtime) (settings : Settings) (env : GitHubEnv)
    (operation eventType type : String) (get : String → String → Option String → Tx (List α))
    (parse : ItemParser α) : Tx Unit := do
  if env.GITHUB_SYNC_OWNER = "" ∨ env.GITHUB_SYNC_REPO = "" then
    return ()
  let correlationId ← Db.generateCorrelationId
  let logId ← createSyncLog true correlationId operation
  Prog.tryCatch
    (do
      let watermark ← NormalizedEventService.getWatermark "github" (some eventType)
      let items ← get env.GITHUB_SYNC_OWNER env.GITHUB_SYNC_REPO (watermark.map rt.isoformat)
      if items.isEmpty then
        Prog.commitWork
        updateSyncLogStatus true logId .completed none
      else
        let rawPayloadId ← saveRawPayload rt settings "github_poll"
          (pollSummary type items.length) correlationId
        let eventDataList ← parseItems parse
          (env.GITHUB_SYNC_OWNER ++ "/" ++ env.GITHUB_SYNC_REPO) rawPayloadId [] items
        let _ ← NormalizedEventService.upsertEventsBulk eventDataList (some correlationId)
        Prog.commitWork
        updateSyncLogStatus true logId .completed none)
    (fun e => do
      Prog.rollbackWork
      updateSyncLogStatus true logId .failed (some e.message)
      throw e)

def syncGithubCommits (lib : DatetimeLib) (rt : Runtime) (settings : Settings) (env : GitHubEnv) :
    Tx Unit :=
  pollGithub rt settings env "github_poll_commits" "commit" "commits" GitHubClient.getCommits
    (parseCommitToEvent lib)

def syncGithubPullRequests (lib : DatetimeLib) (rt : Runtime) (settings : Settings)
    (env : GitHubEnv) : Tx Unit :=
  pollGithub rt settings env "github_poll_prs" "pull_request" "pull_requests"
    GitHubClient.getPullRequests (parsePrToEvent lib)

end OmniSync
