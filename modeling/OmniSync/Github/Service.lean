import OmniSync.Events.Service
import OmniSync.RawPayloads.Service
import OmniSync.SyncLogs.Service

/-!
# GitHub

The client, and how commits and pull requests are normalized. A parser reads the clock
first: this is the timestamp of an item that has no date, or a malformed one.
-/

namespace OmniSync

open Txn

/-- The time that is given up for: `updated_at`, or else `created_at`. -/
def GitHubPRData.updated (pr : GitHubPRData) : Option String :=
  match pr.updatedAt with
  | some text => if text = "" then pr.createdAt else some text
  | none => pr.createdAt

/-- A pull request at which the client stops. -/
def GitHubPRData.olderThan (pr : GitHubPRData) (since : String) : Bool :=
  match pr.updated with
  | some text => decide (text ≠ "") && decide (text < since)
  | none => false

/-- The pull requests before the first one that is older than the watermark. -/
def trimmed (since : Option String) (data : List GitHubPRData) : List GitHubPRData :=
  match since with
  | some since => if since = "" then data else data.takeWhile (fun pr => !pr.olderThan since)
  | none => data

namespace GitHubClient

/-- One page of commits. An empty `since` is not sent. -/
def getCommits (owner repo : String) (since : Option String) : Tx (List GitHubCommitData) :=
  Db.getCommits owner repo (since.filter (fun text => decide (text ≠ "")))

/-- The endpoint has no `since` filter, so the client trims the page. -/
def getPullRequests (owner repo : String) (since : Option String) : Tx (List GitHubPRData) := do
  let data ← Db.getPullRequests owner repo none
  return trimmed since data

end GitHubClient

/-- The timestamp of an item. A missing or malformed date is `now`. -/
def itemTimestamp (lib : DatetimeLib) (date : Option String) (now : Time) : Except Exn Datetime :=
  match date with
  | none => .ok (.utc now)
  | some text => if text = "" then .ok (.utc now) else parsedDate lib text now

def parseCommitToEvent (lib : DatetimeLib) (now : Time) (commit : GitHubCommitData)
    (_repoFullName : String) (rawPayloadId : Option Uuid) : Except Exn NormalizedEventCreate := do
  let author := commit.commit.author
  let timestamp ← itemTimestamp lib (author.bind GitHubCommitAuthor.date) now
  return {
    externalId := commit.sha
    source := "github"
    authorId := (author.bind GitHubCommitAuthor.email).getD ""
    authorName := (author.bind GitHubCommitAuthor.name).getD ""
    content := commit.commit.message
    eventType := "commit"
    timestamp := timestamp.instant lib
    rawPayloadId := rawPayloadId
    naive := timestamp.naive }

/-- The number, the title and the body of a pull request. -/
def GitHubPRData.content (pr : GitHubPRData) : String :=
  let content := "PR #" ++ toString pr.number ++ ": " ++ pr.title
  match pr.body with
  | some body => if body = "" then content else content ++ "\n\n" ++ body
  | none => content

def parsePrToEvent (lib : DatetimeLib) (now : Time) (pr : GitHubPRData)
    (_repoFullName : String) (rawPayloadId : Option Uuid) : Except Exn NormalizedEventCreate := do
  let timestamp ← itemTimestamp lib pr.createdAt now
  return {
    externalId := toString pr.id
    source := "github"
    authorId := (pr.user.map GitHubPRUser.login).getD ""
    authorName := (pr.user.map GitHubPRUser.login).getD ""
    content := pr.content
    eventType := "pull_request"
    timestamp := timestamp.instant lib
    rawPayloadId := rawPayloadId
    naive := timestamp.naive }

/-- How the items of a list are parsed, at some time and under the name of their repository. -/
abbrev ItemParser (α : Type) :=
  Time → α → String → Option Uuid → Except Exn NormalizedEventCreate

/-- Normalize the items of a list, one after the other. -/
def parseItems {α : Type} (parse : ItemParser α) (repoFullName : String) (rawPayloadId : Uuid)
    (eventDataList : List NormalizedEventCreate) (items : List α) :
    Tx (List NormalizedEventCreate) :=
  items.foldlM (fun eventDataList item => do
    let now ← Db.utcNow
    let eventData ← Prog.ofAnswer (parse now item repoFullName (some rawPayloadId))
    return eventDataList ++ [eventData]) eventDataList

/-- What a poll keeps of the items that it has fetched. -/
def pollSummary (type : String) (count : Nat) : Json :=
  .obj [("type", .str type), ("count", .int count)]

/-- Keep a summary of the items, if there are any, and parse them. -/
def collectSummarized {α : Type} (rt : Runtime) (settings : Settings)
    (type repoFullName correlationId : String) (parse : ItemParser α)
    (eventDataList : List NormalizedEventCreate) (items : List α) :
    Tx (List NormalizedEventCreate) :=
  if items.isEmpty then pure eventDataList
  else do
    let rawPayloadId ← saveRawPayload rt settings "github_poll" (pollSummary type items.length)
      correlationId
    parseItems parse repoFullName rawPayloadId eventDataList items

end OmniSync
