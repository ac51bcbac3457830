import OmniSync.Filestore.Service
import OmniSync.Github.Parsing
import OmniSync.Imap.Service
import OmniSync.Jira.Normalization
import OmniSync.Telegram.Polling

/-!
# The items of all sources

A `RawItem` is what one of the sources delivers, and `normalize` is what its source makes of
it.
-/

namespace OmniSync

/-- An item as a source delivers it. -/
inductive RawItem where
  | object (bucket : String) (o : S3Object)
  | email (raw : RawMessage)
  | issue (raw : Json)
  | commit (repoFullName : String) (commit : GitHubCommitData)
  | pullRequest (repoFullName : String) (pr : GitHubPRData)
  | message (message : TelegramMessage)

namespace RawItem

section Normalize

variable (lib : DatetimeLib) (rt : Runtime) (frames : Nat) (now : Time)

/-- What the source of an item makes of it, when the clock shows `now`. -/
def normalize (item : RawItem) (rawPayloadId : Option Uuid) :
    Except Exn (Option NormalizedEventCreate) :=
  match item with
  | object bucket o =>
      FileStoreConnector.normalize rt bucket now (FileStoreClient.entry lib o) rawPayloadId
  | email raw => .ok (IMAPConnector.normalize lib raw rawPayloadId)
  | issue raw => JiraConnector.normalize lib rt frames now raw rawPayloadId
  | commit repoFullName c => (parseCommitToEvent lib now c repoFullName rawPayloadId).map some
  | pullRequest repoFullName pr => (parsePrToEvent lib now pr repoFullName rawPayloadId).map some
  | message m => parseMessageToEvent rt now m rawPayloadId

end Normalize

end RawItem

section Made

variable {lib : DatetimeLib} {rt : Runtime} {frames : Nat} {now : Time}
variable {rawPayloadId : Option Uuid} {e : NormalizedEventCreate}

/-- The event of an object. -/
theorem object_made {bucket : String} {o : S3Object}
    (h : FileStoreConnector.normalize rt bucket now (FileStoreClient.entry lib o) rawPayloadId =
      .ok (some e)) :
    e.externalId = "filestore-" ++ bucket ++ "-" ++ o.key ∧ e.source = "filestore" ∧
      e.authorId = bucket ∧ e.authorName = bucket ∧ e.eventType = "file" ∧
        e.timestamp = o.lastModified ∧ e.naive = none := by
  have truthy : (Json.str o.key).truthy = true := by simp [Json.truthy, o.named]
  change (if (!(Json.str o.key).truthy) = true then _ else _) = _ at h
  rw [truthy] at h
  cases h
  exact ⟨rfl, rfl, rfl, rfl, rfl, rfl, rfl⟩

theorem object_normalized {bucket : String} {o : S3Object} : ∃ e,
    FileStoreConnector.normalize rt bucket now (FileStoreClient.entry lib o) rawPayloadId =
      .ok (some e) := by
  have truthy : (Json.str o.key).truthy = true := by simp [Json.truthy, o.named]
  change ∃ e, (if (!(Json.str o.key).truthy) = true then _ else _) = _
  rw [truthy]
  exact ⟨_, rfl⟩

/-- The event of an email. -/
theorem email_made {raw : RawMessage}
    (h : IMAPConnector.normalize lib raw rawPayloadId = some e) :
    e.externalId = buildExternalId raw ∧ e.source = "imap" ∧ e.authorId = raw.sender ∧
      e.authorName = raw.sender ∧ e.eventType = "email" ∧ e.timestamp = raw.date.instant lib ∧
        e.naive = raw.date.naive := by
  unfold IMAPConnector.normalize at h
  split at h
  · cases h
  · cases h
    exact ⟨rfl, rfl, rfl, rfl, rfl, rfl, rfl⟩

/-- The event of an issue. -/
theorem issue_made {raw : Json}
    (h : JiraConnector.normalize lib rt frames now raw rawPayloadId = .ok (some e)) :
    ∃ members key fields, raw = .obj members ∧ Json.member members "key" = some key ∧
      fields = (Json.member members "fields").getD (.obj []) ∧
        JiraConnector.issueEvent lib rt frames now key fields rawPayloadId = .ok e := by
  cases raw with
  | obj members =>
      rw [JiraConnector.normalize_obj] at h
      cases key : Json.member members "key" with
      | none =>
          rw [key] at h
          cases h
      | some value =>
          rw [key] at h
          split at h
          · cases h
          · refine ⟨members, value, _, rfl, key, rfl, ?_⟩
            cases made : JiraConnector.issueEvent lib rt frames now value
              ((Json.member members "fields").getD (.obj [])) rawPayloadId with
            | error _ =>
                rw [Option.getD_some, made] at h
                cases h
            | ok e =>
                rw [Option.getD_some, made] at h
                cases h
                rfl
  | _ => cases h

/-- The event of an item of GitHub. -/
theorem github_made {α : Type} {kind : α → GitHubItem} {parse : ItemParser α} {item : α}
    {repoFullName : String} (parses : Parses lib kind parse)
    (h : parse now item repoFullName rawPayloadId = .ok e) :
    ∃ timestamp, itemTimestamp lib (kind item).date now = .ok timestamp ∧
      e = (kind item).event lib rawPayloadId timestamp := by
  rw [parses] at h
  obtain ⟨timestamp, dated, ⟨⟩⟩ := bind_ok_iff.mp h
  exact ⟨timestamp, dated, rfl⟩

/-- The event of a message. -/
theorem message_made {message : TelegramMessage}
    (h : parseMessageToEvent rt now message rawPayloadId = .ok (some e)) :
    ∃ text timestamp, message.some? = some text ∧ messageTime rt message.date now = .ok timestamp ∧
      e = message.event text rawPayloadId timestamp := by
  cases content : message.some? with
  | none =>
      rw [parseMessageToEvent_none content] at h
      cases h
  | some text =>
      rw [parseMessageToEvent_some content] at h
      cases timed : messageTime rt message.date now with
      | error _ =>
          rw [timed] at h
          cases h
      | ok timestamp =>
          rw [timed] at h
          cases h
          exact ⟨text, timestamp, rfl, rfl, rfl⟩

end Made

end OmniSync
