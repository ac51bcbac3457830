import OmniSync.Data.Code
import OmniSync.Events.Service
import OmniSync.RawPayloads.Service
import OmniSync.SyncLogs.Service
import OmniSync.SyncState.Service

/-!
# Telegram

The client, which drops the updates that do not validate, and how a message is normalized.
-/

namespace OmniSync

open Txn

namespace TelegramClient

/-- The updates among the items of a response. -/
def validated (rt : Runtime) (result : List Json) : List TelegramUpdate :=
  result.filterMap (fun item => (rt.validateUpdate item).toOption)

def getUpdates (rt : Runtime) (offset : Option Int) : Tx (List TelegramUpdate) := do
  let result ← Db.getUpdates offset
  return validated rt result

end TelegramClient

/-- The name of a sender: the first and the last name, or else the username, or else the id. -/
def TelegramUser.displayName (user : TelegramUser) : String :=
  let nameParts := [user.firstName, user.lastName].filterMap
    (fun part => part.filter (fun text => decide (text ≠ "")))
  if nameParts.isEmpty then
    match user.username with
    | some username => if username = "" then toString user.id else username
    | none => toString user.id
  else " ".intercalate nameParts

/-- What precedes the text of a message. -/
def chatTitle : Option TelegramChat → String
  | none => ""
  | some chat =>
      match chat.title with
      | some title =>
          if title = "" then "[chat:" ++ toString chat.id ++ "] " else "[" ++ title ++ "] "
      | none => "[chat:" ++ toString chat.id ++ "] "

/-- The time of a message. A missing or unusable one is `now`. -/
def messageTime (rt : Runtime) (date : Option Int) (now : Time) : Except Exn Time :=
  match date with
  | none => .ok now
  | some date =>
      if date = 0 then .ok now
      else match rt.fromtimestamp date with
        | .ok t => .ok t
        | .error e => if suppressed e then .ok now else .error e

def parseMessageToEvent (rt : Runtime) (now : Time) (message : TelegramMessage)
    (rawPayloadId : Option Uuid) : Except Exn (Option NormalizedEventCreate) :=
  match message.text with
  | none => return none
  | some text =>
      if text = "" then return none
      else do
        let timestamp ← messageTime rt message.date now
        return some {
          externalId := toString message.messageId
          source := "telegram"
          authorId := (message.fromUser.map (fun user => toString user.id)).getD ""
          authorName := (message.fromUser.map TelegramUser.displayName).getD ""
          content := chatTitle message.chat ++ text
          eventType := "message"
          timestamp := timestamp
          rawPayloadId := rawPayloadId }

end OmniSync
