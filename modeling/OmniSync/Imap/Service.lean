import OmniSync.Integrations.Schemas

/-!
# The IMAP client

Messages are searched and fetched by their sequence numbers, their positions in the folder. A
server holds emails of some type: as bytes, which the client has to parse, or as letters, which
have been parsed. `fetchLetters` is what the client returns of a mailbox whose letters can all be
read. Datetimes come from the `Date` header, so they have the offset of the sender or are naive.
-/

namespace OmniSync

/-- What an email says, once its headers and its text are decoded. `date` is its `Date` header,
if that can be read. -/
structure Letter where
  messageId : String
  subject : String
  sender : String
  date : Option Datetime
  body : String
  deriving DecidableEq, Repr

/-- An email in a folder. The server never uses a `uid` twice. `arrival` is the calendar date of
its arrival. -/
structure Filed (α : Type) where
  uid : Nat
  arrival : Int
  email : α
  deriving DecidableEq, Repr

abbrev Mail := Filed Letter

/-- The server during one call: the messages of the folder in ascending order, the numbers of
those that it does not deliver, and the clock of the client when it parses a message. -/
structure MailServer (α : Type) where
  host : String
  uidvalidity : Option String
  messages : List (Filed α)
  refuses : Nat → Bool
  now : Nat → Datetime

/-- The first characters of a string. -/
def truncated (n : Nat) (text : String) : String := String.ofList (text.toList.take n)

namespace IMAPClient

section Mailbox

variable {α : Type}

/-- The message has arrived on the date of `since` or later. -/
def sought (since : Option Datetime) (m : Filed α) : Bool :=
  match since with
  | none => true
  | some since => decide (since.date ≤ m.arrival)

/-- `SEARCH ALL`, or `SEARCH (SINCE date)`: the sequence numbers of what is found. -/
def search (server : MailServer α) (since : Option Datetime) : List Nat :=
  (List.range' 1 server.messages.length).filter
    (fun msgId => (server.messages[msgId - 1]?).any (sought since))

/-- `FETCH` of a sequence number. -/
def fetch (server : MailServer α) (msgId : Nat) : Option (Filed α) :=
  if server.refuses msgId then none else server.messages[msgId - 1]?

/-- The dictionary that is made of a letter. -/
def messageOf (server : MailServer α) (folder : String) (msgId : Nat) (letter : Letter) :
    RawMessage where
  uid := toString msgId
  uidvalidity := server.uidvalidity
  messageId := letter.messageId
  host := server.host
  subject := letter.subject
  sender := letter.sender
  date := letter.date.getD (server.now msgId)
  body := truncated 5000 letter.body
  folder := folder

/-- `msg_ids[-limit:]`, unless the limit is zero. -/
def lastOf {α : Type} (limit : Nat) (msgIds : List α) : List α :=
  if limit = 0 then msgIds else msgIds.drop (msgIds.length - limit)

end Mailbox

/-- The messages of a mailbox of letters. -/
def fetchLetters (server : MailServer Letter) (folder : String) (since : Option Datetime)
    (limit : Nat := 100) : List RawMessage :=
  (lastOf limit (search server since)).filterMap
    (fun msgId => (fetch server msgId).map (fun m => messageOf server folder msgId m.email))

end IMAPClient

/-- The dictionary as it is serialized. -/
def RawMessage.modelDump (lib : DatetimeLib) (raw : RawMessage) : Json :=
  .obj [("uid", .str raw.uid), ("uidvalidity", Json.ofOption .str raw.uidvalidity),
    ("message_id", .str raw.messageId), ("host", .str raw.host), ("subject", .str raw.subject),
    ("sender", .str raw.sender), ("date", .str (lib.str raw.date)), ("body", .str raw.body),
    ("folder", .str raw.folder)]

/-- Stable identity for an email. -/
def buildExternalId (raw : RawMessage) : String :=
  if raw.messageId ≠ "" then "imap-mid-" ++ raw.messageId
  else
    let uidvalidity := match raw.uidvalidity with
      | some value => if value = "" then "0" else value
      | none => "0"
    "imap-" ++ raw.host ++ "-" ++ raw.folder ++ "-" ++ uidvalidity ++ "-" ++ raw.uid

namespace IMAPConnector

/-- The construction of the connector checks its configuration. -/
def new (host username password : String) : Except Exn Unit :=
  if host = "" then .error ⟨"ValueError", "IMAP host must be configured (IMAP_HOST)"⟩
  else if username = "" ∨ password = "" then
    .error ⟨"ValueError", "IMAP username and password must be configured"⟩
  else .ok ()

def normalize (lib : DatetimeLib) (raw : RawMessage) (rawPayloadId : Option Uuid) :
    Option NormalizedEventCreate :=
  if raw.subject = "" ∧ raw.body = "" then none
  else some
    { externalId := buildExternalId raw
      source := "imap"
      authorId := raw.sender
      authorName := raw.sender
      content := "Subject: " ++ raw.subject ++ "\n\n" ++ truncated 2000 raw.body
      eventType := "email"
      timestamp := raw.date.instant lib
      rawPayloadId := rawPayloadId
      naive := raw.date.naive }

end IMAPConnector

end OmniSync
