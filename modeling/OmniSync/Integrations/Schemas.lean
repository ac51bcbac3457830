import OmniSync.Schema

/-!
# What the sources deliver

The pydantic models of the GitHub and Telegram payloads, with `modelDump`, and
the connector interface. `Runtime` collects the pure functions of libraries that
the code calls: validation, hashing, and the parsing and printing of timestamps.
`DatetimeLib` is for the datetimes that have a clock of their own.
-/

namespace OmniSync

namespace Json

def ofOption {α : Type} (f : α → Json) : Option α → Json
  | none => .null
  | some a => f a

/-- `dict.get`, on a value that may not be a dict. -/
def get? : Json → String → Except Exn (Option Json)
  | .obj fields, name => .ok ((fields.find? (fun f => f.1 = name)).map Prod.snd)
  | _, _ => .error ⟨"AttributeError", "object has no attribute 'get'"⟩

/-- Python truthiness. -/
def truthy : Json → Bool
  | .null => false
  | .bool b => b
  | .int n => n != 0
  | .float repr => repr != "0.0" && repr != "-0.0"
  | .str text => text != ""
  | .arr items => !items.isEmpty
  | .obj fields => !fields.isEmpty
  | .other _ _ => true

end Json

/-- One day, in the unit of `Time`. -/
def day : Int := 86400 * second

/-- `with contextlib.suppress(ValueError, TypeError)` suppresses the exception. -/
def suppressed (e : Exn) : Bool := e.kind = "ValueError" || e.kind = "TypeError"

/-- `text.replace("Z", "+00:00")`. -/
def replaceZ (text : String) : String :=
  String.ofList (text.toList.flatMap (fun c => if c = 'Z' then "+00:00".toList else [c]))

/-- The functions of the `datetime` library on datetimes with their own clock.
`localInstant` reads a naive datetime in the time zone of the system. -/
structure DatetimeLib where
  isoformat : Datetime → String
  fromisoformat : String → Except Exn Datetime
  str : Datetime → String
  localInstant : Int → Time

namespace Datetime

/-- `datetime.now(UTC)`, when the clock shows `now`. -/
def utc (now : Time) : Datetime := ⟨now, some 0⟩

/-- The instant that a datetime denotes. -/
def instant (lib : DatetimeLib) (d : Datetime) : Time :=
  match d.offset with
  | some offset => d.wall - offset
  | none => lib.localInstant d.wall

/-- The clock of a datetime without an offset. -/
def naive (d : Datetime) : Option Int :=
  match d.offset with
  | some _ => none
  | none => some d.wall

/-- The number of its calendar date. -/
def date (d : Datetime) : Int := d.wall / day

/-- `d > e`. Only two naive or two aware datetimes can be ordered. -/
def gt (d e : Datetime) : Except Exn Bool :=
  match d.offset, e.offset with
  | some offset, some offset' => .ok (decide (e.wall - offset' < d.wall - offset))
  | none, none => .ok (decide (e.wall < d.wall))
  | _, _ => .error ⟨"TypeError", "can't compare offset-naive and offset-aware datetimes"⟩

end Datetime

/-- What a date text is parsed to. A malformed one is `now`. -/
def parsedDate (lib : DatetimeLib) (text : String) (now : Time) : Except Exn Datetime :=
  match lib.fromisoformat (replaceZ text) with
  | .ok d => .ok d
  | .error e => if suppressed e then .ok (.utc now) else .error e

structure GitHubCommitAuthor where
  name : Option String := none
  email : Option String := none
  date : Option String := none
  deriving DecidableEq, Repr

structure GitHubCommit where
  id : String
  message : String
  author : Option GitHubCommitAuthor := none
  url : Option String := none
  deriving DecidableEq, Repr

structure GitHubCommitData where
  sha : String
  commit : GitHubCommit
  htmlUrl : Option String := none
  author : Option Json := none

structure GitHubPRUser where
  login : String
  id : Int
  htmlUrl : Option String := none
  deriving DecidableEq, Repr

structure GitHubPRData where
  id : Int
  number : Int
  title : String
  body : Option String := none
  state : String
  user : Option GitHubPRUser := none
  htmlUrl : Option String := none
  createdAt : Option String := none
  updatedAt : Option String := none
  mergedAt : Option String := none
  deriving DecidableEq, Repr

structure GitHubWebhookPayload where
  ref : Option String := none
  commits : Option (List GitHubCommitData) := none
  pullRequest : Option GitHubPRData := none
  action : Option String := none
  repository : Option Json := none
  sender : Option Json := none

structure TelegramUser where
  id : Int
  isBot : Option Bool := none
  firstName : Option String := none
  lastName : Option String := none
  username : Option String := none
  deriving DecidableEq, Repr

structure TelegramChat where
  id : Int
  type : Option String := none
  title : Option String := none
  deriving DecidableEq, Repr

structure TelegramMessage where
  messageId : Int
  fromUser : Option TelegramUser := none
  chat : Option TelegramChat := none
  date : Option Int := none
  text : Option String := none
  deriving DecidableEq, Repr

structure TelegramUpdate where
  updateId : Int
  message : Option TelegramMessage := none
  deriving DecidableEq, Repr

/-- The dictionary that `_parse_message` makes of an email. -/
structure RawMessage where
  uid : String
  uidvalidity : Option String
  messageId : String
  host : String
  subject : String
  sender : String
  date : Datetime
  body : String
  folder : String
  deriving DecidableEq, Repr

section ModelDump

def GitHubCommitAuthor.modelDump (a : GitHubCommitAuthor) : Json :=
  .obj [("name", Json.ofOption .str a.name), ("email", Json.ofOption .str a.email),
    ("date", Json.ofOption .str a.date)]

def GitHubCommit.modelDump (c : GitHubCommit) : Json :=
  .obj [("id", .str c.id), ("message", .str c.message),
    ("author", Json.ofOption GitHubCommitAuthor.modelDump c.author),
    ("url", Json.ofOption .str c.url)]

def GitHubCommitData.modelDump (c : GitHubCommitData) : Json :=
  .obj [("sha", .str c.sha), ("commit", c.commit.modelDump),
    ("html_url", Json.ofOption .str c.htmlUrl), ("author", Json.ofOption id c.author)]

def GitHubPRUser.modelDump (u : GitHubPRUser) : Json :=
  .obj [("login", .str u.login), ("id", .int u.id), ("html_url", Json.ofOption .str u.htmlUrl)]

def GitHubPRData.modelDump (p : GitHubPRData) : Json :=
  .obj [("id", .int p.id), ("number", .int p.number), ("title", .str p.title),
    ("body", Json.ofOption .str p.body), ("state", .str p.state),
    ("user", Json.ofOption GitHubPRUser.modelDump p.user),
    ("html_url", Json.ofOption .str p.htmlUrl), ("created_at", Json.ofOption .str p.createdAt),
    ("updated_at", Json.ofOption .str p.updatedAt), ("merged_at", Json.ofOption .str p.mergedAt)]

def GitHubWebhookPayload.modelDump (p : GitHubWebhookPayload) : Json :=
  .obj [("ref", Json.ofOption .str p.ref),
    ("commits", Json.ofOption (fun cs => .arr (cs.map GitHubCommitData.modelDump)) p.commits),
    ("pull_request", Json.ofOption GitHubPRData.modelDump p.pullRequest),
    ("action", Json.ofOption .str p.action), ("repository", Json.ofOption id p.repository),
    ("sender", Json.ofOption id p.sender)]

def TelegramUser.modelDump (u : TelegramUser) : Json :=
  .obj [("id", .int u.id), ("is_bot", Json.ofOption .bool u.isBot),
    ("first_name", Json.ofOption .str u.firstName), ("last_name", Json.ofOption .str u.lastName),
    ("username", Json.ofOption .str u.username)]

def TelegramChat.modelDump (c : TelegramChat) : Json :=
  .obj [("id", .int c.id), ("type", Json.ofOption .str c.type),
    ("title", Json.ofOption .str c.title)]

def TelegramMessage.modelDump (m : TelegramMessage) : Json :=
  .obj [("message_id", .int m.messageId),
    ("from_user", Json.ofOption TelegramUser.modelDump m.fromUser),
    ("chat", Json.ofOption TelegramChat.modelDump m.chat),
    ("date", Json.ofOption .int m.date), ("text", Json.ofOption .str m.text)]

def TelegramUpdate.modelDump (u : TelegramUpdate) : Json :=
  .obj [("update_id", .int u.updateId),
    ("message", Json.ofOption TelegramMessage.modelDump u.message)]

end ModelDump

/-- A connector: its source, and how it normalizes an item that it fetched. An
item that carries no event is skipped. -/
structure Connector where
  source : String
  normalize : Json → Option Uuid → Except Exn (Option NormalizedEventCreate)

/-- The library functions that the code calls. `canonicalHash` is the SHA-256 of
the canonical JSON, `encodedSize` the length of the JSON text, and
`jsonSafe` the value after a round trip through JSON text. `getConnector` is the
registry: the construction of a connector may fail. -/
structure Runtime where
  fromisoformat : String → Except Exn Time
  isoformat : Time → String
  fromtimestamp : Int → Except Exn Time
  str : Json → String
  canonicalHash : Json → String
  jsonSafe : Json → Json
  encodedSize : Json → Nat
  validateWebhook : String → Except Exn GitHubWebhookPayload
  validateUpdate : Json → Except Exn TelegramUpdate
  getConnector : String → Except Exn Connector

/-- A value in an f-string. -/
def formatted (rt : Runtime) : Json → String
  | .str text => text
  | .int n => toString n
  | value => rt.str value

end OmniSync
