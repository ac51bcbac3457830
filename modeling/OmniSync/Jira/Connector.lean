import OmniSync.Integrations.Schemas

/-!
# How an issue is normalized

The description is a tree of nodes in the Atlassian Document Format. `walk` collects its
texts, and calls itself for each level of the tree, for which Python has a limit.
-/

namespace OmniSync

namespace Json

/-- The value of a key of a dictionary. -/
def member (fields : List (String × Json)) (name : String) : Option Json :=
  (fields.find? (fun f => f.1 = name)).map Prod.snd

/-- `value.get(name, default)`. -/
def getOr (value : Json) (name : String) (default : Json) : Except Exn Json := do
  return (← value.get? name).getD default

/-- `a or b`. -/
def or (a b : Json) : Json := if a.truthy then a else b

/-- What a loop over the value visits. -/
def iterate : Json → Except Exn (List Json)
  | .arr items => .ok items
  | .obj fields => .ok (fields.map (fun f => .str f.1))
  | .str text => .ok (text.toList.map (fun c => .str (String.singleton c)))
  | _ => .error ⟨"TypeError", "object is not iterable"⟩

/-- The text, where an element of `str.join` is expected. -/
def joinable : Json → Except Exn String
  | .str text => .ok text
  | _ => .error ⟨"TypeError", "expected str instance"⟩

/-- A field of a model that is a string. -/
def stringField (name : String) : Json → Except Exn String
  | .str text => .ok text
  | _ => .error ⟨"ValidationError", name ++ ": Input should be a valid string"⟩

end Json

namespace JiraConnector

/-- What a node itself adds to the parts. -/
def ownText (fields : List (String × Json)) : Option Json :=
  match Json.member fields "type" with
  | some (.str type) => if type = "text" then Json.member fields "text" else none
  | _ => none

/-- The parts after a visit of a node, with `frames` nested calls left. -/
def walk : Nat → List Json → Json → Except Exn (List Json)
  | 0, _, _ => .error ⟨"RecursionError", "maximum recursion depth exceeded"⟩
  | frames + 1, parts, .obj fields => do
      let children ← ((Json.member fields "content").getD (.arr [])).iterate
      children.foldlM (walk frames) (parts ++ (ownText fields).toList)
  | frames + 1, parts, .arr children => children.foldlM (walk frames) parts
  | _ + 1, parts, _ => .ok parts

def extractText (frames : Nat) (description : Option Json) : Except Exn String :=
  match description with
  | some (.str text) => .ok text
  | some (.obj fields) => do
      let parts ← walk frames [] (.obj fields)
      return " ".intercalate (← parts.mapM Json.joinable)
  | _ => .ok ""

/-- The timestamp of an issue. A missing or malformed one is `now`. -/
def updatedAt (lib : DatetimeLib) (now : Time) (updated : Option Json) : Except Exn Datetime :=
  match updated with
  | none => .ok (.utc now)
  | some updated =>
      if !updated.truthy then .ok (.utc now)
      else match updated with
        | .str text => parsedDate lib text now
        | _ => .error ⟨"AttributeError", "object has no attribute 'replace'"⟩

/-- The id and the name of the reporter. -/
def authorOf (reporter : Json) : Except Exn (Json × Json) := do
  let authorId := (← reporter.getOr "accountId" (.str "")).or
    (← reporter.getOr "emailAddress" (.str ""))
  let authorName := (← reporter.getOr "displayName" (.str "")).or authorId
  return (authorId, authorName)

/-- The event of an issue with these fields. -/
def issueEvent (lib : DatetimeLib) (rt : Runtime) (frames : Nat) (now : Time) (key fields : Json)
    (rawPayloadId : Option Uuid) : Except Exn NormalizedEventCreate := do
  let summary ← fields.getOr "summary" (.str "")
  let description ← extractText frames (← fields.get? "description")
  let status ← ((← fields.getOr "status" .null).or (.obj [])).getOr "name" (.str "")
  let author ← authorOf ((← fields.getOr "reporter" .null).or (.obj []))
  let timestamp ← updatedAt lib now (← fields.get? "updated")
  let content := "[" ++ formatted rt status ++ "] " ++ formatted rt key ++ ": " ++
    formatted rt summary
  return {
    externalId := "jira-" ++ formatted rt key
    source := "jira"
    authorId := ← Json.stringField "author_id" author.1
    authorName := ← Json.stringField "author_name" author.2
    content := if description = "" then content else content ++ "\n\n" ++ description
    eventType := "issue"
    timestamp := timestamp.instant lib
    rawPayloadId := rawPayloadId
    naive := timestamp.naive }

def normalize (lib : DatetimeLib) (rt : Runtime) (frames : Nat) (now : Time) (raw : Json)
    (rawPayloadId : Option Uuid) : Except Exn (Option NormalizedEventCreate) := do
  let key := (← raw.get? "key").getD .null
  if !key.truthy then
    return none
  else
    let fields ← raw.getOr "fields" (.obj [])
    return some (← issueEvent lib rt frames now key fields rawPayloadId)

/-- The connector, whose clock shows `now`. -/
def connector (lib : DatetimeLib) (rt : Runtime) (frames : Nat) (now : Time) : Connector where
  source := "jira"
  normalize := normalize lib rt frames now

end JiraConnector

end OmniSync
