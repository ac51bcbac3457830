import OmniSync.Data.Retry
import OmniSync.Github.Tasks
import OmniSync.Telegram.Tasks

/-!
# The HTTP calls of the clients

What the clients of GitHub and Telegram make of a response, and how often they ask. Both
clients repeat a call that fails, whatever the failure is. Once the attempts are used up the
call raises a `RetryError`, with the error of the last attempt inside it.
-/

namespace OmniSync

open Txn

/-- A response. `json` is what its body decodes to. -/
structure HttpResponse where
  statusCode : Nat
  header : String → Option String := fun _ => none
  text : String := ""
  json : Except Exn Json

/-- What the clients use of their libraries: `int` and `str`, the models of the items, and how
a `RetryError` prints. -/
structure ClientLib where
  int : String → Except Exn Int
  str : Json → String
  validateCommit : Json → Except Exn GitHubCommitData
  validatePr : Json → Except Exn GitHubPRData
  printRetryError : Exn → String

def RETRY_ATTEMPTS : Nat := 3

def RATE_LIMIT_BUFFER : Int := 10

/-- The error that the decorator of a client raises in the end. -/
def retryError (client : ClientLib) (lastAttempt : Exn) : Exn :=
  ⟨"RetryError", client.printRetryError lastAttempt⟩

/-- An `ExternalAPIError` of some class. -/
def externalApiError (kind detail : String) : Exn := ⟨kind, "502: " ++ detail⟩

/-- `f"HTTP {response.status_code}: {response.text[:200]}"`. -/
def HttpResponse.complaint (response : HttpResponse) : String :=
  "HTTP " ++ toString response.statusCode ++ ": " ++ slice response.text 200

namespace Json

/-- `type(value).__name__`. -/
def typeName : Json → String
  | .null => "NoneType"
  | .bool _ => "bool"
  | .int _ => "int"
  | .float _ => "float"
  | .str _ => "str"
  | .arr _ => "list"
  | .obj _ => "dict"
  | .other _ _ => "object"

/-- What a loop over a value visits. `complaint` is the error of a value that has no items. -/
def elements (complaint : String → String) : Json → Except Exn (List Json)
  | .arr items => .ok items
  | .obj fields => .ok (fields.map (fun field => .str field.1))
  | .str text => .ok (text.toList.map (fun c => .str (String.singleton c)))
  | value => .error ⟨"TypeError", complaint value.typeName⟩

end Json

def noLength (typeName : String) : String := "object of type '" ++ typeName ++ "' has no len()"

def notIterable (typeName : String) : String := "'" ++ typeName ++ "' object is not iterable"

namespace GitHubClient

/-- The rate limit is read from the headers. The client sleeps when it is low. -/
def checkRateLimit (client : ClientLib) (response : HttpResponse) : Except Exn Unit :=
  match response.header "x-ratelimit-remaining" with
  | none => .ok ()
  | some remaining =>
      if remaining = "" then .ok ()
      else do
        if (← client.int remaining) < RATE_LIMIT_BUFFER then
          match response.header "x-ratelimit-reset" with
          | none => return ()
          | some resetTime =>
              let _ ← client.int resetTime
              return ()

/-- One attempt of `_request`. -/
def attempt (client : ClientLib) (http : Except Exn HttpResponse) : Except Exn Json := do
  let response ← http
  checkRateLimit client response
  if response.statusCode = 403 then
    throw (externalApiError "GitHubRateLimitError" "GitHub rate limit exceeded")
  if 400 ≤ response.statusCode then
    throw (externalApiError "GitHubAPIError" response.complaint)
  response.json

def request (client : ClientLib) (http : Nat → Except Exn HttpResponse) : Except Exn Json :=
  Retry.exhaust (retryError client) (fun j => attempt client (http j)) RETRY_ATTEMPTS

/-- The pull requests of a page before the first one that is older than `since`. -/
def trimPage (since : String) : List Json → Except Exn (List Json)
  | [] => .ok []
  | pr :: data => do
      let updatedAt ← pr.get? "updated_at"
      let createdAt ← pr.get? "created_at"
      let kept := (fun data => pr :: data) <$> trimPage since data
      match (updatedAt.filter Json.truthy).or (createdAt.filter Json.truthy) with
      | none => kept
      | some (.str updated) => if updated < since then return [] else kept
      | some value =>
          throw ⟨"TypeError", "'<' not supported between instances of '" ++ value.typeName ++
            "' and 'str'"⟩

/-- The items of a page of pull requests. -/
def pageOf (since : Option String) (data : Json) : Except Exn (List Json) :=
  match since with
  | none => data.elements noLength
  | some since =>
      if since = "" then data.elements noLength
      else data.elements notIterable >>= trimPage since

/-- `get_commits`, given the outcomes of its HTTP calls. -/
def commitsOver (client : ClientLib) (http : Nat → Except Exn HttpResponse)
    (_owner _repo : String) (_since : Option String) : Tx (List GitHubCommitData) :=
  Prog.ofAnswer (do
    let data ← request client http
    let items ← data.elements noLength
    items.mapM client.validateCommit)

/-- `get_pull_requests`, given the outcomes of its HTTP calls. -/
def pullRequestsOver (client : ClientLib) (http : Nat → Except Exn HttpResponse)
    (_owner _repo : String) (since : Option String) : Tx (List GitHubPRData) :=
  Prog.ofAnswer (do
    let data ← request client http
    let items ← pageOf since data
    items.mapM client.validatePr)

end GitHubClient

namespace TelegramClient

/-- One attempt of `get_updates`. -/
def attempt (client : ClientLib) (rt : Runtime) (http : Except Exn HttpResponse) :
    Except Exn (List TelegramUpdate) := do
  let response ← http
  if response.statusCode ≠ 200 then
    throw (externalApiError "TelegramAPIError" response.complaint)
  let data ← response.json
  let ok ← data.get? "ok"
  if !ok.any Json.truthy then
    let description ← data.get? "description"
    throw (externalApiError "TelegramAPIError"
      ("API error: " ++ (description.map client.str).getD "Unknown"))
  let result ← data.get? "result"
  let items ← (result.getD (.arr [])).elements notIterable
  return validated rt items

/-- `get_updates`, given the outcomes of its HTTP calls. -/
def updatesOver (client : ClientLib) (rt : Runtime) (http : Nat → Except Exn HttpResponse)
    (_offset : Option Int) : Tx (List TelegramUpdate) :=
  Prog.ofAnswer
    (Retry.exhaust (retryError client) (fun j => attempt client rt (http j)) RETRY_ATTEMPTS)

end TelegramClient

section Failure

variable {client : ClientLib} {http : Nat → Except Exn HttpResponse} {failure : Nat → Exn}

/-- A call whose attempts all fail raises a `RetryError`. -/
theorem GitHubClient.request_of_failed
    (failed : ∀ j < RETRY_ATTEMPTS, http j = .error (failure j)) :
    GitHubClient.request client http = .error (retryError client (failure 2)) := by
  refine Retry.exhaust_of_failed (fun j hj => ?_) (Nat.succ_pos 2)
  rw [failed j hj]
  rfl

theorem TelegramClient.updatesOver_of_failed {rt : Runtime}
    (failed : ∀ j < RETRY_ATTEMPTS, http j = .error (failure j)) (offset : Option Int) :
    TelegramClient.updatesOver client rt http offset =
      Prog.raise (retryError client (failure 2)) := by
  have exhausted : Retry.exhaust (retryError client) (fun j => TelegramClient.attempt client rt (http j))
      RETRY_ATTEMPTS = .error (retryError client (failure 2)) := by
    refine Retry.exhaust_of_failed (fun j hj => ?_) (Nat.succ_pos 2)
    rw [failed j hj]
    rfl
  unfold TelegramClient.updatesOver
  rw [exhausted]
  rfl

end Failure

end OmniSync
