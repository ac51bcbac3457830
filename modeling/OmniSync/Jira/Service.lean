import OmniSync.Data.Table
import OmniSync.Integrations.Schemas

/-!
# The Jira client

A search is a loop of requests for pages by offset. The server keeps its issues in the order
of their last update.
-/

namespace OmniSync

/-- An issue, with what a search filters and orders by. -/
structure JiraIssue where
  key : String
  project : String
  updated : Time
  fields : List (String × Json) := []

/-- The clauses of a search. `updatedFrom` is the wall-clock reading of the minute that the
text of the clause shows, for the timezone of the instance to interpret. -/
structure Jql where
  project : Option String
  updatedFrom : Option Int

/-- The part of a response that the client reads. -/
structure SearchPage where
  issues : List JiraIssue := []
  total : Nat := 0

/-- The locals of the loop of `search_issues`. -/
structure JiraSearch where
  issues : List JiraIssue := []
  startAt : Nat := 0
  finished : Bool := false

namespace JiraClient

def minute : Int := 60 * second

def jql (project : String) (since : Option Datetime) : Jql where
  project := if project = "" then none else some project
  updatedFrom := since.map (fun d => d.wall / minute * minute)

/-- What the loop does with the response to one request. -/
def searchIssues (s : JiraSearch) (data : SearchPage) : JiraSearch :=
  let batch := data.issues
  let startAt := s.startAt + batch.length
  { issues := s.issues ++ batch
    startAt := startAt
    finished := batch.isEmpty || decide (data.total ≤ startAt) }

/-- The loop of a search: `respond k startAt` is the response to the `k`-th request, which asks
for the issues from `startAt` on. The number of requests is bounded by the first argument. -/
def searchLoop (respond : Nat → Nat → SearchPage) : Nat → Nat → JiraSearch →
    Option (List JiraIssue)
  | 0, _, _ => none
  | fuel + 1, k, s =>
      let s := searchIssues s (respond k s.startAt)
      if s.finished then some s.issues else searchLoop respond fuel (k + 1) s

end JiraClient

/-- The page of a list that does not change: at most `cap` issues from `startAt` on. -/
def pageFrom (issues : List JiraIssue) (startAt cap : Nat) : SearchPage where
  issues := (issues.drop startAt).take cap
  total := issues.length

/-- The issues of an instance, ordered by their last update. -/
structure JiraServer where
  issues : Table JiraIssue.key
  ordered : issues.rows.Pairwise (fun a b => a.updated ≤ b.updated)
  zone : Int := 0

namespace JiraServer

def accepts (server : JiraServer) (jql : Jql) (issue : JiraIssue) : Bool :=
  jql.project.all (fun project => decide (issue.project = project)) &&
    jql.updatedFrom.all (fun wall => decide (wall - server.zone ≤ issue.updated))

/-- The issues that match, `ORDER BY updated ASC`. -/
def matching (server : JiraServer) (jql : Jql) : List JiraIssue :=
  server.issues.rows.filter (server.accepts jql)

/-- At most `maxResults` issues from `startAt` on. -/
def search (server : JiraServer) (jql : Jql) (startAt maxResults : Nat) : SearchPage where
  issues := ((server.matching jql).drop startAt).take maxResults
  total := (server.matching jql).length

theorem rows_update (issues : Table JiraIssue.key) (issue : JiraIssue) :
    ((issues.filter (fun other => decide (other.key ≠ issue.key))).add issue).rows =
      issues.rows.filter (fun other => decide (other.key ≠ issue.key)) ++ [issue] := by
  refine Table.rows_add_of_absent (Table.find_eq_none_iff.mpr fun other there => ?_)
  exact of_decide_eq_true (Table.mem_filter.mp there).2

/-- An issue is updated, or created, at a time that no earlier update exceeds. Its new state
comes last. -/
def update (server : JiraServer) (issue : JiraIssue)
    (latest : ∀ other ∈ server.issues, other.updated ≤ issue.updated) : JiraServer where
  issues := (server.issues.filter (fun other => decide (other.key ≠ issue.key))).add issue
  ordered := by
    rw [rows_update, List.pairwise_append]
    refine ⟨server.ordered.filter _, List.pairwise_singleton _ _, ?_⟩
    intro other there last hlast
    rw [List.mem_singleton.mp hlast]
    exact latest other (List.mem_of_mem_filter there)
  zone := server.zone

end JiraServer

end OmniSync
