import OmniSync.Data.Trace
import OmniSync.Jira.Service

/-!
# Paging over a list that updates reorder

An update moves an issue to the end of the list, and all that came after it one place to the
front. An issue that has not been returned is then overlooked if it comes to stand before the
offset of the next request and stays there.
-/

namespace OmniSync

section Unchanged

variable {issues : List JiraIssue} {cap : Nat → Nat} {s : JiraSearch}

/-- A search over a list that does not change has returned the issues before its offset. -/
structure SoFar (issues : List JiraIssue) (s : JiraSearch) : Prop where
  returned : s.issues = issues.take s.startAt
  bound : s.startAt ≤ issues.length

theorem pageFrom_length {startAt k : Nat} :
    (pageFrom issues startAt k).issues.length = min k (issues.length - startAt) := by
  simp only [pageFrom, List.length_take, List.length_drop]

theorem SoFar.next (h : SoFar issues s) (k : Nat) :
    SoFar issues (JiraClient.searchIssues s (pageFrom issues s.startAt k)) where
  returned := by
    change s.issues ++ (pageFrom issues s.startAt k).issues =
      issues.take (s.startAt + (pageFrom issues s.startAt k).issues.length)
    rw [h.returned, List.take_add, pageFrom_length, ← List.length_drop]
    exact congrArg (fun page => issues.take s.startAt ++ page) (List.take_eq_take_min ..)
  bound := by
    change s.startAt + (pageFrom issues s.startAt k).issues.length ≤ issues.length
    rw [pageFrom_length]
    have := h.bound
    omega

/-- A request ends the search if and only if it reaches the end of the list. -/
theorem finished_iff {k : Nat} (positive : 0 < k) :
    (JiraClient.searchIssues s (pageFrom issues s.startAt k)).finished = true ↔
      issues.length ≤
        (JiraClient.searchIssues s (pageFrom issues s.startAt k)).startAt := by
  have batch : (pageFrom issues s.startAt k).issues.isEmpty = true ↔
      min k (issues.length - s.startAt) = 0 := by
    rw [← pageFrom_length, List.isEmpty_iff, List.length_eq_zero_iff]
  simp only [JiraClient.searchIssues, Bool.or_eq_true, batch, decide_eq_true_eq, pageFrom_length]
  change _ ∨ issues.length ≤ _ ↔ _
  omega

theorem SoFar.searchLoop (h : SoFar issues s) (positive : ∀ k, 0 < cap k) {fuel k : Nat}
    (enough : issues.length - s.startAt < fuel) :
    JiraClient.searchLoop (fun k startAt => pageFrom issues startAt (cap k)) fuel k s =
      some issues := by
  induction fuel generalizing k s with
  | zero => exact (Nat.not_lt_zero _ enough).elim
  | succ fuel ih =>
      have next := h.next (cap k)
      unfold JiraClient.searchLoop
      dsimp only
      split
      · rename_i finished
        rw [next.returned, List.take_of_length_le ((finished_iff (positive k)).mp finished)]
      · rename_i unfinished
        refine ih next ?_
        have progress : (JiraClient.searchIssues s (pageFrom issues s.startAt (cap k))).startAt =
            s.startAt + min (cap k) (issues.length - s.startAt) :=
          congrArg (fun n => s.startAt + n) pageFrom_length
        rw [finished_iff (positive k)] at unfinished
        have := positive k
        omega

/-- A search over a list that does not change ends, and returns that list, whatever page sizes
the server chooses. -/
theorem searchLoop_exact (positive : ∀ k, 0 < cap k) {fuel : Nat} (enough : issues.length < fuel) :
    JiraClient.searchLoop (fun k startAt => pageFrom issues startAt (cap k)) fuel 0 {} =
      some issues :=
  SoFar.searchLoop ⟨rfl, Nat.zero_le _⟩ positive enough

theorem searchLoop_exact_two :
    JiraClient.searchLoop (fun k startAt =>
      pageFrom [⟨"A-1", "ENG", 1, []⟩, ⟨"A-2", "ENG", 2, []⟩] startAt (k + 1)) 3 0 {} =
        some [⟨"A-1", "ENG", 1, []⟩, ⟨"A-2", "ENG", 2, []⟩] :=
  searchLoop_exact (fun k => Nat.succ_pos k) (by decide)

end Unchanged

/-- A search in progress. -/
structure JiraCall where
  server : JiraServer
  search : JiraSearch := {}

/-- What happens during a search. `cap` is the size to which the server limits the page. -/
inductive JiraEvent where
  | update (issue : JiraIssue)
  | request (cap : Nat)

namespace JiraCall

/-- One step, while the search is not finished. -/
def Steps (jql : Jql) (pageSize : Nat) (c : JiraCall) (event : JiraEvent) (d : JiraCall) : Prop :=
  c.search.finished = false ∧
    match event with
    | .update issue => ∃ latest, d = { c with server := c.server.update issue latest }
    | .request cap => 0 < cap ∧ d = { c with
        search := JiraClient.searchIssues c.search
          (c.server.search jql c.search.startAt (min pageSize cap)) }

/-- The issue has been returned, in some state. -/
def Returned (c : JiraCall) (key : String) : Prop := ∃ issue ∈ c.search.issues, issue.key = key

/-- The issue matches, and stands at or after the offset of the next request. -/
def Ahead (jql : Jql) (c : JiraCall) (key : String) : Prop :=
  ∃ issue ∈ (c.server.matching jql).drop c.search.startAt, issue.key = key

variable {jql : Jql} {pageSize cap : Nat} {c d : JiraCall} {event : JiraEvent} {key : String}
variable {issue : JiraIssue}

/-- A request returns what is ahead, or leaves it ahead. -/
theorem Steps.returned_or_ahead (taken : c.Steps jql pageSize (.request cap) d)
    (ahead : c.Ahead jql key) : d.Returned key ∨ d.Ahead jql key := by
  obtain ⟨_, _, rfl⟩ := taken
  obtain ⟨issue, there, same⟩ := ahead
  rw [← List.take_append_drop (min pageSize cap) (List.drop _ _)] at there
  rcases List.mem_append.mp there with page | rest
  · exact .inl ⟨issue, List.mem_append_right _ page, same⟩
  · refine .inr ⟨issue, ?_, same⟩
    rw [List.drop_drop] at rest
    change issue ∈ (c.server.matching jql).drop (c.search.startAt +
      (((c.server.matching jql).drop c.search.startAt).take (min pageSize cap)).length)
    rw [List.length_take]
    rcases Nat.le_total (min pageSize cap)
        ((c.server.matching jql).drop c.search.startAt).length with le | ge
    · rw [Nat.min_eq_left le]
      exact rest
    · rw [List.drop_eq_nil_of_le (by rw [List.length_drop] at ge; omega)] at rest
      cases rest

theorem Steps.returned (taken : c.Steps jql pageSize event d) (returned : c.Returned key) :
    d.Returned key := by
  obtain ⟨issue, there, same⟩ := returned
  obtain ⟨_, taken⟩ := taken
  cases event with
  | update other =>
      obtain ⟨_, rfl⟩ := taken
      exact ⟨issue, there, same⟩
  | request cap =>
      obtain ⟨_, rfl⟩ := taken
      exact ⟨issue, List.mem_append_left _ there, same⟩

/-- A request returns only what is ahead, and puts nothing ahead. -/
theorem Steps.not_returned (taken : c.Steps jql pageSize (.request cap) d)
    (missing : ¬ c.Returned key) (behind : ¬ c.Ahead jql key) :
    ¬ d.Returned key ∧ ¬ d.Ahead jql key := by
  obtain ⟨_, _, rfl⟩ := taken
  constructor
  · rintro ⟨issue, there, same⟩
    rcases List.mem_append.mp there with old | new
    · exact missing ⟨issue, old, same⟩
    · exact behind ⟨issue, List.mem_of_mem_take new, same⟩
  · rintro ⟨issue, there, same⟩
    refine behind ⟨issue, ?_, same⟩
    change issue ∈ (c.server.matching jql).drop (c.search.startAt + _) at there
    rw [← List.drop_drop] at there
    exact List.mem_of_mem_drop there

theorem Steps.update_returned (taken : c.Steps jql pageSize (.update issue) d) :
    d.Returned key ↔ c.Returned key := by
  obtain ⟨_, _, rfl⟩ := taken
  exact Iff.rfl

/-- When the search ends, nothing is ahead. -/
theorem Steps.not_ahead (taken : c.Steps jql pageSize event d) (positive : 0 < pageSize)
    (finished : d.search.finished = true) : ¬ d.Ahead jql key := by
  obtain ⟨unfinished, taken⟩ := taken
  cases event with
  | update other =>
      obtain ⟨_, rfl⟩ := taken
      rw [unfinished] at finished
      cases finished
  | request cap =>
      obtain ⟨some, rfl⟩ := taken
      rintro ⟨issue, there, _⟩
      simp only [JiraClient.searchIssues, JiraServer.search, Bool.or_eq_true, List.isEmpty_iff,
        decide_eq_true_eq, List.length_take, List.length_drop] at finished there
      rw [List.drop_eq_nil_of_le] at there
      · cases there
      · rcases finished with empty | last
        · have none := congrArg List.length empty
          simp only [List.length_take, List.length_drop, List.length_nil] at none
          omega
        · exact last

theorem Steps.empty (taken : c.Steps jql 0 event d) (empty : c.search.issues = []) :
    d.search.issues = [] := by
  obtain ⟨_, taken⟩ := taken
  cases event with
  | update other =>
      obtain ⟨_, rfl⟩ := taken
      exact empty
  | request cap =>
      obtain ⟨_, rfl⟩ := taken
      simp only [JiraClient.searchIssues, JiraServer.search, empty, Nat.zero_min, List.take_zero,
        List.append_nil]

end JiraCall

section Complete

variable {server : JiraServer} {jql : Jql} {pageSize : Nat} {c : JiraCall} {key : String}
variable {steps : List (Taken JiraCall JiraEvent)}

def JiraEvent.IsUpdate (event : JiraEvent) : Prop := ∃ issue, event = .update issue

/-- Whenever an update moves an issue that has not been returned to before the offset, or out
of the list, a later update of the same search moves it to the offset or after it again. -/
def Recovers (jql : Jql) (steps : List (Taken JiraCall JiraEvent)) (key : String) : Prop :=
  ∀ before x after, steps = before ++ x :: after → x.label.IsUpdate → ¬ x.before.Returned key →
    x.before.Ahead jql key → ¬ x.after.Ahead jql key →
      ∃ y ∈ after, y.label.IsUpdate ∧ y.after.Ahead jql key

theorem returned_of_recovers (run : Trace (JiraCall.Steps jql pageSize) ⟨server, {}⟩ steps c)
    (finished : c.search.finished = true) (positive : 0 < pageSize) (recovers : Recovers jql steps key)
    (matched : ∃ issue ∈ server.matching jql, issue.key = key) : c.Returned key := by
  have behind : ¬ c.Ahead jql key := by
    cases run with
    | nil => cases finished
    | concat _ taken => exact taken.not_ahead positive finished
  obtain ⟨before, x, after, split, had, lost, taken, rest⟩ := run.last_loss
    (P := fun c => c.Ahead jql key) matched behind
  have returned : x.after.Returned key := by
    by_contra missing
    cases event : x.label with
    | request cap =>
        rw [event] at taken
        exact (taken.returned_or_ahead had).elim missing lost
    | update issue =>
        rw [event] at taken
        obtain ⟨y, hy, _, again⟩ := recovers before x after split ⟨issue, event⟩
          (fun found => missing (taken.update_returned.mpr found)) had lost
        exact rest y hy again
  exact @Trace.since _ _ _ _ _ _ run (fun c => c.Returned key) _ _ _ split returned
    (fun y _ found taken => taken.returned found)

theorem recovers_of_returned (run : Trace (JiraCall.Steps jql pageSize) ⟨server, {}⟩ steps c)
    (returned : c.Returned key) : Recovers jql steps key := by
  intro before x after split update missing _ lost
  by_contra never
  obtain ⟨issue, event⟩ := update
  have each := @Trace.forall_taken _ _ _ _ _ _ run (fun _ => True) trivial (fun _ _ => trivial)
    (fun x => x.before.Steps jql pageSize x.label x.after) (fun _ taken => taken)
  have taken := each x (by rw [split]; simp)
  rw [event] at taken
  have stays := @Trace.since _ _ _ _ _ _ run (fun c => ¬ c.Returned key ∧ ¬ c.Ahead jql key) _ _ _
    split ⟨fun found => missing (taken.update_returned.mp found), lost⟩ ?_
  · exact stays.1 returned
  · rintro y hy ⟨absent, behind⟩ next
    cases other : y.label with
    | request cap =>
        rw [other] at next
        exact next.not_returned absent behind
    | update issue' =>
        rw [other] at next
        exact ⟨fun found => absent (next.update_returned.mp found),
          fun again => never ⟨y, hy, ⟨issue', other⟩, again⟩⟩

/-- A search returns every issue that matched when it began if and only if every issue that an
update makes it overlook is recovered. -/
theorem search_complete (run : Trace (JiraCall.Steps jql pageSize) ⟨server, {}⟩ steps c)
    (finished : c.search.finished = true) :
    (∀ issue ∈ server.matching jql, c.Returned issue.key) ↔
      (pageSize = 0 → server.matching jql = []) ∧
        ∀ issue ∈ server.matching jql, Recovers jql steps issue.key := by
  constructor
  · refine fun complete => ⟨?_, fun issue matched => recovers_of_returned run (complete issue matched)⟩
    rintro rfl
    have none := @Trace.invariant _ _ _ _ _ _ run (fun c => c.search.issues = []) rfl
      (fun empty taken => taken.empty empty)
    refine List.eq_nil_iff_forall_not_mem.mpr (fun issue matched => ?_)
    obtain ⟨found, there, _⟩ := complete issue matched
    rw [none] at there
    cases there
  · rintro ⟨nothing, recovers⟩ issue matched
    have positive : 0 < pageSize := by
      refine Nat.pos_of_ne_zero (fun zero => ?_)
      rw [nothing zero] at matched
      cases matched
    exact returned_of_recovers run finished positive (recovers issue matched) ⟨issue, matched, rfl⟩

/-- Updates do no harm if they leave ahead what has not been returned. -/
theorem recovers_of_kept (kept : ∀ x ∈ steps, x.label.IsUpdate → ¬ x.before.Returned key →
    x.before.Ahead jql key → x.after.Ahead jql key) : Recovers jql steps key := by
  intro before x after split update missing had lost
  exact (lost (kept x (by rw [split]; simp) update missing had)).elim

end Complete

section Example

def jiraIssue (key : String) (updated : Time) : JiraIssue := ⟨key, "ENG", updated, []⟩

def twoIssues : JiraServer where
  issues := ((∅ : Table JiraIssue.key).add (jiraIssue "A-1" 1)).add (jiraIssue "A-2" 2)
  ordered := by decide +kernel

def engineering : Jql := JiraClient.jql "ENG" none

/-- One request for a page with one issue. -/
def JiraCall.requestOne (c : JiraCall) : JiraCall :=
  { c with
    search := JiraClient.searchIssues c.search
      (c.server.search engineering c.search.startAt (min 1 50)) }

def firstPage : JiraCall := JiraCall.requestOne ⟨twoIssues, {}⟩

theorem latest_update {key : String} : ∀ other ∈ firstPage.server.issues,
    other.updated ≤ (jiraIssue key 3).updated := by
  have all : ∀ other ∈ firstPage.server.issues.rows, other.updated ≤ 3 := by decide +kernel
  exact all

/-- The first page, and then an update. -/
def updated (key : String) : JiraCall :=
  { firstPage with server := firstPage.server.update (jiraIssue key 3) latest_update }

def updatedSteps (key : String) : List (Taken JiraCall JiraEvent) :=
  [⟨⟨twoIssues, {}⟩, .request 50, firstPage⟩, ⟨firstPage, .update (jiraIssue key 3), updated key⟩,
    ⟨updated key, .request 50, (updated key).requestOne⟩]

theorem updatedSteps_run (key : String) : Trace (JiraCall.Steps engineering 1) ⟨twoIssues, {}⟩
    (updatedSteps key) (updated key).requestOne := by
  have unfinished : firstPage.search.finished = false := by decide +kernel
  have first : JiraCall.Steps engineering 1 ⟨twoIssues, {}⟩ (.request 50) firstPage :=
    ⟨rfl, by decide, rfl⟩
  have second : JiraCall.Steps engineering 1 firstPage (.update (jiraIssue key 3)) (updated key) :=
    ⟨unfinished, latest_update, rfl⟩
  have third : JiraCall.Steps engineering 1 (updated key) (.request 50)
      (updated key).requestOne := ⟨unfinished, by decide, rfl⟩
  exact .concat (.concat (.concat .nil first) second) third

/-- An update of the issue of the second page does no harm. -/
theorem search_complete_ahead : (updated "A-2").requestOne.search.finished = true ∧
    ∀ issue ∈ twoIssues.matching engineering,
      (updated "A-2").requestOne.Returned issue.key := by
  have finished : (updated "A-2").requestOne.search.finished = true := by decide +kernel
  refine ⟨finished, ?_⟩
  refine (search_complete (updatedSteps_run "A-2") finished).mpr ⟨?_, ?_⟩
  · intro zero
    cases zero
  intro issue matched
  refine recovers_of_kept (fun x hx update missing had => ?_)
  simp only [updatedSteps, List.mem_cons, List.not_mem_nil, or_false] at hx
  rcases hx with rfl | rfl | rfl
  · obtain ⟨_, impossible⟩ := update
    cases impossible
  · have keys : ∀ issue ∈ twoIssues.matching engineering,
        (∃ found ∈ firstPage.search.issues, found.key = issue.key) ∨
          ∃ ahead ∈ ((updated "A-2").server.matching engineering).drop 1,
            ahead.key = issue.key := by decide +kernel
    exact (keys issue matched).resolve_left missing
  · obtain ⟨_, impossible⟩ := update
    cases impossible

/-- An update of the issue that the first page has returned hides the other one. -/
theorem search_overlooks : ¬ ∀ steps c,
    Trace (JiraCall.Steps engineering 1) ⟨twoIssues, {}⟩ steps c → c.search.finished = true →
      ∀ issue ∈ twoIssues.matching engineering, c.Returned issue.key := by
  intro complete
  have finished : (updated "A-1").requestOne.search.finished = true := by decide +kernel
  have matched : ∃ issue ∈ twoIssues.matching engineering, issue.key = "A-2" := by decide +kernel
  have missing : ¬ ∃ found ∈ (updated "A-1").requestOne.search.issues, found.key = "A-2" := by
    decide +kernel
  obtain ⟨issue, there, key⟩ := matched
  have returned := complete _ _ (updatedSteps_run "A-1") finished issue there
  rw [key] at returned
  exact missing returned

end Example

end OmniSync
