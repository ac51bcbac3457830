import OmniSync.Integrations.DeadLetter
import OmniSync.Integrations.Http
import OmniSync.Integrations.Parsing
import OmniSync.Integrations.Polls

/-!
# When a failing poll is dead-lettered

The three polling tasks share their retry policy. A run that fails is recorded in the
dead-letter queue if the error cannot be retried, or if it was the last run; Celery runs the
task again on the errors of `RETRYABLE_ERRORS`. The clients hand on `RetryError`s only, so what
fails in every attempt is recorded on the first run, and the task is not run again.
-/

namespace OmniSync

open Txn

def RETRYABLE_ERRORS : List String := ["ConnectError", "TimeoutException", "ConnectionError"]

/-- The class among the retryable ones that a class is derived from, or else the class itself. -/
def baseClass (kind : String) : String :=
  if ["ConnectTimeout", "ReadTimeout", "WriteTimeout", "PoolTimeout"].contains kind then
    "TimeoutException"
  else if ["BrokenPipeError", "ConnectionAbortedError", "ConnectionRefusedError",
      "ConnectionResetError"].contains kind then
    "ConnectionError"
  else kind

/-- `isinstance(error, RETRYABLE_ERRORS)`. -/
def isRetryable (error : Exn) : Bool := RETRYABLE_ERRORS.contains (baseClass error.kind)

/-- `max_retries` of the tasks. -/
def MAX_RETRIES : Nat := 3

/-- Record the failure when it is non-retryable or all Celery retries have been exhausted. The
correlation id of the run is not visible outside of its event loop. -/
def toDlqIfDone (settings : Settings) (retries : Nat) (operation source : String) (error : Exn) :
    Tx Unit :=
  let exhausted := decide (MAX_RETRIES ≤ retries)
  if !isRetryable error || exhausted then
    recordFailureStandalone settings source operation resyncPayload error.message none
  else pure ()

/-- The polling tasks. -/
inductive PollTask where
  | syncGithubCommits
  | syncGithubPullRequests
  | syncTelegramMessages
  deriving DecidableEq, Repr

/-- The libraries and the settings that the tasks run with. -/
structure PollConfig where
  lib : DatetimeLib
  rt : Runtime
  client : ClientLib
  settings : Settings
  env : GitHubEnv

namespace PollTask

def name : PollTask → String
  | syncGithubCommits => "src.github.tasks.sync_github_commits"
  | syncGithubPullRequests => "src.github.tasks.sync_github_pull_requests"
  | syncTelegramMessages => "src.telegram.tasks.sync_telegram_messages"

def source : PollTask → String
  | syncGithubCommits => "github"
  | syncGithubPullRequests => "github"
  | syncTelegramMessages => "telegram"

/-- The coroutine of a task, given the outcomes of its HTTP calls. -/
def body (c : PollConfig) (http : Nat → Except Exn HttpResponse) : PollTask → Tx Unit
  | syncGithubCommits =>
      pollGithub c.rt c.settings c.env "github_poll_commits" "commit" "commits"
        (GitHubClient.commitsOver c.client http) (parseCommitToEvent c.lib)
  | syncGithubPullRequests =>
      pollGithub c.rt c.settings c.env "github_poll_prs" "pull_request" "pull_requests"
        (GitHubClient.pullRequestsOver c.client http) (parsePrToEvent c.lib)
  | syncTelegramMessages =>
      pollTelegram c.rt c.settings (TelegramClient.updatesOver c.client c.rt http)

/-- The run of a task after some retries. -/
def run (c : PollConfig) (http : Nat → Except Exn HttpResponse) (retries : Nat)
    (task : PollTask) : Tx Unit :=
  Prog.tryCatch (task.body c http) (fun e => do
    toDlqIfDone c.settings retries task.name task.source e
    throw e)

/-- How a run ends, and what it leaves in the database. -/
abbrev Outcome := Except Exn Unit × Trail Stmt

/-- Celery runs the task again. -/
def again (outcome : Outcome) : Bool :=
  match outcome.1 with
  | .ok _ => false
  | .error e => isRetryable e

/-- The runs of a task: `http k j` is the outcome of the `j`-th attempt of the HTTP call in
run `k`, and `db k n s` what the database answers there to the `n`-th statement. -/
def executed (c : PollConfig) (http : Nat → Nat → Except Exn HttpResponse)
    (db : Nat → Nat → (s : Stmt) → Answer s) (task : PollTask) : List Outcome :=
  Retry.history again (fun k => (task.run c (http k) k).answered (db k) {}) MAX_RETRIES 0

end PollTask

instance (s : Stmt) : Inhabited (Answer s) := by cases s <;> exact inferInstance

/-- The statement writes an entry of the dead-letter queue. -/
def Stmt.deadLetters : Stmt → Bool
  | insertFailed _ => true
  | updateFailed _ _ => true
  | _ => false

/-- The number of dead-letter records that a run has made. -/
def deadLetters (outcome : PollTask.Outcome) : Nat :=
  outcome.2.committed.countP Stmt.deadLetters

/-- Every attempt of every run fails with a retryable error. -/
def EveryAttemptFails (http : Nat → Nat → Except Exn HttpResponse) : Prop :=
  ∀ k ≤ MAX_RETRIES, ∀ j < RETRY_ATTEMPTS, ∃ e, http k j = .error e ∧ isRetryable e = true

namespace PollTask

/-- The task has something to poll. -/
def Configured (env : GitHubEnv) : PollTask → Prop
  | syncTelegramMessages => True
  | _ => ¬ (env.GITHUB_SYNC_OWNER = "" ∨ env.GITHUB_SYNC_REPO = "")

/-- A run of the task comes to its HTTP call: it is configured, and the cursor is a number. -/
def Reaches (env : GitHubEnv) (db : Nat → (s : Stmt) → Answer s) : PollTask → Prop
  | syncTelegramMessages => ∀ n, ∃ offset,
      offsetOf ((db n (.selectCursor ("telegram", "default"))).bind SyncState.cursor) = .ok offset
  | task => task.Configured env

/-- The policy: failures that can be retried are dead-lettered once, on the last run, and any
other failure is dead-lettered on the run in which it occurs. -/
structure DeadLettered (c : PollConfig) (http : Nat → Nat → Except Exn HttpResponse)
    (db : Nat → Nat → (s : Stmt) → Answer s) (task : PollTask) : Prop where
  exhausted : EveryAttemptFails http → (∀ k ≤ MAX_RETRIES, task.Reaches c.env (db k)) →
    (task.executed c http db).map deadLetters = List.replicate MAX_RETRIES 0 ++ [1]
  immediate : ∀ outcome ∈ task.executed c http db, ∀ e, outcome.1 = .error e →
    isRetryable e = false → deadLetters outcome = 1

end PollTask

/-- A `RetryError` is not one of the errors that are retried. -/
theorem retryError_final {client : ClientLib} {e : Exn} :
    isRetryable (retryError client e) = false := by
  have other : RETRYABLE_ERRORS.contains (baseClass "RetryError") = false := by decide
  exact other

section Recording

variable {settings : Settings} {db : Nat → (s : Stmt) → Answer s} {t : Trail Stmt}

/-- A statement that is not one of the dead-letter queue. -/
abbrev Stmt.Elsewhere (s : Stmt) : Prop := s.deadLetters = false

theorem Stmt.Booked.elsewhere {s : Stmt} (h : s.Booked) : s.Elsewhere := by
  cases s <;>
    first
    | exact h.elim
    | rfl

/-- A failure is recorded once. -/
theorem recordFailureStandalone_answered (before : t.Within Stmt.Elsewhere)
    (source operation text : String) : ∃ t', (recordFailureStandalone settings source operation
      resyncPayload text none).answered db t = (.ok (), t') ∧
      t'.committed.countP Stmt.deadLetters = 1 := by
  have old : t.count Stmt.deadLetters = 0 := before.count_eq_zero
  have looked : ((t.issue .utcNow).issue (.selectActive source operation)).count
      Stmt.deadLetters = 0 := by
    rw [Trail.count_issue, Trail.count_issue, old]
    rfl
  unfold recordFailureStandalone recordFailure
  simp only [Prog.answered_bind, Db.utcNow, Db.selectActive, Prog.answered_issue,
    Trail.issued_issue]
  cases active : db (t.issued + 1) (.selectActive source operation) with
  | none =>
      refine ⟨_, rfl, ?_⟩
      rw [Trail.countP_commit, Trail.count_issue, looked]
      rfl
  | some existing =>
      refine ⟨_, rfl, ?_⟩
      rw [Trail.countP_commit, Trail.count_issue, Trail.count_issue, looked]
      rfl

/-- What `_to_dlq_if_done` does. -/
theorem toDlqIfDone_answered (before : t.Within Stmt.Elsewhere) (retries : Nat)
    (source operation : String) (e : Exn) :
    ∃ t', (toDlqIfDone settings retries operation source e).answered db t = (.ok (), t') ∧
      (isRetryable e = false ∨ MAX_RETRIES ≤ retries →
        t'.committed.countP Stmt.deadLetters = 1) := by
  unfold toDlqIfDone
  dsimp only
  split
  · obtain ⟨t', ends, recorded⟩ := recordFailureStandalone_answered before source operation e.message
    exact ⟨t', ends, fun _ => recorded⟩
  · rename_i kept
    refine ⟨t, rfl, fun done => (kept ?_).elim⟩
    rw [Bool.or_eq_true, Bool.not_eq_true', decide_eq_true_eq]
    exact done

end Recording

section Raised

variable {rt : Runtime} {settings : Settings} {db : Nat → (s : Stmt) → Answer s} {e : Exn}

/-- A poll that cannot fetch raises the error. -/
theorem pollGithub_of_raised {α : Type} {env : GitHubEnv} {operation eventType type : String}
    {get : String → String → Option String → Tx (List α)} {parse : ItemParser α}
    (configured : ¬ (env.GITHUB_SYNC_OWNER = "" ∨ env.GITHUB_SYNC_REPO = ""))
    (raises : ∀ owner repo since, get owner repo since = Prog.raise e) :
    ((pollGithub rt settings env operation eventType type get parse).answered db {}).1 =
      .error e := by
  unfold pollGithub
  rw [if_neg configured]
  simp only [raises]
  rfl

theorem pollTelegram_of_raised {get : Option Int → Tx (List TelegramUpdate)}
    (readable : ∀ n, ∃ offset, offsetOf ((db n (.selectCursor ("telegram", "default"))).bind
      SyncState.cursor) = .ok offset)
    (raises : ∀ offset, get offset = Prog.raise e) :
    ((pollTelegram rt settings get).answered db {}).1 = .error e := by
  obtain ⟨offset, known⟩ := readable 2
  unfold pollTelegram
  simp only [raises, parseOffset_eq]
  change (Prog.answered db (Prog.tryCatch (Prog.ofAnswer (offsetOf ((db 2 (.selectCursor
    ("telegram", "default"))).bind SyncState.cursor)) >>= _) _) _).1 = _
  rw [known]
  rfl

end Raised

namespace PollTask

variable {c : PollConfig} {http : Nat → Nat → Except Exn HttpResponse}
variable {db : Nat → Nat → (s : Stmt) → Answer s} {task : PollTask}

theorem body_polls (outcomes : Nat → Except Exn HttpResponse) : Polls (task.body c outcomes) := by
  cases task with
  | syncGithubCommits => exact pollGithub_polls (fun _ _ _ => ofAnswer_ingests _)
  | syncGithubPullRequests => exact pollGithub_polls (fun _ _ _ => ofAnswer_ingests _)
  | syncTelegramMessages => exact pollTelegram_polls (fun _ => ofAnswer_ingests _)

theorem body_issuing (outcomes : Nat → Except Exn HttpResponse) :
    (task.body c outcomes).Issuing Stmt.Elsewhere :=
  (body_polls outcomes).issuing rfl (fun _ => rfl) (fun _ => Stmt.Booked.elsewhere)

section Run

variable {outcomes : Nat → Except Exn HttpResponse} {retries : Nat}
variable {answers : Nat → (s : Stmt) → Answer s} {e : Exn}

/-- A run whose body fails with an error raises it again, and may be dead-lettered before. -/
theorem run_of_failed (failed : ((task.body c outcomes).answered answers {}).1 = .error e) :
    ((task.run c outcomes retries).answered answers {}).1 = .error e ∧
      (isRetryable e = false ∨ MAX_RETRIES ≤ retries →
        deadLetters ((task.run c outcomes retries).answered answers {}) = 1) := by
  have before : ((task.body c outcomes).answered answers {}).2.Within Stmt.Elsewhere :=
    (body_issuing outcomes).answered Trail.within_empty
  unfold run deadLetters
  rw [Prog.answered_tryCatch]
  cases body : (task.body c outcomes).answered answers {} with
  | mk result t =>
      rw [body] at failed before
      obtain rfl : result = .error e := failed
      obtain ⟨t', ends, recorded⟩ := toDlqIfDone_answered before retries task.source task.name e
      dsimp only
      rw [Prog.answered_bind, ends]
      exact ⟨rfl, recorded⟩

/-- A run that fails has failed in its body. -/
theorem failed_of_run (failed : ((task.run c outcomes retries).answered answers {}).1 = .error e) :
    ((task.body c outcomes).answered answers {}).1 = .error e := by
  cases body : ((task.body c outcomes).answered answers {}).1 with
  | error e' =>
      rw [(run_of_failed body).1] at failed
      exact failed
  | ok a =>
      unfold run at failed
      rw [Prog.answered_tryCatch] at failed
      split at failed
      · cases failed
      · rename_i raised
        rw [raised] at body
        cases body

end Run

/-- What fails in every attempt reaches the task as a `RetryError`. -/
theorem body_of_failed {outcomes : Nat → Except Exn HttpResponse} {failure : Nat → Exn}
    {answers : Nat → (s : Stmt) → Answer s} (reaches : task.Reaches c.env answers)
    (failed : ∀ j < RETRY_ATTEMPTS, outcomes j = .error (failure j)) :
    ((task.body c outcomes).answered answers {}).1 =
      .error (retryError c.client (failure 2)) := by
  have requested : GitHubClient.request c.client outcomes =
      .error (retryError c.client (failure 2)) := GitHubClient.request_of_failed failed
  cases task with
  | syncGithubCommits =>
      refine pollGithub_of_raised reaches (fun owner repo since => ?_)
      unfold GitHubClient.commitsOver
      rw [requested]
      rfl
  | syncGithubPullRequests =>
      refine pollGithub_of_raised reaches (fun owner repo since => ?_)
      unfold GitHubClient.pullRequestsOver
      rw [requested]
      rfl
  | syncTelegramMessages =>
      exact pollTelegram_of_raised reaches (TelegramClient.updatesOver_of_failed failed)

/-- If every attempt fails, the task is run once, and that run is dead-lettered. -/
theorem executed_of_everyAttemptFails (fails : EveryAttemptFails http)
    (reaches : task.Reaches c.env (db 0)) :
    (task.executed c http db).map deadLetters = [1] := by
  have each : ∀ j < RETRY_ATTEMPTS, ∃ e, http 0 j = .error e := fun j hj => by
    obtain ⟨e, failed, _⟩ := fails 0 (Nat.zero_le _) j hj
    exact ⟨e, failed⟩
  have : Nonempty Exn := ⟨(each 0 (Nat.succ_pos 2)).choose⟩
  choose! failure failed using each
  have first := body_of_failed reaches failed
  have raised : ((task.run c (http 0) 0).answered (db 0) {}).1 =
      .error (retryError c.client (failure 2)) := (run_of_failed first).1
  have done : again ((task.run c (http 0) 0).answered (db 0) {}) = false := by
    unfold again
    rw [raised]
    exact retryError_final
  unfold executed
  rw [Retry.history_of_done done]
  exact congrArg (fun n => [n]) ((run_of_failed first).2 (.inl retryError_final))

/-- A failure that cannot be retried is dead-lettered on its run. -/
theorem deadLettered_immediately {outcome : Outcome} {e : Exn}
    (made : outcome ∈ task.executed c http db) (failed : outcome.1 = .error e)
    (final : isRetryable e = false) : deadLetters outcome = 1 := by
  obtain ⟨k, _, rfl⟩ := Retry.exists_of_mem_history made
  exact (run_of_failed (failed_of_run failed)).2 (.inl final)

end PollTask

/-- The policy is met, whatever the database answers, unless the task polls and every attempt of
every run fails with an error that can be retried. -/
theorem deadLettered_iff {c : PollConfig} {http : Nat → Nat → Except Exn HttpResponse}
    {task : PollTask} :
    (∀ db, task.DeadLettered c http db) ↔ ¬ (task.Configured c.env ∧ EveryAttemptFails http) := by
  constructor
  · rintro policy ⟨configured, fails⟩
    have reaches : task.Reaches c.env (fun _ _ => default) := by
      cases task with
      | syncTelegramMessages => exact fun _ => ⟨none, rfl⟩
      | _ => exact configured
    have four := (policy (fun _ _ _ => default)).exhausted fails (fun _ _ => reaches)
    rw [PollTask.executed_of_everyAttemptFails fails reaches] at four
    exact absurd four (by decide)
  · refine fun spared db => ⟨fun fails reaches => ?_, fun outcome made e failed final => ?_⟩
    · refine (spared ⟨?_, fails⟩).elim
      cases task with
      | syncTelegramMessages => trivial
      | _ => exact reaches 0 (Nat.zero_le _)
    · exact PollTask.deadLettered_immediately made failed final

/-- Tasks that poll a repository. -/
def pollConfig : PollConfig where
  lib := noDates
  rt := jiraRuntime
  client :=
    { int := fun _ => .ok 0
      str := fun _ => ""
      validateCommit := fun _ => .error ⟨"ValidationError", "Field required"⟩
      validatePr := fun _ => .error ⟨"ValidationError", "Field required"⟩
      printRetryError := fun e => "RetryError[<Future state=finished raised " ++ e.kind ++ ">]" }
  settings := {}
  env := { GITHUB_SYNC_OWNER := "acme", GITHUB_SYNC_REPO := "app" }

/-- Every connection is refused. -/
def refused : Nat → Nat → Except Exn HttpResponse :=
  fun _ _ => .error ⟨"ConnectError", "All connection attempts failed"⟩

theorem refused_fails : EveryAttemptFails refused :=
  fun _ _ _ _ => ⟨⟨"ConnectError", "All connection attempts failed"⟩, rfl, by decide⟩

/-- The task is run once, and dead-lettered there, where the policy asks for four runs. -/
theorem refused_dead_lettered_at_once :
    (PollTask.syncGithubCommits.executed pollConfig refused (fun _ _ _ => default)).map
        deadLetters = [1] ∧
      ¬ PollTask.syncGithubCommits.DeadLettered pollConfig refused (fun _ _ _ => default) := by
  have configured : PollTask.syncGithubCommits.Reaches pollConfig.env (fun _ _ => default) := by
    intro missing
    exact absurd missing (by decide)
  have once : (PollTask.syncGithubCommits.executed pollConfig refused (fun _ _ _ => default)).map
      deadLetters = [1] := PollTask.executed_of_everyAttemptFails refused_fails configured
  refine ⟨once, fun policy => ?_⟩
  have four := policy.exhausted refused_fails (fun _ _ => configured)
  rw [once] at four
  exact absurd four (by decide)

end OmniSync
