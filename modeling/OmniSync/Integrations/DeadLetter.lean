import OmniSync.Integrations.Verification

/-!
# What a failed sync run can be replayed as

The entry of a failed run names its operation, and the retrier and the replay endpoint
send the task of that name. The default operation of the driver is not the name of any
task, so no entry of such a run can be replayed.
-/

namespace OmniSync

open Txn

/-- A registered task has the name of the entry's operation, and its body runs the sync of
`source`. -/
def Replayable (source : String) (f : FailedEvent) : Prop :=
  ∃ task ∈ registeredTasks, task.name = f.operation ∧ task.connector = some source

instance (source : String) (f : FailedEvent) : Decidable (Replayable source f) :=
  inferInstanceAs (Decidable (∃ task ∈ registeredTasks, task.name = f.operation ∧
    task.connector = some source))

/-- The default operation of a source is not the name of a task. -/
theorem poll_unregistered (source : String) :
    ∀ task ∈ registeredTasks, task.name ≠ source ++ "_poll" := by
  have ends : ∀ task ∈ registeredTasks, ¬ "_poll".toList <:+ task.name.toList := by decide
  intro task registered same
  refine ends task registered ⟨source.toList, ?_⟩
  rw [same, String.toList_append]

/-- No entry that a run of the driver with the default operation writes can be replayed. -/
theorem connector_failure_not_replayable {rt : Runtime} {settings : Settings} {source : String}
    {σ τ : State Unit} {session : TxSession Nat}
    (run : postgres.Solo (fun _ _ _ => True) ()
      (⟨runConnectorSync rt settings source none, []⟩, σ) (session, τ)) :
    ∀ f ∈ τ.store.failedEvents, Touched σ τ f → ¬ Replayable source f := by
  intro f hf touched
  have own : f.operation = source ++ "_poll" := (runConnectorSync_records run).touched f hf touched
  rintro ⟨task, registered, name, _⟩
  exact poll_unregistered source task registered (name.trans own)

/-- A runtime that knows the Jira connector. -/
def jiraRuntime : Runtime where
  fromisoformat _ := .ok 0
  isoformat _ := "1970-01-01T00:00:00+00:00"
  fromtimestamp n := .ok (n * second)
  str _ := ""
  canonicalHash _ := "hash"
  jsonSafe payload := payload
  encodedSize _ := 2
  validateWebhook _ := .error ⟨"ValidationError", "Field required"⟩
  validateUpdate _ := .error ⟨"ValidationError", "Field required"⟩
  getConnector source :=
    if source = "jira" then .ok ⟨"jira", fun _ _ => .ok none⟩
    else .error ⟨"ValueError", "No connector registered for source: " ++ source⟩

/-- The moves of a run that cannot reach its source. -/
def unreachableScript : List (Move Exn Choice) :=
  [.step (.text "c"), .step (.draw 1 0), .step .none, .step .none,
    .fail ⟨"ConnectError", "All connection attempts failed"⟩, .step .none, .step .none, .step .none,
    .step (.time 0), .step (.rows []), .step (.draw 2 0), .step .none]

/-- A Jira sync that fails to fetch. -/
def unreachableRun : Option (TxSession Nat × State Unit) :=
  postgres.drive (fun _ _ _ => True) () unreachableScript
    (⟨syncJira jiraRuntime {} "https://example.atlassian.net", []⟩, ⟨{}, ∅, []⟩)

/-- The entry of the failed run names no task that syncs Jira. -/
theorem jira_failure_not_replayable : ∃ session τ f,
    postgres.Solo (fun _ _ _ => True) ()
      (⟨syncJira jiraRuntime {} "https://example.atlassian.net", []⟩, ⟨{}, ∅, []⟩) (session, τ) ∧
      τ.store.failedEvents.rows = [f] ∧ ¬ Replayable "jira" f := by
  have shape : unreachableRun.map (fun x => x.2.store.failedEvents.rows.map
      (fun f => (f.operation, decide (Replayable "jira" f)))) = some [("jira_poll", false)] := by
    decide +kernel
  obtain ⟨⟨session, τ⟩, run, rows⟩ := Option.map_eq_some_iff.mp shape
  obtain ⟨f, single, facts⟩ := List.map_eq_singleton_iff.mp rows
  exact ⟨session, τ, f, Engine.solo_of_drive run, single, of_decide_eq_false (Prod.mk.inj facts).2⟩

theorem connector_failure_not_replayable_jira : ∃ session τ f,
    unreachableRun = some (session, τ) ∧ f ∈ τ.store.failedEvents ∧
      Touched ⟨{}, ∅, []⟩ τ f ∧ ¬ Replayable "jira" f := by
  have shape : unreachableRun.map (fun x => x.2.store.failedEvents.rows.map (fun f =>
      decide (∃ entry ∈ x.2.log, ∃ w ∈ entry.2, .failed f.id ∈ w.locks))) = some [true] := by
    decide +kernel
  obtain ⟨⟨session, τ⟩, run, rows⟩ := Option.map_eq_some_iff.mp shape
  obtain ⟨f, single, facts⟩ := List.map_eq_singleton_iff.mp rows
  have member : f ∈ τ.store.failedEvents := by
    change f ∈ τ.store.failedEvents.rows
    rw [single]
    exact List.mem_singleton.mpr rfl
  have written : ∃ entry ∈ τ.log, ∃ w ∈ entry.2, .failed f.id ∈ w.locks := of_decide_eq_true facts
  have touched : Touched ⟨{}, ∅, []⟩ τ f := written
  exact ⟨session, τ, f, run, member, touched,
    connector_failure_not_replayable (Engine.solo_of_drive run) f member touched⟩

end OmniSync
