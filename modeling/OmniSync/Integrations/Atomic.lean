import OmniSync.Dlq.Verification
import OmniSync.Integrations.Batch
import OmniSync.Integrations.Verification
import OmniSync.SyncLogs.Runs

/-!
# A sync run stores everything or nothing

A run of a registered connector is a logged run with one commit. Wherever it fails, the
content of the database is as it was, or it is that of a complete run: all the fetched items
are kept, all their events are stored, and the watermark has moved.
-/

namespace OmniSync

open Txn

variable {rt : Runtime} {settings : Settings} {source operation : String}
variable {requested : Option String} {start τ : State Unit}

/-- What a run of a connector does when it fails. -/
def abandonRun (settings : Settings) (source operation : String) (run : String × Uuid) (e : Exn) :
    Tx Nat := do
  Prog.rollbackWork
  updateSyncLogStatus true run.2 .failed (some e.message)
  recordFailureStandalone settings source operation resyncPayload e.message
    (if run.1 = "" then none else some run.1)
  throw e

/-- The run of a connector. -/
def connectorRun (rt : Runtime) (settings : Settings) (source operation : String) :
    LoggedRun (List NormalizedEvent) Nat where
  operation := operation
  body := ingest rt settings source operation
  result := List.length
  handler := abandonRun settings source operation

theorem runConnectorSync_eq : runConnectorSync rt settings source requested =
    (connectorRun rt settings source (operationOf source requested)).prog := by
  unfold LoggedRun.prog openRun
  simp only [Prog.bind_assoc]
  rfl

theorem FailureRecorded.queue {s : Store} {vs : List Write}
    (h : FailureRecorded settings source operation s vs) : ∃ w, vs = [w] ∧
      w.table = .failedEvents := by
  cases h with
  | refresh => exact ⟨_, rfl, rfl⟩
  | first => exact ⟨_, rfl, rfl⟩

/-- A failed run keeps book. -/
theorem wp_abandonRun {K : Store → Prop} (kept : KeptByBooks K) (run : String × Uuid) (e : Exn)
    (σ : State Unit) (ws : List Write) :
    wp (keeping K) () (abandonRun settings source operation run e) (fun _ _ _ => True) σ ws := by
  unfold abandonRun
  rw [wp_bind, wp_rollbackWork]
  intro τ _ _
  rw [Post.andThen_ok, wp_bind]
  refine wp_mono (wp_updateSyncLogStatus_keeping (fun _ => kept.failed)) (fun r υ vs post => ?_)
  cases r with
  | error e => exact trivial
  | ok _ =>
      subst post
      rw [Post.andThen_ok, wp_bind]
      unfold recordFailureStandalone
      rw [wp_bind]
      refine wp_recordFailure hosts_keeping (fun _ _ _ _ _ => trivial) ?_
      intro φ id vs _ _ given
      obtain ⟨w, rfl, table⟩ := given.recorded.queue
      rw [Post.andThen_ok, wp_commitWork]
      intro ψ _ inv
      exact ⟨fun _ => trivial, alone_guarantees (kept.queue table inv), trivial⟩

theorem connectorRun_proper : (connectorRun rt settings source operation).Proper where
  ingesting := ingest_ingests source operation
  doomed _ _ := Prog.doomed_bind _
    (fun _ => Prog.doomed_bind _ (fun _ => Prog.doomed_bind _ (fun _ => trivial)))
  books kept := wp_abandonRun kept

theorem connectorRun_stores (remote : Remote) : (connectorRun rt settings source operation).Stores
    remote (Imported rt source operation remote) := by
  intro cid σ unique answers
  refine wp_mono (wp_ingest_imported unique) (fun r τ ws post results value => ?_)
  obtain ⟨same, imported⟩ := post results value
  rw [same, ← answers]
  exact imported

/-- What a run of a connector that returns has stored. -/
theorem runConnectorSync_imports {n : Nat} (unique : start.store.EventIdsUnique)
    (h : postgres.Completes () (runConnectorSync rt settings source requested) start n τ) :
    Imported rt source (operationOf source requested) start.world.remote start.store τ.store := by
  rw [runConnectorSync_eq] at h
  obtain ⟨s, t, before, after, imported⟩ :=
    LoggedRun.completes connectorRun_proper (connectorRun_stores _) unique h
  exact imported.congr before.symm after

/-- The content of `τ` is that of a run that returns, and it has stored all that it fetched. -/
def Complete (rt : Runtime) (settings : Settings) (source : String) (requested : Option String)
    (start τ : State Unit) : Prop :=
  (∃ n υ, postgres.Completes () (runConnectorSync rt settings source requested) start n υ ∧
    υ.store.SameContent τ.store) ∧
  Imported rt source (operationOf source requested) start.world.remote start.store τ.store

/-- A run of a connector leaves the content as it was or stores all of it, wherever it fails.
A run that has left the content as it was can be made up for by any later one. -/
theorem sync_run_atomic {session : TxSession Nat} (unique : start.store.EventIdsUnique)
    (h : postgres.Solo (fun _ _ _ => True) ()
      (⟨runConnectorSync rt settings source requested, []⟩, start) (session, τ)) :
    (start.store.SameContent τ.store ∨ Complete rt settings source requested start τ) ∧
    (∀ n, session.prog = .ret n → Complete rt settings source requested start τ) ∧
    (∀ log ∈ τ.store.syncLogs, log.status = .completed → log ∉ start.store.syncLogs →
      Complete rt settings source requested start τ) ∧
    (start.store.SameContent τ.store → ∀ script n υ,
      postgres.outcome () script (runConnectorSync rt settings source requested) τ = some (n, υ) →
        ∃ υ', postgres.outcome () script (runConnectorSync rt settings source requested) start =
          some (n, υ') ∧ υ'.store.SameContent υ.store) := by
  have grown := solo_grown h
  rw [runConnectorSync_eq] at h ⊢
  have resumed : start.store.SameContent τ.store → ∀ script n υ,
      postgres.outcome () script (connectorRun rt settings source
        (operationOf source requested)).prog τ = some (n, υ) →
      ∃ υ', postgres.outcome () script (connectorRun rt settings source
        (operationOf source requested)).prog start = some (n, υ') ∧
          υ'.store.SameContent υ.store :=
    fun content script n υ => LoggedRun.resumed connectorRun_proper content grown
  rcases LoggedRun.solo connectorRun_proper (connectorRun_stores _) unique h with
    ⟨pristine, unreturned⟩ | ⟨n, υ, completes, same, s, t, before, after, imported⟩
  · refine ⟨.inl pristine.content, fun n returned => (unreturned n returned).elim, ?_, resumed⟩
    exact fun log hl completed new => (new (pristine.completed log hl completed)).elim
  · have complete : Complete rt settings source requested start τ := by
      refine ⟨⟨n, υ, ?_, same⟩, imported.congr before.symm after⟩
      rw [runConnectorSync_eq]
      exact completes
    exact ⟨.inr complete, fun _ _ => complete, fun _ _ _ _ => complete, resumed⟩

/-- A runtime with a connector that makes an event of every item. -/
def notesRuntime : Runtime where
  fromisoformat _ := .ok 0
  isoformat _ := "1970-01-01T00:00:00+00:00"
  fromtimestamp n := .ok (n * second)
  str _ := ""
  canonicalHash _ := "44136fa355b3678a1146ad16f7e8649e94fb4fc21fe77e8310c060f61caaff8a"
  jsonSafe payload := payload
  encodedSize _ := 2
  validateWebhook _ := .error ⟨"ValidationError", "Field required"⟩
  validateUpdate _ := .error ⟨"ValidationError", "Field required"⟩
  getConnector source :=
    if source = "notes" then
      .ok ⟨"notes", fun _ rawPayloadId => .ok (some
        { externalId := "1", source := "notes", authorId := "", authorName := "", content := ""
          eventType := "note", timestamp := 0, rawPayloadId := rawPayloadId })⟩
    else .error ⟨"ValueError", "No connector registered for source: " ++ source⟩

/-- The moves of a run that fetches one item, commits, and cannot update its log. -/
def unloggedScript : List (Move Exn Choice) :=
  [.step (.text "c"), .step (.draw 1 0), .step .none, .step .none, .step (.items [.obj []]),
    .step .none, .step (.draw 2 0), .step (.time 0), .step .none, .step (.draw 3 0), .step .none,
    .step .none, .step .none, .step (.draw 4 0), .step (.draws [(5, 0)]), .step .none,
    .step (.draw 6 0), .step .none,
    .fail ⟨"OperationalError", "server closed the connection unexpectedly"⟩,
    .crash ⟨"OperationalError", "server closed the connection unexpectedly"⟩]

def unloggedRun : Option (TxSession Nat × State Unit) :=
  postgres.drive (fun _ _ _ => True) () unloggedScript
    (⟨runConnectorSync notesRuntime {} "notes" none, []⟩, ⟨{}, ∅, []⟩)

/-- The run has stored everything, although it does not return. -/
theorem sync_run_atomic_unlogged : ∃ session τ, unloggedRun = some (session, τ) ∧
    session.returned = none ∧ Complete notesRuntime {} "notes" none ⟨{}, ∅, []⟩ τ := by
  have shape : unloggedRun.map (fun x => (x.1.returned.isNone,
      decide (x.2.store.normalizedEvents.rows = []))) = some (true, false) := by
    decide +kernel
  obtain ⟨⟨session, τ⟩, run, facts⟩ := Option.map_eq_some_iff.mp shape
  obtain ⟨unreturned, filled⟩ := Prod.mk.inj facts
  have unique : (∅ : Store).EventIdsUnique := fun x hx => (List.not_mem_nil hx).elim
  have start : (⟨{}, ∅, []⟩ : State Unit).store.EventIdsUnique := unique
  have atomic := sync_run_atomic start (Engine.solo_of_drive run)
  refine ⟨session, τ, run, Option.isNone_iff_eq_none.mp unreturned, atomic.1.resolve_left ?_⟩
  intro same
  exact of_decide_eq_false filled (congrArg Table.rows same.normalizedEvents)

end OmniSync
