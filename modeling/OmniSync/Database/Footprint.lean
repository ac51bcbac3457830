import OmniSync.Database.Verification

/-!
# Which tables a statement writes

A statement writes, or locks rows of, at most one table. `Stmt.Ingesting` singles out
the statements of the ingestion work: they leave the dead-letter queue, the sync logs and the
webhook deliveries alone, and send no task. A program that issues only those
(`Prog.Within`) is verified by `wp_ingests` without being executed symbolically.
-/

namespace OmniSync

open Txn

inductive TableName where
  | normalizedEvents
  | eventVersions
  | outboxEvents
  | failedEvents
  | syncLogs
  | webhookDeliveries
  | rawPayloads
  | syncState
  deriving DecidableEq, Repr

def Write.table : Write → TableName
  | putEvent _ => .normalizedEvents
  | addVersion _ => .eventVersions
  | addOutbox _ => .outboxEvents
  | lockOutbox _ => .outboxEvents
  | patchOutbox _ _ => .outboxEvents
  | addFailed _ => .failedEvents
  | lockFailed _ => .failedEvents
  | patchFailed _ _ => .failedEvents
  | addSyncLog _ => .syncLogs
  | setSyncLog _ _ _ => .syncLogs
  | addDelivery _ => .webhookDeliveries
  | setDelivery _ _ _ => .webhookDeliveries
  | addRawPayload _ => .rawPayloads
  | addSyncState _ => .syncState
  | setSyncState _ _ _ => .syncState

/-- The table that a statement writes or locks. -/
def Stmt.table : Stmt → Option TableName
  | insertVersion _ => some .eventVersions
  | insertOnConflict _ => some .normalizedEvents
  | insertOutbox _ => some .outboxEvents
  | selectPending _ => some .outboxEvents
  | updateOutbox _ _ => some .outboxEvents
  | selectDue _ _ _ => some .failedEvents
  | insertFailed _ => some .failedEvents
  | updateFailed _ _ => some .failedEvents
  | insertSyncLog _ => some .syncLogs
  | updateSyncLog _ _ _ => some .syncLogs
  | insertDelivery _ => some .webhookDeliveries
  | updateDelivery _ _ _ => some .webhookDeliveries
  | insertRawPayload _ => some .rawPayloads
  | insertCursor _ => some .syncState
  | updateCursor _ _ => some .syncState
  | _ => none

/-- The statement is seen outside the database at once. -/
def Stmt.external : Stmt → Bool
  | qdrantUpsert _ _ => true
  | sendTask _ => true
  | _ => false

/-- Time has passed, and nothing was delivered to the index or dispatched. -/
structure World.Moves (w w' : World) : Prop where
  clock : w.clock.Le w'.clock
  index : w'.index = w.index
  broker : w'.broker = w.broker

section Exec

variable {s : Stmt} {choice : Choice} {world world' : World} {view : Store}
variable {locked : Write → Bool} {answer : Except Exn (Answer s)} {new : List Write}

theorem exec_table (run : exec s choice world view locked = some (answer, new, world')) :
    ∀ w ∈ new, s.table = some w.table := by
  intro w hw
  unfold exec at run
  split at run
  all_goals try split at run
  all_goals try split at run
  all_goals
    first
    | exact (Option.some_ne_none _ run.symm).elim
    | cases run
      exact (List.not_mem_nil hw).elim
    | cases run
      simp only [List.mem_singleton, List.mem_map] at hw
      first
      | subst hw
        rfl
      | obtain ⟨_, _, rfl⟩ := hw
        rfl
    | obtain ⟨_, ⟨_, _, rfl⟩ | ⟨_, _, rfl⟩⟩ := insertUnless_some run
      · simp only [List.not_mem_nil] at hw
      · rw [List.mem_singleton.mp hw]
        rfl

/-- The clock does not run backwards. -/
theorem exec_later (run : exec s choice world view locked = some (answer, new, world')) :
    world.Later world' := by
  have flushed := Clock.le_flush world.clock
  unfold exec at run
  split at run
  all_goals try split at run
  all_goals try split at run
  all_goals
    first
    | exact (Option.some_ne_none _ run.symm).elim
    | cases run
      exact Clock.Le.refl _
    | cases run
      rename_i shown
      exact Clock.le_read shown
    | cases run
      exact flushed _
    | obtain ⟨rfl, -⟩ := insertUnless_some run
      first
      | exact Clock.Le.refl _
      | rename_i shown
        exact Clock.le_read shown

/-- No statement changes what the services answer. -/
theorem exec_remote (run : exec s choice world view locked = some (answer, new, world')) :
    world'.remote = world.remote := by
  unfold exec at run
  split at run
  all_goals try split at run
  all_goals try split at run
  all_goals
    first
    | exact (Option.some_ne_none _ run.symm).elim
    | cases run
      rfl
    | obtain ⟨rfl, -⟩ := insertUnless_some run
      rfl

theorem exec_moves (inner : s.external = false)
    (run : exec s choice world view locked = some (answer, new, world')) : world.Moves world' := by
  have flushed := Clock.le_flush world.clock
  unfold exec at run
  split at run
  all_goals try split at run
  all_goals try split at run
  all_goals
    first
    | exact (Option.some_ne_none _ run.symm).elim
    | cases run
      exact ⟨Clock.Le.refl _, rfl, rfl⟩
    | cases run
      rename_i shown
      exact ⟨Clock.le_read shown, rfl, rfl⟩
    | cases run
      exact ⟨flushed _, rfl, rfl⟩
    | obtain ⟨rfl, -⟩ := insertUnless_some run
      first
      | exact ⟨Clock.Le.refl _, rfl, rfl⟩
      | rename_i shown
        exact ⟨Clock.le_read shown, rfl, rfl⟩
    | exact (Bool.noConfusion inner)

end Exec

/-- The statements of the ingestion work. -/
structure Stmt.Ingests (s : Stmt) : Prop where
  inner : s.external = false
  failedEvents : s.table ≠ some .failedEvents
  syncLogs : s.table ≠ some .syncLogs
  webhookDeliveries : s.table ≠ some .webhookDeliveries

/-- The writes of the ingestion work. -/
structure Write.Ingested (w : Write) : Prop where
  failedEvents : w.table ≠ .failedEvents
  syncLogs : w.table ≠ .syncLogs
  webhookDeliveries : w.table ≠ .webhookDeliveries

/-- The statements that the ingestion work issues. -/
def Stmt.Ingesting : Stmt → Prop
  | utcNow => True
  | uuid4 => True
  | selectEvents _ => True
  | selectVersion _ _ => True
  | insertVersion _ => True
  | insertOnConflict _ => True
  | insertOutbox _ => True
  | selectWatermark _ _ => True
  | selectRawPayload _ _ => True
  | insertRawPayload _ => True
  | selectCursor _ => True
  | insertCursor _ => True
  | updateCursor _ _ => True
  | putObject _ _ => True
  | fetch _ _ => True
  | fetchMail _ _ => True
  | getCommits _ _ _ => True
  | getPullRequests _ _ _ => True
  | getUpdates _ => True
  | _ => False

theorem Stmt.Ingesting.ingests {s : Stmt} (h : s.Ingesting) : s.Ingests := by
  cases s <;>
    first
    | exact h.elim
    | constructor <;> simp [Stmt.external, Stmt.table]

theorem Stmt.Ingests.ingested {s : Stmt} (h : s.Ingests) {w : Write} (written : s.table = some w.table) :
    w.Ingested where
  failedEvents same := h.failedEvents (written.trans (congrArg some same))
  syncLogs same := h.syncLogs (written.trans (congrArg some same))
  webhookDeliveries same := h.webhookDeliveries (written.trans (congrArg some same))

/-- Ingestion work keeps any assertion that survives its writes and the passage of time. -/
theorem wp_ingests {ι α : Type} {P : Protocol postgres ι} {i : ι} {p : Tx α}
    {Q : Post Exn Store Write World ι α} {R : State ι → List Write → Prop} {σ : State ι}
    {ws : List Write} (ingesting : p.Within Stmt.Ingesting)
    (stable : ∀ {σ τ ws}, R σ ws → P.rely ws σ τ → P.inv τ → R τ ws)
    (step : ∀ {σ ws new world}, R σ ws → P.inv σ → σ.world.Moves world →
      (∀ w ∈ new, w.Ingested) → P.Guarantees i ws σ { σ with world := world } ∧
        R { σ with world := world } (ws ++ new))
    (start : R σ ws) (exit : ∀ r σ ws, R σ ws → Q r σ ws) : wp P i p Q σ ws := by
  refine wp_within (ingesting.mono (fun _ => Stmt.Ingesting.ingests)) stable ?_ start exit
  intro s allowed σ ws choice locked answer new world here inv run
  exact step here inv (exec_moves allowed.inner run)
    (fun w hw => allowed.ingested (exec_table run w hw))

section Tables

variable {s : Store} {w : Write} {vs : List Write}

theorem Store.put_failedEvents_of_table (h : w.table ≠ .failedEvents) :
    (s.put w).failedEvents = s.failedEvents := by
  cases w with
  | addFailed | lockFailed | patchFailed => exact (h rfl).elim
  | _ => rfl

theorem Store.put_syncLogs_of_table (h : w.table ≠ .syncLogs) :
    (s.put w).syncLogs = s.syncLogs := by
  cases w with
  | addSyncLog | setSyncLog => exact (h rfl).elim
  | _ => rfl

theorem Store.put_webhookDeliveries_of_table (h : w.table ≠ .webhookDeliveries) :
    (s.put w).webhookDeliveries = s.webhookDeliveries := by
  cases w with
  | addDelivery | setDelivery => exact (h rfl).elim
  | _ => rfl

theorem view_failedEvents_of_table (h : ∀ w ∈ vs, w.table ≠ .failedEvents) :
    (postgres.view s vs).failedEvents = s.failedEvents :=
  view_look Store.failedEvents (fun _ w hw => Store.put_failedEvents_of_table (h w hw))

theorem view_syncLogs_of_table (h : ∀ w ∈ vs, w.table ≠ .syncLogs) :
    (postgres.view s vs).syncLogs = s.syncLogs :=
  view_look Store.syncLogs (fun _ w hw => Store.put_syncLogs_of_table (h w hw))

end Tables

end OmniSync
