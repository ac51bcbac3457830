import OmniSync.Database

/-!
# The transactional outbox

Outbox rows are written in the same transaction as the domain change and are
published afterwards.
-/

namespace OmniSync

/-- `text[:n]`. -/
def slice (text : String) (n : Nat) : String := String.ofList (text.toList.take n)

/-- Append an outbox row for a normalized event. -/
def enqueueEvent (event : NormalizedEvent) : Draft OutboxEvent := fun id now =>
  { id := id
    aggregateType := "normalized_event"
    aggregateId := event.id
    eventType := event.eventType
    payload :=
      { eventId := event.id
        source := event.source
        externalId := event.externalId
        eventType := event.eventType
        content := event.content
        version := event.version
        schemaVersion := event.schemaVersion }
    createdAt := now }

/-- `limit or default`. -/
def limitOr (limit : Option Nat) (default : Nat) : Nat :=
  match limit with
  | some (n + 1) => n + 1
  | _ => default

def fetchPending (settings : Settings) (limit : Option Nat) : Tx (List OutboxEvent) :=
  Db.selectPending (limitOr limit settings.OUTBOX_BATCH_SIZE)

/-- Read the append-only change feed ordered by `(created_at, id)`. -/
def fetchChanges (after : Option (Time × Uuid)) (limit : Nat) : Tx (List OutboxEvent) :=
  Db.selectChanges after limit

section Changes

variable {s : Store} {after : Option (Time × Uuid)}

theorem mem_changes {o : OutboxEvent} :
    o ∈ s.changes after ↔ o ∈ s.outboxEvents ∧ ∀ p ∈ after, toLex p < o.position := by
  cases after <;> simp [Store.changes, Table.mem_def]

theorem mem_changes_none {o : OutboxEvent} : o ∈ s.changes none ↔ o ∈ s.outboxEvents := by
  simp [mem_changes]

/-- The feed is sorted, and no two rows share their position. -/
theorem changes_pairwise (s : Store) (after : Option (Time × Uuid)) :
    (s.changes after).Pairwise (fun a b => a.position < b.position) := by
  have sorted : (s.changes after).Pairwise (fun a b => a.position ≤ b.position) :=
    List.pairwise_insertionSort _ _
  have distinct : (s.changes after).Pairwise (fun a b => a.id ≠ b.id) := by
    rw [← List.pairwise_map]
    refine ((List.perm_insertionSort _ _).map OutboxEvent.id).nodup_iff.mpr ?_
    exact (s.outboxEvents.unique).sublist (List.filter_sublist.map _)
  refine (sorted.and distinct).imp ?_
  rintro a b ⟨le, different⟩
  refine lt_of_le_of_ne le ?_
  intro same
  exact different (congrArg (fun p => (ofLex p).2) same)

end Changes

def markPublished (outbox : OutboxEvent) : Tx Unit := do
  let now ← Db.utcNow
  Db.updateOutbox outbox.id
    { status := some .published
      publishedAt := some (some now)
      attempts := some (outbox.attempts + 1) }

def markFailed (settings : Settings) (outbox : OutboxEvent) (error : String) : Tx Unit :=
  Db.updateOutbox outbox.id
    { attempts := some (outbox.attempts + 1)
      lastError := some (some (slice error 1000))
      status :=
        if settings.OUTBOX_MAX_ATTEMPTS ≤ outbox.attempts + 1 then some .dead else none }

end OmniSync
