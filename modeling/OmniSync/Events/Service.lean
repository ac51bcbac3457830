import OmniSync.Outbox.Service

/-!
# The event service

`upsertEventsBulk` is the only writer of `normalized_events` and
`event_versions`. It reads the existing rows of a batch, prepares the rows to
write with their target versions, upserts them, snapshots the versions, and
enqueues one outbox row for each event.
-/

namespace OmniSync

open Txn

/-- One iteration of the deduplication loop over `(deduped, seen)`. -/
def dedupStep (acc : List NormalizedEventCreate × List (String × String))
    (e : NormalizedEventCreate) : List NormalizedEventCreate × List (String × String) :=
  if acc.2.contains e.key then acc else (acc.1 ++ [e], e.key :: acc.2)

/-- Deduplicate input by `(source, external_id)`, keeping the first occurrence. -/
def deduped (events : List NormalizedEventCreate) : List NormalizedEventCreate :=
  (events.foldl dedupStep ([], [])).1

theorem dedupStep_keys {events : List NormalizedEventCreate}
    {acc : List NormalizedEventCreate × List (String × String)}
    (seen : ∀ k, k ∈ acc.2 ↔ k ∈ acc.1.map NormalizedEventCreate.key)
    (unique : (acc.1.map NormalizedEventCreate.key).Nodup) :
    ((events.foldl dedupStep acc).1.map NormalizedEventCreate.key).Nodup ∧
      ∀ k, (events.foldl dedupStep acc).1.find? (fun e => decide (e.key = k)) =
        (acc.1.find? (fun e => decide (e.key = k))).or
          (events.find? (fun e => decide (e.key = k))) := by
  induction events generalizing acc with
  | nil => exact ⟨unique, fun k => (Option.or_none).symm⟩
  | cons e events ih =>
      by_cases known : e.key ∈ acc.2
      · have step : dedupStep acc e = acc := if_pos (List.contains_iff_mem.mpr known)
        rw [List.foldl_cons, step]
        refine ⟨(ih seen unique).1, fun k => ?_⟩
        rw [(ih seen unique).2 k, List.find?_cons]
        by_cases same : e.key = k
        · obtain ⟨first, hf, key⟩ := List.mem_map.mp ((seen e.key).mp known)
          cases found : acc.1.find? (fun e => decide (e.key = k)) with
          | some x => rfl
          | none =>
              have absent := List.find?_eq_none.mp found first hf
              simp [key, same] at absent
        · simp [same]
      · have step : dedupStep acc e = (acc.1 ++ [e], e.key :: acc.2) :=
          if_neg (fun found => known (List.contains_iff_mem.mp found))
        have seen' : ∀ k, k ∈ e.key :: acc.2 ↔
            k ∈ (acc.1 ++ [e]).map NormalizedEventCreate.key := by
          intro k
          simp only [List.mem_cons, seen, List.map_append, List.map_cons, List.map_nil,
            List.mem_append, List.not_mem_nil, or_false]
          exact or_comm
        have unique' : ((acc.1 ++ [e]).map NormalizedEventCreate.key).Nodup := by
          rw [List.map_append]
          refine List.nodup_append.mpr ⟨unique, by simp, ?_⟩
          rintro k hk l hl rfl
          rw [List.map_cons, List.map_nil, List.mem_singleton] at hl
          exact known ((seen e.key).mpr (hl ▸ hk))
        rw [List.foldl_cons, step]
        refine ⟨(ih seen' unique').1, fun k => ?_⟩
        rw [(ih seen' unique').2 k, List.find?_append, List.find?_cons, Option.or_assoc]
        by_cases same : e.key = k <;> simp [same]

/-- No key occurs twice in a deduplicated batch. -/
theorem nodup_deduped (events : List NormalizedEventCreate) :
    ((deduped events).map NormalizedEventCreate.key).Nodup :=
  (@dedupStep_keys events ([], []) (by simp) List.nodup_nil).1

/-- A deduplicated batch has the first event of each key. -/
theorem find_deduped (events : List NormalizedEventCreate) (k : String × String) :
    (deduped events).find? (fun e => decide (e.key = k)) =
      events.find? (fun e => decide (e.key = k)) :=
  (@dedupStep_keys events ([], []) (by simp) List.nodup_nil).2 k

theorem mem_deduped_key {batch : List NormalizedEventCreate} {k : String × String} :
    k ∈ (deduped batch).map NormalizedEventCreate.key ↔
      k ∈ batch.map NormalizedEventCreate.key := by
  have known : ∀ l : List NormalizedEventCreate, k ∈ l.map NormalizedEventCreate.key ↔
      (l.find? (fun e => decide (e.key = k))).isSome := by
    intro l
    simp [List.find?_isSome]
  rw [known, known, find_deduped]

/-- An event that is kept is the first one of its key. -/
theorem find_of_mem_deduped {batch : List NormalizedEventCreate} {e : NormalizedEventCreate}
    (he : e ∈ deduped batch) : batch.find? (fun x => decide (x.key = e.key)) = some e := by
  rw [← find_deduped]
  cases found : (deduped batch).find? (fun x => decide (x.key = e.key)) with
  | none => exact (List.find?_eq_none.mp found e he (decide_eq_true rfl)).elim
  | some x =>
      have key : x.key = e.key := by simpa using List.find?_some found
      rw [List.inj_on_of_nodup_map (nodup_deduped batch) (List.mem_of_find?_eq_some found) he key]

theorem find_eq_none_of_deduped {batch : List NormalizedEventCreate} {k : String × String}
    (free : ∀ e ∈ deduped batch, e.key ≠ k) :
    batch.find? (fun e => decide (e.key = k)) = none := by
  rw [← find_deduped, List.find?_eq_none]
  simpa using free

theorem mem_of_mem_deduped {batch : List NormalizedEventCreate} {e : NormalizedEventCreate}
    (he : e ∈ deduped batch) : e ∈ batch := List.mem_of_find?_eq_some (find_of_mem_deduped he)

/-- The map from keys to rows that is built from a query result. -/
def rowMap (rows : List NormalizedEvent) (key : String × String) : Option NormalizedEvent :=
  rows.find? (fun row => decide (row.key = key))

/-- The query for the keys of a batch finds the current row of each. -/
theorem rowMap_filter {t : Table NormalizedEvent.key} {keys : List (String × String)}
    {k : String × String} (hk : k ∈ keys) :
    rowMap (t.rows.filter (fun row => decide (row.key ∈ keys))) k = t.find k := by
  rw [rowMap, List.find?_filter, Table.find]
  congr 1
  funext row
  by_cases same : row.key = k <;> simp [same, hk]

/-- The version that an upsert of `e` stores over `existing`. -/
def targetVersion (existing : Option NormalizedEvent) (e : NormalizedEventCreate) : Nat :=
  match existing with
  | some existing => if existing.content ≠ e.content then existing.version + 1 else existing.version
  | none => 1

/-- The history row for the current state of an event. -/
def snapshotOf (changedBy : Option String) (event : NormalizedEvent) : Draft EventVersion :=
  fun id now =>
    { id := id
      eventId := event.id
      version := event.version
      content := event.content
      schemaVersion := event.schemaVersion
      rawPayloadId := event.rawPayloadId
      changedBy := changedBy
      changedAt := now }

/-- Snapshot an event, unless its version is in the history. -/
def snapshot (changedBy : Option String) (event : NormalizedEvent) : Tx Unit := do
  let dup ← Db.selectVersion event.id event.version
  if dup.isNone then
    let _ ← Db.insertVersion (snapshotOf changedBy event)

/-- The row that is passed to the upsert. -/
def NormalizedEventCreate.toRow (e : NormalizedEventCreate) (id : Uuid) (version : Nat)
    (now : Time) : NormalizedEvent :=
  { id := id
    externalId := e.externalId
    source := e.source
    authorId := e.authorId
    authorName := e.authorName
    content := e.content
    eventType := e.eventType
    timestamp := e.timestamp
    rawPayloadId := e.rawPayloadId
    schemaVersion := e.schemaVersion
    version := version
    createdAt := now
    updatedAt := now }

/-- Snapshot the previous version of `e` before it is overwritten with other content
(safety net for events that predate versioning). -/
def snapshotPrevious (changedBy : Option String) (existing : Option NormalizedEvent)
    (e : NormalizedEventCreate) : Tx Unit :=
  match existing with
  | some existing =>
      if existing.content ≠ e.content then snapshot changedBy existing else pure ()
  | none => pure ()

/-- One iteration of the preparing loop: append the row to write. -/
def prepareRow (changedBy : Option String) (now : Time)
    (existingMap : String × String → Option NormalizedEvent) (rows : List NormalizedEvent)
    (e : NormalizedEventCreate) : Tx (List NormalizedEvent) := do
  snapshotPrevious changedBy (existingMap e.key) e
  let id ← Db.uuid4
  return rows ++ [e.toRow id (targetVersion (existingMap e.key) e) now]

/-- `snapshot` of the row that a query has found, if any. -/
def snapshotFound (changedBy : Option String) : Option NormalizedEvent → Tx Unit
  | none => pure ()
  | some event => snapshot changedBy event

/-- A statement that a snapshot issues, or an identifier that is drawn for a row. -/
def Stmt.Versioning : Stmt → Prop
  | .selectVersion _ _ => True
  | .insertVersion _ => True
  | .uuid4 => True
  | _ => False

theorem snapshot_versioning (changedBy : Option String) (event : NormalizedEvent) :
    (snapshot changedBy event).Within Stmt.Versioning := by
  unfold snapshot
  refine .bind (.issue trivial) (fun dup => ?_)
  split
  · exact .bind (.issue trivial) (fun _ => trivial)
  · trivial

theorem prepareRow_versioning (changedBy : Option String) (now : Time)
    (existingMap : String × String → Option NormalizedEvent) (rows : List NormalizedEvent)
    (e : NormalizedEventCreate) :
    (prepareRow changedBy now existingMap rows e).Within Stmt.Versioning := by
  unfold prepareRow
  refine .bind ?_ (fun _ => .bind (.issue trivial) (fun _ => trivial))
  unfold snapshotPrevious
  split
  · split
    · exact snapshot_versioning changedBy _
    · trivial
  · trivial

theorem snapshotFound_versioning (changedBy : Option String) (found : Option NormalizedEvent) :
    (snapshotFound changedBy found).Within Stmt.Versioning := by
  cases found with
  | none => trivial
  | some event => exact snapshot_versioning changedBy event

namespace NormalizedEventService

/-- Store a batch of events. Returns the stored rows. -/
def upsertEventsBulk (events : List NormalizedEventCreate) (changedBy : Option String) :
    Tx (List NormalizedEvent) := do
  if events.isEmpty then
    return []
  let now ← Db.utcNow
  let batch := deduped events
  let keys := batch.map NormalizedEventCreate.key
  let existing ← Db.selectEvents keys
  let rows ← batch.foldlM (prepareRow changedBy now (rowMap existing)) []
  rows.forM Db.insertOnConflict
  -- Reload affected rows by their natural key to get real ids/versions
  -- (a concurrent writer may have won the INSERT race for new keys).
  let final ← Db.selectEvents keys
  batch.forM (fun e => snapshotFound changedBy (rowMap final e.key))
  Db.insertOutbox (batch.filterMap (fun e => (rowMap final e.key).map enqueueEvent))
  return batch.filterMap (fun e => rowMap final e.key)

def upsertEvent (event : NormalizedEventCreate) (changedBy : Option String) :
    Tx NormalizedEvent := do
  match ← upsertEventsBulk [event] changedBy with
  | row :: _ => return row
  | [] => throw ⟨"IndexError", "list index out of range"⟩

/-- The versions of an event, in version order. -/
def getEventHistory (s : Store) (eventId : Uuid) : List EventVersion :=
  (s.eventVersions.rows.filter (fun v => decide (v.eventId = eventId))).insertionSort
    (fun a b => a.version ≤ b.version)

end NormalizedEventService

end OmniSync
