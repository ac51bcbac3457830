import OmniSync.Events.Transaction

/-!
# Upserts that run one after the other

A transaction that upserts one batch and commits, alone on the database. What it
writes is then a function of the store, up to drawn identifiers and stamps:
`UpsertedAlone` describes the writes, and `upsertTransaction_completes` says that a
committed transaction applies them.
-/

namespace OmniSync

open Txn

/-- The writes of an upsert into the store `s`. -/
structure UpsertedAlone (s : Store) (events : List NormalizedEventCreate)
    (changedBy : Option String) (p : UpsertPlan) : Prop where
  existing : ∀ e ∈ deduped events, p.existing e.key = s.normalizedEvents.find e.key
  before : ∀ v ∈ p.before, PreviousOf changedBy (deduped events) p.existing v
  overwritten : ∀ e ∈ deduped events, ∀ event, s.normalizedEvents.find e.key = some event →
    event.content ≠ e.content → ∃ v, v.key = (event.id, event.version) ∧
      (v ∈ s.eventVersions ∨ v ∈ p.before)
  rows : ∃ prepared, List.Forall₂ (Prepared p.existing p.now) (deduped events) prepared ∧
    p.rows = prepared.map s.excluded
  snapshots : ∀ v ∈ p.after, ∃ row ∈ p.rows, SnapshotOf changedBy row v
  recorded : ∀ row ∈ p.rows, ∃ v, v.key = (row.id, row.version) ∧
    (v ∈ s.eventVersions ∨ v ∈ p.before ∨ v ∈ p.after)
  outbox : List.Forall₂ (fun row o => ∃ id t, o = enqueueEvent row id t) p.rows p.outbox
  pending : Pending s p.writes

/-- How the row that is stored for `e` relates to the store before. -/
structure StoredFor (s : Store) (e : NormalizedEventCreate) (row : NormalizedEvent) : Prop where
  key : row.key = e.key
  content : row.content = e.content
  eventType : row.eventType = e.eventType
  schemaVersion : row.schemaVersion = e.schemaVersion
  version : row.version = targetVersion (s.normalizedEvents.find e.key) e
  id : ∀ existing, s.normalizedEvents.find e.key = some existing → row.id = existing.id

/-- The row has the columns of a submitted event. -/
structure NormalizedEvent.Holds (row : NormalizedEvent) (e : NormalizedEventCreate) : Prop where
  key : row.key = e.key
  authorId : row.authorId = e.authorId
  authorName : row.authorName = e.authorName
  content : row.content = e.content
  eventType : row.eventType = e.eventType
  timestamp : row.timestamp = e.timestamp
  rawPayloadId : row.rawPayloadId = e.rawPayloadId
  schemaVersion : row.schemaVersion = e.schemaVersion

namespace UpsertedAlone

variable {s : Store} {events : List NormalizedEventCreate} {changedBy : Option String}
variable {p : UpsertPlan}

theorem stored (h : UpsertedAlone s events changedBy p) :
    List.Forall₂ (StoredFor s) (deduped events) p.rows := by
  obtain ⟨prepared, each, rows⟩ := h.rows
  rw [rows, List.forall₂_map_right_iff]
  refine each.imp_of_mem (fun e he row _ made => ?_)
  obtain ⟨id, rfl⟩ := made
  rw [h.existing e he]
  unfold Store.excluded
  change StoredFor s e (NormalizedEvent.excluded _ (s.normalizedEvents.find e.key))
  cases found : s.normalizedEvents.find e.key with
  | none => exact ⟨rfl, rfl, rfl, rfl, by rw [found]; rfl, by simp [found]⟩
  | some existing =>
      refine ⟨(Table.find_eq_some_iff.mp found).2, rfl, rfl, rfl, by rw [found]; rfl, ?_⟩
      intro existing' found'
      rw [found] at found'
      cases found'
      rfl

theorem exists_row (h : UpsertedAlone s events changedBy p) {e : NormalizedEventCreate}
    (he : e ∈ deduped events) : ∃ row ∈ p.rows, StoredFor s e row := h.stored.exists_right he

theorem exists_event (h : UpsertedAlone s events changedBy p) {row : NormalizedEvent}
    (hr : row ∈ p.rows) : ∃ e ∈ deduped events, StoredFor s e row := h.stored.exists_left hr

theorem committing (h : UpsertedAlone s events changedBy p) : Committing s p := by
  refine ⟨?_, h.outbox, h.pending⟩
  rw [h.stored.map_eq (fun _ _ stored => stored.key)]
  exact nodup_deduped events

/-- Each row has the columns of the event that it was stored for. -/
theorem holds (h : UpsertedAlone s events changedBy p) :
    List.Forall₂ (fun e row => NormalizedEvent.Holds row e) (deduped events) p.rows := by
  obtain ⟨prepared, each, rows⟩ := h.rows
  rw [rows, List.forall₂_map_right_iff]
  refine each.imp (fun e row made => ?_)
  obtain ⟨id, rfl⟩ := made
  unfold Store.excluded
  cases found : s.normalizedEvents.find (e.toRow id _ p.now).key with
  | none => exact ⟨rfl, rfl, rfl, rfl, rfl, rfl, rfl, rfl⟩
  | some existing =>
      exact ⟨(Table.find_eq_some_iff.mp found).2, rfl, rfl, rfl, rfl, rfl, rfl, rfl⟩

end UpsertedAlone

section After

variable {s : Store} {p : UpsertPlan}

theorem find_after (h : Committing s p) {row : NormalizedEvent} (hr : row ∈ p.rows) :
    (postgres.view s p.writes).normalizedEvents.find row.key = some row :=
  Table.find_eq_some_iff.mpr ⟨h.mem_events.mpr (.inl hr), rfl⟩

theorem find_untouched {k : String × String} (free : ∀ row ∈ p.rows, row.key ≠ k) :
    (postgres.view s p.writes).normalizedEvents.find k = s.normalizedEvents.find k :=
  find_view_normalizedEvents_of_free (fun row hr => free row (mem_writes_putEvent.mp hr))

end After

section Alone

variable {inv : State Unit → Prop} {admits : Stmt → State Unit → List Write → Prop}

/-- A version that has been recorded is in the store, or is one of the snapshots. -/
theorem Recorded.alone {row : NormalizedEvent} {changedBy : Option String} {ws : List Write}
    {taken : List EventVersion} {τ : State Unit}
    (h : Recorded (alone inv admits) changedBy ws row taken τ) :
    ∃ v, v.key = (row.id, row.version) ∧
      (v ∈ (postgres.view τ.store ws).eventVersions ∨ v ∈ taken) := by
  rcases h with ⟨v, hv, id, t, rfl⟩ | ⟨φ, done, initial, since, _, found⟩
  · exact ⟨_, rfl, .inr hv⟩
  · obtain ⟨v, hv⟩ := Option.isSome_iff_exists.mp found
    obtain ⟨member, key⟩ := Table.find_eq_some_iff.mp hv
    refine ⟨v, key, ?_⟩
    rw [← alone_store since, postgres.view_append] at member
    rcases mem_view_eventVersions_iff member with old | own
    · exact .inl old
    · simp only [List.mem_map, Write.addVersion.injEq, exists_eq_right] at own
      exact .inr (initial.subset own)

/-- What is pending already counts as part of the store. -/
theorem Upserted.alone {events : List NormalizedEventCreate} {changedBy : Option String}
    {p : UpsertPlan} {σ τ : State Unit} {ws : List Write}
    (h : Upserted (alone inv admits) events changedBy p σ ws τ) :
    UpsertedAlone (postgres.view σ.store ws) events changedBy p where
  existing e he := by
    obtain ⟨φ, since, _, read⟩ := h.read
    rw [read e he, alone_store since]
  before := h.before
  overwritten e he event found changed := by
    obtain ⟨φ, since, _, read⟩ := h.read
    rw [← alone_store since, ← read e he] at found
    obtain ⟨v, key, recorded⟩ := (h.overwritten e he event found changed).alone
    exact ⟨v, key, alone_store h.rely ▸ recorded⟩
  rows := by
    obtain ⟨prepared, each, rows⟩ := h.rows
    exact ⟨prepared, each, by rw [rows, alone_store h.rely]⟩
  snapshots := h.snapshots
  recorded row hr := by
    obtain ⟨v, key, recorded⟩ := (h.recorded row hr).alone
    refine ⟨v, key, ?_⟩
    rcases recorded with old | new
    · rw [alone_store h.rely, List.append_assoc, postgres.view_append] at old
      refine (mem_view_eventVersions_iff old).imp id (fun own => .inl ?_)
      simpa using own
    · exact .inr (.inr new)
  outbox := h.outbox
  pending := by
    have pending := h.pending
    rw [alone_store h.rely] at pending
    exact pending.of_view

end Alone

/-- From `σ`, a transaction has upserted its batch and has done nothing else. -/
def UpsertCommitted (events : List NormalizedEventCreate) (changedBy : Option String)
    (σ : State Unit) (results : List NormalizedEvent) (τ : State Unit) : Prop :=
  ∃ p, UpsertedAlone σ.store events changedBy p ∧ results = p.rows ∧
    τ.store = postgres.view σ.store p.writes ∧ σ.world.Idle τ.world

/-- The protocol of upserts that run alone. -/
def serial : Protocol postgres Unit := alone (fun σ => σ.store.EventIdsUnique) (fun _ _ _ => True)

theorem hosts_serial : Hosts serial := hosts_alone (fun _ _ unique => unique)

theorem wp_upsertTransaction {events : List NormalizedEventCreate} {changedBy : Option String}
    {σ : State Unit} (unique : σ.store.EventIdsUnique) :
    wp serial () (upsertTransaction events changedBy)
      (fun r τ _ => ∀ results, r = .ok results → UpsertCommitted events changedBy σ results τ)
      σ [] := by
  unfold upsertTransaction
  rw [wp_bind]
  refine wp_upsertEventsBulk hosts_serial (fun _ unique => unique) unique (Pending.nil _) ?_ ?_
  · intro e φ ws _ b impossible
    cases impossible
  · intro p φ unique' upserted
    rw [Post.andThen_ok, wp_bind, wp_commitWork]
    intro υ rely unique''
    have same : υ.store = φ.store := alone_store rely
    refine ⟨?_, ⟨?_, trivial⟩, ?_⟩
    · intro e b impossible
      cases impossible
    · exact (upserted.pending.rely hosts_serial rely).eventIdsUnique_view unique''
    · rintro b ⟨⟩
      have idle := (alone_world upserted.rely).trans (alone_world rely)
      refine ⟨p, upserted.alone, rfl, ?_, idle⟩
      rw [Engine.publish_store, same, alone_store upserted.rely, List.nil_append]

/-- A transaction that commits has upserted its batch. -/
theorem upsertTransaction_completes {events : List NormalizedEventCreate}
    {changedBy : Option String} {σ τ : State Unit} {results : List NormalizedEvent}
    (unique : σ.store.EventIdsUnique)
    (h : postgres.Completes () (upsertTransaction events changedBy) σ results τ) :
    UpsertCommitted events changedBy σ results τ := by
  refine (wp_completes serial (Q := UpsertCommitted events changedBy σ) (fun _ _ _ => trivial)
    ?_ unique (wp_upsertTransaction unique) h).2
  rintro results ws φ υ ⟨p, upserted, rows, store, idle⟩ rely
  exact ⟨p, upserted, rows, (alone_store rely).trans store, idle.trans (alone_world rely)⟩

end OmniSync
