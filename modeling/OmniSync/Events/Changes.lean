import OmniSync.Events.Serial

/-!
# What an upsert emits

An upsert appends one outbox row for every distinct key of its batch, also for a key
that is submitted as it is stored. So the rows that it appends are its changes exactly
when the batch resubmits nothing, and a second run over the same batch, which leaves the
events and their history as they are, emits all of them again: `emits_changes_iff`.
-/

namespace OmniSync

open Txn

/-- The part of an event that a change is about. -/
def NormalizedEvent.contract (row : NormalizedEvent) : String × String × Int :=
  (row.content, row.eventType, row.schemaVersion)

def NormalizedEventCreate.contract (e : NormalizedEventCreate) : String × String × Int :=
  (e.content, e.eventType, e.schemaVersion)

/-- What is stored under `k`, if anything. -/
def Store.contract (s : Store) (k : String × String) : Option (String × String × Int) :=
  (s.normalizedEvents.find k).map NormalizedEvent.contract

/-- The event under `k` was created, or its content, type or schema version has changed. -/
def Changed (s t : Store) (k : String × String) : Prop := s.contract k ≠ t.contract k

/-- The event is submitted with the content, the type and the schema version that are
stored. -/
def Resubmitted (s : Store) (e : NormalizedEventCreate) : Prop := s.contract e.key = some e.contract

/-- The key of the event that an outbox row is about. -/
def OutboxEvent.eventKey (row : OutboxEvent) : String × String :=
  (row.payload.source, row.payload.externalId)

/-- From `s` to `t` the outbox has grown by one row for each key that has changed, and by
no other row. -/
def EmitsChanges (s t : Store) : Prop :=
  ∃ new, t.outboxEvents.rows = s.outboxEvents.rows ++ new ∧
    (new.map OutboxEvent.eventKey).Nodup ∧ ∀ k, k ∈ new.map OutboxEvent.eventKey ↔ Changed s t k

/-- An event without the time of its last upsert. -/
def NormalizedEvent.withoutUpdatedAt (row : NormalizedEvent) : NormalizedEvent :=
  { row with updatedAt := 0 }

section Upsert

variable {s : Store} {events : List NormalizedEventCreate} {changedBy : Option String}
variable {p : UpsertPlan}

theorem outbox_after (h : Committing s p) :
    (postgres.view s p.writes).outboxEvents.rows = s.outboxEvents.rows ++ p.outbox := by
  rw [h.pending.rows_view_outboxEvents (by simp [UpsertPlan.writes, UpsertPlan.stored])]
  congr 1
  simp [UpsertPlan.writes, UpsertPlan.stored, Write.outboxRow, Function.comp_def]

namespace UpsertedAlone

theorem keys_rows (h : UpsertedAlone s events changedBy p) :
    p.rows.map NormalizedEvent.key = (deduped events).map NormalizedEventCreate.key :=
  h.stored.map_eq (fun _ _ stored => stored.key)

/-- The outbox rows are about the keys of the batch. -/
theorem keys_outbox (h : UpsertedAlone s events changedBy p) :
    p.outbox.map OutboxEvent.eventKey = (deduped events).map NormalizedEventCreate.key := by
  rw [← h.keys_rows]
  refine h.outbox.map_eq ?_
  rintro row o ⟨id, t, rfl⟩
  rfl

theorem contract_after (h : UpsertedAlone s events changedBy p) {e : NormalizedEventCreate}
    (he : e ∈ deduped events) : (postgres.view s p.writes).contract e.key = some e.contract := by
  obtain ⟨row, hr, stored⟩ := h.exists_row he
  rw [Store.contract, ← stored.key, find_after h.committing hr, Option.map_some]
  unfold NormalizedEvent.contract
  rw [stored.content, stored.eventType, stored.schemaVersion]
  rfl

/-- A key has changed if the batch submits something else for it than what was stored. -/
theorem changed_iff (h : UpsertedAlone s events changedBy p) (k : String × String) :
    Changed s (postgres.view s p.writes) k ↔
      ∃ e ∈ deduped events, e.key = k ∧ ¬ Resubmitted s e := by
  constructor
  · intro changed
    by_cases submitted : k ∈ (deduped events).map NormalizedEventCreate.key
    · obtain ⟨e, he, rfl⟩ := List.mem_map.mp submitted
      refine ⟨e, he, rfl, fun same => changed ?_⟩
      rw [h.contract_after he]
      exact same
    · refine (changed ?_).elim
      rw [← h.keys_rows] at submitted
      unfold Store.contract
      rw [find_untouched (fun row hr same => submitted (List.mem_map.mpr ⟨row, hr, same⟩))]
  · rintro ⟨e, he, rfl, differs⟩ same
    rw [h.contract_after he] at same
    exact differs same

/-- An upsert emits its changes exactly when it resubmits nothing. -/
theorem emitsChanges_iff (h : UpsertedAlone s events changedBy p) :
    EmitsChanges s (postgres.view s p.writes) ↔ ∀ e ∈ deduped events, ¬ Resubmitted s e := by
  have grown := outbox_after h.committing
  constructor
  · rintro ⟨new, rows, _, each⟩ e he same
    rw [grown] at rows
    have emitted : e.key ∈ new.map OutboxEvent.eventKey := by
      rw [← List.append_cancel_left rows, h.keys_outbox]
      exact List.mem_map.mpr ⟨e, he, rfl⟩
    obtain ⟨e', he', key, differs⟩ := (h.changed_iff e.key).mp ((each e.key).mp emitted)
    rw [List.inj_on_of_nodup_map (nodup_deduped events) he' he key] at differs
    exact differs same
  · intro fresh
    refine ⟨p.outbox, grown, ?_, fun k => ?_⟩
    · rw [h.keys_outbox]
      exact nodup_deduped events
    · rw [h.keys_outbox, h.changed_iff, List.mem_map]
      constructor
      · rintro ⟨e, he, key⟩
        exact ⟨e, he, key, fresh e he⟩
      · rintro ⟨e, he, key, _⟩
        exact ⟨e, he, key⟩

end UpsertedAlone

end Upsert

section Again

variable {s : Store} {events : List NormalizedEventCreate} {changedBy changedBy' : Option String}
variable {p p' : UpsertPlan}

/-- An upsert over the row of an upsert of the same event changes its time only. -/
theorem excluded_again (e : NormalizedEventCreate) (id id' : Uuid) (version : Nat)
    (now now' : Time) (old : Option NormalizedEvent) :
    (e.toRow id' version now').excluded (some ((e.toRow id version now).excluded old)) =
      { (e.toRow id version now).excluded old with updatedAt := now' } := by
  cases old <;> rfl

/-- The row of an event after a second upsert of it. -/
theorem row_again (first : UpsertedAlone s events changedBy p)
    (again : UpsertedAlone (postgres.view s p.writes) events changedBy' p')
    {row : NormalizedEvent} (hr : row ∈ p'.rows) :
    ∃ old ∈ p.rows, old.key = row.key ∧ row = { old with updatedAt := p'.now } := by
  obtain ⟨prepared', each', rows'⟩ := again.rows
  obtain ⟨prepared, each, rows⟩ := first.rows
  rw [rows'] at hr
  obtain ⟨new, hn, rfl⟩ := List.mem_map.mp hr
  obtain ⟨e, he, id', rfl⟩ := each'.exists_left hn
  obtain ⟨_, hp, id, rfl⟩ := each.exists_right he
  have member : s.excluded (e.toRow id (targetVersion (p.existing e.key) e) p.now) ∈ p.rows :=
    rows ▸ List.mem_map.mpr ⟨_, hp, rfl⟩
  have found := find_after first.committing member
  rw [Store.excluded_key] at found
  have version : targetVersion (p'.existing e.key) e = targetVersion (p.existing e.key) e := by
    rw [again.existing e he]
    change targetVersion ((postgres.view s p.writes).normalizedEvents.find
      (e.toRow id (targetVersion (p.existing e.key) e) p.now).key) e = _
    rw [found]
    unfold Store.excluded
    cases s.normalizedEvents.find (e.toRow id (targetVersion (p.existing e.key) e) p.now).key <;>
      exact if_neg (not_not.mpr rfl)
  refine ⟨_, member, by rw [Store.excluded_key, Store.excluded_key]; rfl, ?_⟩
  rw [version]
  unfold Store.excluded
  change NormalizedEvent.excluded _ ((postgres.view s p.writes).normalizedEvents.find
    (e.toRow id (targetVersion (p.existing e.key) e) p.now).key) = _
  rw [found]
  exact excluded_again e id id' _ p.now p'.now _

/-- A second upsert of the same batch leaves the events as they are, apart from their
times. -/
theorem events_again (first : UpsertedAlone s events changedBy p)
    (again : UpsertedAlone (postgres.view s p.writes) events changedBy' p') (k : String × String) :
    ((postgres.view (postgres.view s p.writes) p'.writes).normalizedEvents.find k).map
        NormalizedEvent.withoutUpdatedAt =
      ((postgres.view s p.writes).normalizedEvents.find k).map NormalizedEvent.withoutUpdatedAt := by
  by_cases written : ∃ row ∈ p'.rows, row.key = k
  · obtain ⟨row, hr, rfl⟩ := written
    obtain ⟨old, ho, key, same⟩ := row_again first again hr
    rw [find_after again.committing hr, ← key, find_after first.committing ho, same]
    rfl
  · rw [find_untouched (fun row hr same => written ⟨row, hr, same⟩)]

/-- A second upsert of the same batch finds every version in the history. -/
theorem versions_again (first : UpsertedAlone s events changedBy p)
    (again : UpsertedAlone (postgres.view s p.writes) events changedBy' p') :
    (postgres.view (postgres.view s p.writes) p'.writes).eventVersions =
      (postgres.view s p.writes).eventVersions := by
  have before : p'.before = [] := by
    rw [List.eq_nil_iff_forall_not_mem]
    intro v hv
    obtain ⟨e, he, existing, found, differs, _⟩ := again.before v hv
    rw [again.existing e he] at found
    have same := first.contract_after he
    rw [Store.contract, found, Option.map_some, Option.some.injEq] at same
    exact differs (congrArg Prod.fst same)
  have after : p'.after = [] := by
    rw [List.eq_nil_iff_forall_not_mem]
    intro v hv
    obtain ⟨row, hr, id, t, rfl⟩ := again.snapshots v hv
    obtain ⟨old, ho, _, rfl⟩ := row_again first again hr
    obtain ⟨v, key, recorded⟩ := first.recorded old ho
    have absent := again.pending.versions _ (mem_writes_addVersion.mpr (.inr hv))
    exact Table.find_eq_none_iff.mp absent v (first.committing.mem_versions.mpr recorded) key
  refine view_look Store.eventVersions ?_
  intro s' w hw
  rw [UpsertPlan.writes, UpsertPlan.stored, before, after] at hw
  simp only [List.map_nil, List.nil_append, List.append_nil, List.mem_append, List.mem_map] at hw
  rcases hw with ⟨row, _, rfl⟩ | ⟨o, _, rfl⟩ <;> rfl

theorem deduped_eq_nil {events : List NormalizedEventCreate} : deduped events = [] ↔ events = [] := by
  cases events with
  | nil => exact ⟨fun _ => rfl, fun _ => rfl⟩
  | cons e events =>
      refine ⟨fun none => ?_, fun none => (nomatch none)⟩
      have found := find_deduped (e :: events) e.key
      rw [none] at found
      simp at found

/-- Every upsert of a batch that is not empty emits. -/
theorem outbox_again (again : UpsertedAlone s events changedBy' p') :
    (postgres.view s p'.writes).outboxEvents.rows = s.outboxEvents.rows ↔ events = [] := by
  rw [outbox_after again.committing, List.append_right_eq_self, ← deduped_eq_nil]
  have keys := congrArg List.length again.keys_outbox
  rw [List.length_map, List.length_map] at keys
  rw [← List.length_eq_zero_iff, keys, List.length_eq_zero_iff]

end Again

/-- A batch that is upserted twice in a row. The first run emits one row for each change
and no other row exactly when it resubmits nothing. The second run leaves the events and
their history as they are, and the outbox exactly when the batch is empty. -/
theorem emits_changes_iff {events : List NormalizedEventCreate} {changedBy changedBy' : Option String}
    {σ τ υ : State Unit} {results results' : List NormalizedEvent}
    (unique : σ.store.EventIdsUnique)
    (first : postgres.Completes () (upsertTransaction events changedBy) σ results τ)
    (again : postgres.Completes () (upsertTransaction events changedBy') τ results' υ) :
    (EmitsChanges σ.store τ.store ↔ ∀ e ∈ deduped events, ¬ Resubmitted σ.store e) ∧
      (∀ k, (υ.store.normalizedEvents.find k).map NormalizedEvent.withoutUpdatedAt =
        (τ.store.normalizedEvents.find k).map NormalizedEvent.withoutUpdatedAt) ∧
      υ.store.eventVersions = τ.store.eventVersions ∧
      (υ.store.outboxEvents.rows = τ.store.outboxEvents.rows ↔ events = []) := by
  obtain ⟨p, upserted, _, store, _⟩ := upsertTransaction_completes unique first
  have unique' := store ▸ upserted.pending.eventIdsUnique_view unique
  obtain ⟨p', upserted', _, store', _⟩ := upsertTransaction_completes unique' again
  rw [store] at upserted'
  rw [store', store]
  exact ⟨upserted.emitsChanges_iff, events_again upserted upserted',
    versions_again upserted upserted', outbox_again upserted'⟩

/-- The moves of a transaction that submits an event as it is stored. -/
def resubmitScript (id : Uuid) : List (Move Exn Choice) :=
  [.step (.time 0), .step .none, .step (.draw id 0), .step .none, .step .none, .step .none,
    .step (.draws [(id + 2, 0)]), .step .none]

/-- A commit is stored and then submitted again: the states after the two transactions. -/
def resubmission : Option (State Unit × State Unit) := do
  let (_, stored) ← postgres.outcome () (createScript 10)
    (upsertTransaction [sampleCommit "draft"] none) ⟨{}, ∅, []⟩
  let (_, again) ← postgres.outcome () (resubmitScript 20)
    (upsertTransaction [sampleCommit "draft"] none) stored
  return (stored, again)

theorem completes_of_resubmission {τ υ : State Unit} (h : resubmission = some (τ, υ)) :
    (∃ results, postgres.Completes () (upsertTransaction [sampleCommit "draft"] none)
        ⟨{}, ∅, []⟩ results τ) ∧
      ∃ results, postgres.Completes () (upsertTransaction [sampleCommit "draft"] none)
        τ results υ := by
  simp only [resubmission, Option.bind_eq_bind, Option.bind_eq_some_iff, Prod.exists,
    Option.pure_def, Option.some.injEq, Prod.mk.injEq] at h
  obtain ⟨results, stored, first, results', again, second, rfl, rfl⟩ := h
  exact ⟨⟨results, Engine.completes_of_outcome first⟩, ⟨results', Engine.completes_of_outcome second⟩⟩

/-- The second transaction has changed nothing and has appended an outbox row. -/
theorem resubmission_emitted : ∃ τ υ results,
    postgres.Completes () (upsertTransaction [sampleCommit "draft"] none) τ results υ ∧
      τ.store.contract ("github", "abc123") = υ.store.contract ("github", "abc123") ∧
      τ.store.outboxEvents.rows.map OutboxEvent.eventKey = [("github", "abc123")] ∧
      υ.store.outboxEvents.rows.map OutboxEvent.eventKey =
        [("github", "abc123"), ("github", "abc123")] ∧
      ¬ EmitsChanges τ.store υ.store := by
  have shape : resubmission.map (fun x => decide (x.1.store.contract ("github", "abc123") =
      x.2.store.contract ("github", "abc123") ∧
        x.1.store.outboxEvents.rows.map OutboxEvent.eventKey = [("github", "abc123")] ∧
        x.2.store.outboxEvents.rows.map OutboxEvent.eventKey =
          [("github", "abc123"), ("github", "abc123")])) = some true := by decide +kernel
  obtain ⟨⟨τ, υ⟩, run, facts⟩ := Option.map_eq_some_iff.mp shape
  obtain ⟨same, before, after⟩ := of_decide_eq_true facts
  obtain ⟨_, results, second⟩ := completes_of_resubmission run
  refine ⟨τ, υ, results, second, same, before, after, ?_⟩
  rintro ⟨new, rows, _, each⟩
  have keys := congrArg (List.map OutboxEvent.eventKey) rows
  rw [List.map_append, before, after, List.singleton_append, List.cons_inj_right] at keys
  exact (each ("github", "abc123")).mp (keys ▸ List.mem_singleton.mpr rfl) same

/-- The first transaction emits the new commit, the second one leaves the history alone. -/
theorem emits_changes_created : ∃ τ υ : State Unit, resubmission = some (τ, υ) ∧
    EmitsChanges ∅ τ.store ∧ υ.store.eventVersions = τ.store.eventVersions := by
  have ran : resubmission.isSome = true := by decide +kernel
  obtain ⟨⟨τ, υ⟩, run⟩ := Option.isSome_iff_exists.mp ran
  obtain ⟨⟨_, first⟩, _, again⟩ := completes_of_resubmission run
  have ids : (∅ : Store).EventIdsUnique := fun _ hx => (List.not_mem_nil hx).elim
  obtain ⟨emits, _, versions, _⟩ := emits_changes_iff ids first again
  exact ⟨τ, υ, run, emits.mpr (fun _ _ same => by cases same), versions⟩

end OmniSync
