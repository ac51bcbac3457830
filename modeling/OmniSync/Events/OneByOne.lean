import OmniSync.Events.Changes
import OmniSync.Events.History

/-!
# A batch and its events one by one

What an upsert does to the row, the history and the outbox entry of a key depends only on what
the store has under that key and on the event with it: `Applied`. So it is the same whether
the events of a batch are upserted at once or one after the other, in whichever order.
-/

namespace OmniSync

open Txn

/-- Upsert events one after the other in one transaction. -/
def upsertEach (events : List NormalizedEventCreate) (changedBy : Option String) : Tx Unit := do
  events.forM (fun e => do
    let _ ← NormalizedEventService.upsertEvent e changedBy)
  Prog.commitWork

/-- The primary key of the events and the foreign key of their history hold. -/
structure Store.KeysHold (s : Store) : Prop where
  ids : s.EventIdsUnique
  owned : ∀ v ∈ s.eventVersions, ∃ e ∈ s.normalizedEvents, e.id = v.eventId

theorem Upserts.keysHold {σ τ : State Unit} {calls : List (List NormalizedEventCreate)}
    (empty : σ.store = ∅) (h : Upserts σ calls τ) : τ.store.KeysHold :=
  ⟨(h.histories empty).unique, (h.histories empty).owned⟩

/-- What a history row says, apart from the ids and the time that are drawn for it. -/
def EventVersion.contents (v : EventVersion) : EventVersion :=
  { v with id := 0, eventId := 0, changedAt := 0 }

/-- The history has a version of the event with this key. -/
def versionOf (s : Store) (k : String × String) (n : Nat) : Option EventVersion :=
  (s.normalizedEvents.find k).bind (fun row =>
    (s.eventVersions.find (row.id, n)).map EventVersion.contents)

/-- The version that an upsert of `e` over `existing` records if it is missing: the one that
is overwritten with other content, and the one that is stored. -/
def missingVersion (changedBy : Option String) (existing : Option NormalizedEvent)
    (e : NormalizedEventCreate) (n : Nat) : Option EventVersion :=
  match existing with
  | some event =>
      if event.content ≠ e.content ∧ n = event.version then
        some (snapshotOf changedBy event 0 0).contents
      else if n = targetVersion existing e then
        some (snapshotOf changedBy (e.toRow 0 n 0) 0 0).contents
      else none
  | none =>
      if n = targetVersion existing e then
        some (snapshotOf changedBy (e.toRow 0 n 0) 0 0).contents
      else none

theorem missingVersion_of_not_previous {changedBy : Option String}
    {existing : Option NormalizedEvent} {e : NormalizedEventCreate} {n : Nat}
    (new : ¬ ∃ event, existing = some event ∧ event.content ≠ e.content ∧ n = event.version) :
    missingVersion changedBy existing e n =
      if n = targetVersion existing e then
        some (snapshotOf changedBy (e.toRow 0 n 0) 0 0).contents
      else none := by
  cases existing with
  | none => rfl
  | some event => exact if_neg (fun previous => new ⟨event, rfl, previous⟩)

/-- From `s` to `t`, the events of a batch have been upserted, each over what the store had
under its key. -/
structure Applied (changedBy : Option String) (batch : List NormalizedEventCreate) (s t : Store) :
    Prop where
  events : ∀ e ∈ batch, ∃ row, t.normalizedEvents.find e.key = some row ∧ row.Holds e ∧
    row.version = targetVersion (s.normalizedEvents.find e.key) e ∧
      ∀ existing, s.normalizedEvents.find e.key = some existing → row.id = existing.id
  versions : ∀ e ∈ batch, ∀ n, versionOf t e.key n =
    (versionOf s e.key n).or (missingVersion changedBy (s.normalizedEvents.find e.key) e n)
  other : ∀ k, k ∉ batch.map NormalizedEventCreate.key →
    t.normalizedEvents.find k = s.normalizedEvents.find k ∧
      ∀ row, s.normalizedEvents.find k = some row → ∀ n,
        t.eventVersions.find (row.id, n) = s.eventVersions.find (row.id, n)
  outbox : ∃ order new, order.Perm batch ∧
    t.outboxEvents.rows = s.outboxEvents.rows ++ new ∧
      List.Forall₂ (fun e o => ∃ row, t.normalizedEvents.find e.key = some row ∧
        ∃ id time, o = enqueueEvent row id time) order new

namespace Applied

variable {changedBy : Option String} {batch rest : List NormalizedEventCreate} {s t u : Store}

theorem nil (s : Store) : Applied changedBy [] s s :=
  ⟨nofun, nofun, fun _ _ => ⟨rfl, fun _ _ _ => rfl⟩, [], [], .refl _, (List.append_nil _).symm, .nil⟩

theorem perm (h : Applied changedBy batch s t) {batch' : List NormalizedEventCreate}
    (same : batch.Perm batch') : Applied changedBy batch' s t := by
  refine ⟨fun e he => h.events e (same.mem_iff.mpr he),
    fun e he => h.versions e (same.mem_iff.mpr he), fun k new => h.other k ?_, ?_⟩
  · exact fun hk => new ((same.map _).mem_iff.mp hk)
  · obtain ⟨order, new, perm, rows, each⟩ := h.outbox
    exact ⟨order, new, perm.trans same, rows, each⟩

theorem versionOf_other (h : Applied changedBy batch s t) {k : String × String}
    (new : k ∉ batch.map NormalizedEventCreate.key) (n : Nat) : versionOf t k n = versionOf s k n := by
  obtain ⟨row, history⟩ := h.other k new
  unfold versionOf
  rw [row]
  cases found : s.normalizedEvents.find k with
  | none => rfl
  | some x => simp only [Option.bind_some, history x found n]

/-- Batches of different keys do not meet. -/
theorem append (first : Applied changedBy batch s t) (second : Applied changedBy rest t u)
    (different : ∀ e ∈ batch, e.key ∉ rest.map NormalizedEventCreate.key) :
    Applied changedBy (batch ++ rest) s u := by
  have different' : ∀ e ∈ rest, e.key ∉ batch.map NormalizedEventCreate.key := by
    intro e he known
    obtain ⟨e', he', same⟩ := List.mem_map.mp known
    exact different e' he' (List.mem_map.mpr ⟨e, he, same.symm⟩)
  refine ⟨fun e he => ?_, fun e he n => ?_, fun k new => ?_, ?_⟩
  · rcases List.mem_append.mp he with he | he
    · rw [(second.other e.key (different e he)).1]
      exact first.events e he
    · rw [← (first.other e.key (different' e he)).1]
      exact second.events e he
  · rcases List.mem_append.mp he with he | he
    · rw [second.versionOf_other (different e he)]
      exact first.versions e he n
    · rw [← (first.other e.key (different' e he)).1, ← first.versionOf_other (different' e he)]
      exact second.versions e he n
  · rw [List.map_append, List.mem_append, not_or] at new
    obtain ⟨row, history⟩ := first.other k new.1
    obtain ⟨row', history'⟩ := second.other k new.2
    refine ⟨row'.trans row, fun x found n => ?_⟩
    rw [history' x (row.trans found) n, history x found n]
  · obtain ⟨order, new, perm, rows, each⟩ := first.outbox
    obtain ⟨order', new', perm', rows', each'⟩ := second.outbox
    refine ⟨order ++ order', new ++ new', perm.append perm', ?_, List.rel_append ?_ each'⟩
    · rw [rows', rows, List.append_assoc]
    · refine each.imp_of_mem (fun e he o _ enqueued => ?_)
      rw [(second.other e.key (different e (perm.mem_iff.mp he))).1]
      exact enqueued

end Applied

section Step

variable {s : Store} {events : List NormalizedEventCreate} {changedBy : Option String}
variable {p : UpsertPlan}

/-- An upsert records versions of the events that it stores. -/
theorem UpsertedAlone.exists_owner (h : UpsertedAlone s events changedBy p) {v : EventVersion}
    (hv : v ∈ p.before ∨ v ∈ p.after) : ∃ row ∈ p.rows, row.id = v.eventId := by
  rcases hv with before | after
  · obtain ⟨e, he, existing, found, _, id, time, rfl⟩ := h.before v before
    rw [h.existing e he] at found
    obtain ⟨row, hr, stored⟩ := h.exists_row he
    exact ⟨row, hr, stored.id existing found⟩
  · obtain ⟨row, hr, id, time, rfl⟩ := h.snapshots v after
    exact ⟨row, hr, rfl⟩

/-- A snapshot that an upsert takes before it stores anything is of the row under the key of
the event. -/
theorem UpsertedAlone.exists_previous (h : UpsertedAlone s events changedBy p)
    {e : NormalizedEventCreate} (he : e ∈ deduped events) {row : NormalizedEvent} (hr : row ∈ p.rows)
    (key : row.key = e.key) {v : EventVersion} (hv : v ∈ p.before) (owner : v.eventId = row.id) :
    ∃ existing, s.normalizedEvents.find e.key = some existing ∧ existing.content ≠ e.content ∧
      SnapshotOf changedBy existing v := by
  obtain ⟨e', he', existing, found, changed, snapshot⟩ := h.before v hv
  rw [h.existing e' he'] at found
  obtain ⟨known, key'⟩ := Table.find_eq_some_iff.mp found
  have id : existing.id = row.id := by
    obtain ⟨_, _, rfl⟩ := snapshot
    exact owner
  have same : e'.key = e.key := by
    rw [← key', ← key]
    exact (h.committing.key_eq_iff hr known).mpr id
  have equal := List.inj_on_of_nodup_map (nodup_deduped events) he' he same
  subst equal
  exact ⟨existing, found, changed, snapshot⟩

/-- The snapshot of a stored row says what the event says. -/
theorem NormalizedEvent.Holds.contents {row : NormalizedEvent} {e : NormalizedEventCreate}
    (h : row.Holds e) (changedBy : Option String) (id : Uuid) (time : Time) :
    (snapshotOf changedBy row id time).contents =
      (snapshotOf changedBy (e.toRow 0 row.version 0) 0 0).contents := by
  simp only [snapshotOf, EventVersion.contents, NormalizedEventCreate.toRow, h.content,
    h.schemaVersion, h.rawPayloadId]

/-- A new event has no history. -/
theorem Store.KeysHold.find_version_none (keys : s.KeysHold) (h : UpsertedAlone s events changedBy p)
    {row : NormalizedEvent} (hr : row ∈ p.rows) (new : s.normalizedEvents.find row.key = none)
    (n : Nat) : s.eventVersions.find (row.id, n) = none := by
  rw [Table.find_eq_none_iff]
  intro v hv key
  obtain ⟨x, hx, owner⟩ := keys.owned v hv
  have id : x.id = row.id := owner.trans (congrArg Prod.fst key)
  exact Table.find_eq_none_iff.mp new x hx ((h.committing.key_eq_iff hr hx).mpr id)

/-- The history that a stored event had. -/
theorem Store.KeysHold.versionOf_eq (keys : s.KeysHold) (h : UpsertedAlone s events changedBy p)
    {e : NormalizedEventCreate} {row : NormalizedEvent} (hr : row ∈ p.rows) (stored : StoredFor s e row)
    (n : Nat) : versionOf s e.key n =
      (s.eventVersions.find (row.id, n)).map EventVersion.contents := by
  unfold versionOf
  cases found : s.normalizedEvents.find e.key with
  | none => rw [keys.find_version_none h hr (stored.key ▸ found), Option.bind_none, Option.map_none]
  | some existing => rw [Option.bind_some, stored.id existing found]

/-- The version that an upsert records for a stored row. -/
theorem UpsertedAlone.version_after (h : UpsertedAlone s events changedBy p)
    {e : NormalizedEventCreate} (he : e ∈ deduped events) {row : NormalizedEvent} (hr : row ∈ p.rows)
    (stored : StoredFor s e row) (holds : row.Holds e) {n : Nat}
    (absent : s.eventVersions.find (row.id, n) = none) :
    ((postgres.view s p.writes).eventVersions.find (row.id, n)).map EventVersion.contents =
      missingVersion changedBy (s.normalizedEvents.find e.key) e n := by
  -- A row that the upsert adds under this version is the previous or the current state.
  have added : ∀ v, v ∈ (postgres.view s p.writes).eventVersions → v.key = (row.id, n) →
      (∃ existing, s.normalizedEvents.find e.key = some existing ∧ existing.content ≠ e.content ∧
        n = existing.version ∧ v.contents = (snapshotOf changedBy existing 0 0).contents) ∨
      (n = row.version ∧ v.contents = (snapshotOf changedBy (e.toRow 0 n 0) 0 0).contents) := by
    intro v hv key
    rcases h.committing.mem_versions.mp hv with old | before | after
    · exact (Table.find_eq_none_iff.mp absent v old key).elim
    · obtain ⟨existing, found, changed, id, time, rfl⟩ :=
        h.exists_previous he hr stored.key before (congrArg Prod.fst key)
      exact .inl ⟨existing, found, changed, (congrArg Prod.snd key).symm, rfl⟩
    · obtain ⟨row', hr', id, time, rfl⟩ := h.snapshots v after
      cases h.committing.eq_of_id hr' hr (congrArg Prod.fst key)
      have number : row.version = n := congrArg Prod.snd key
      exact .inr ⟨number.symm, number ▸ holds.contents changedBy id time⟩
  have find : ∀ v, v ∈ (postgres.view s p.writes).eventVersions → v.key = (row.id, n) →
      (postgres.view s p.writes).eventVersions.find (row.id, n) = some v := fun v hv key =>
    Table.find_eq_some_iff.mpr ⟨hv, key⟩
  by_cases previous : ∃ existing, s.normalizedEvents.find e.key = some existing ∧
      existing.content ≠ e.content ∧ n = existing.version
  · obtain ⟨existing, found, changed, rfl⟩ := previous
    have id := stored.id existing found
    obtain ⟨v, key, old | before⟩ := h.overwritten e he existing found changed
    · exact (Table.find_eq_none_iff.mp absent v old (key.trans (by rw [id]))).elim
    · have hv := h.committing.mem_versions.mpr (.inr (.inl before))
      have key' : v.key = (row.id, existing.version) := key.trans (by rw [id])
      rw [find v hv key', Option.map_some, found]
      refine Eq.trans ?_ (if_pos ⟨changed, rfl⟩).symm
      rcases added v hv key' with ⟨existing', found', _, _, contents⟩ | ⟨number, _⟩
      · rw [found] at found'
        cases found'
        rw [contents]
      · have version := stored.version
        rw [found] at version
        have next : row.version = existing.version + 1 := version.trans (if_pos changed)
        omega
  · rw [missingVersion_of_not_previous previous, ← stored.version]
    by_cases current : n = row.version
    · subst current
      rw [if_pos rfl]
      obtain ⟨v, key, recorded⟩ := h.recorded row hr
      have hv : v ∈ (postgres.view s p.writes).eventVersions :=
        h.committing.mem_versions.mpr (recorded.imp id id)
      rw [find v hv key, Option.map_some]
      rcases added v hv key with found | ⟨_, contents⟩
      · obtain ⟨existing, found, changed, number, _⟩ := found
        exact (previous ⟨existing, found, changed, number⟩).elim
      · rw [contents]
    · rw [if_neg current, Option.map_eq_none_iff, Table.find_eq_none_iff]
      intro v hv key
      rcases added v hv key with ⟨existing, found, changed, number, _⟩ | ⟨number, _⟩
      · exact previous ⟨existing, found, changed, number⟩
      · exact current number

/-- What an upsert of a batch does. -/
theorem UpsertedAlone.applied (h : UpsertedAlone s events changedBy p) (keys : s.KeysHold) :
    Applied changedBy (deduped events) s (postgres.view s p.writes) := by
  have stored : ∀ e ∈ deduped events, ∃ row ∈ p.rows, StoredFor s e row ∧ row.Holds e := by
    intro e he
    obtain ⟨row, hr, stored⟩ := h.exists_row he
    obtain ⟨e', he', holds⟩ := h.holds.exists_left hr
    have same := List.inj_on_of_nodup_map (nodup_deduped events) he' he
      (holds.key.symm.trans stored.key)
    exact ⟨row, hr, stored, same ▸ holds⟩
  have find : ∀ {k} {row : NormalizedEvent}, row ∈ p.rows → row.key = k →
      (postgres.view s p.writes).normalizedEvents.find k = some row :=
    fun hr key => key ▸ find_after h.committing hr
  refine ⟨fun e he => ?_, fun e he n => ?_, fun k new => ?_, ?_⟩
  · obtain ⟨row, hr, stored, holds⟩ := stored e he
    exact ⟨row, find hr stored.key, holds, stored.version, stored.id⟩
  · obtain ⟨row, hr, stored, holds⟩ := stored e he
    rw [keys.versionOf_eq h hr stored]
    rw [versionOf, find hr stored.key, Option.bind_some]
    cases old : s.eventVersions.find (row.id, n) with
    | none => exact h.version_after he hr stored holds old
    | some v =>
        obtain ⟨hv, key⟩ := Table.find_eq_some_iff.mp old
        rw [Table.find_eq_some_iff.mpr ⟨h.committing.mem_versions.mpr (.inl hv), key⟩]
        rfl
  · have free : ∀ row ∈ p.rows, row.key ≠ k := by
      rintro row hr rfl
      exact new (h.keys_rows ▸ List.mem_map.mpr ⟨row, hr, rfl⟩)
    refine ⟨find_untouched free, fun row found n => ?_⟩
    obtain ⟨hx, rfl⟩ := Table.find_eq_some_iff.mp found
    cases old : s.eventVersions.find (row.id, n) with
    | some v =>
        obtain ⟨hv, key⟩ := Table.find_eq_some_iff.mp old
        exact Table.find_eq_some_iff.mpr ⟨h.committing.mem_versions.mpr (.inl hv), key⟩
    | none =>
        rw [Table.find_eq_none_iff]
        intro v hv key
        rcases h.committing.mem_versions.mp hv with before | added
        · exact Table.find_eq_none_iff.mp old v before key
        · obtain ⟨row', hr', owner⟩ := h.exists_owner added
          refine free row' hr' ((h.committing.key_eq_iff hr' hx).mpr ?_).symm
          exact (congrArg Prod.fst key).symm.trans owner.symm
  · refine ⟨deduped events, p.outbox, .refl _, outbox_after h.committing, ?_⟩
    refine (h.stored.imp_of_mem (fun e _ row hr stored => find hr stored.key)).trans h.outbox ?_
    exact fun e row o found enqueued => ⟨row, found, enqueued⟩

/-- An upsert keeps the keys. -/
theorem UpsertedAlone.keysHold (h : UpsertedAlone s events changedBy p) (keys : s.KeysHold) :
    (postgres.view s p.writes).KeysHold where
  ids := h.pending.eventIdsUnique_view keys.ids
  owned v hv := by
    rcases h.committing.mem_versions.mp hv with old | added
    · obtain ⟨x, hx, owner⟩ := keys.owned v old
      obtain ⟨y, hy, _, id⟩ := h.pending.exists_mem_view hx
      exact ⟨y, hy, id.trans owner⟩
    · obtain ⟨row, hr, owner⟩ := h.exists_owner added
      exact ⟨row, h.committing.mem_events.mpr (.inl hr), owner⟩

end Step

section Each

variable {changedBy : Option String} {events rest : List NormalizedEventCreate}
variable {σ τ : State Unit} {ws : List Write}

/-- The loop has `rest` still to visit: the events before it are applied to the store of `start`,
and nothing is committed yet. -/
structure Visiting (changedBy : Option String) (events : List NormalizedEventCreate)
    (start : State Unit) (rest : List NormalizedEventCreate) (τ : State Unit) (ws : List Write) :
    Prop where
  applied : ∃ done, events = done ++ rest ∧
    Applied changedBy done start.store (postgres.view τ.store ws)
  keysHold : (postgres.view τ.store ws).KeysHold
  pending : Pending τ.store ws
  unique : τ.store.EventIdsUnique

/-- One event more is applied. -/
theorem Visiting.upsert {start : State Unit} {e : NormalizedEventCreate} {p : UpsertPlan}
    (h : Visiting changedBy events start (e :: rest) σ ws)
    (once : (events.map NormalizedEventCreate.key).Nodup)
    (upserted : Upserted serial [e] changedBy p σ ws τ) (unique : τ.store.EventIdsUnique) :
    Visiting changedBy events start rest τ (ws ++ p.writes) := by
  obtain ⟨done, rfl, applied⟩ := h.applied
  have alone := upserted.alone
  have view : postgres.view τ.store (ws ++ p.writes) =
      postgres.view (postgres.view σ.store ws) p.writes := by
    rw [alone_store upserted.rely, postgres.view_append]
  refine ⟨⟨done ++ [e], by simp, ?_⟩, ?_, upserted.pending, unique⟩
  · rw [view]
    refine applied.append (alone.applied h.keysHold) (fun e' he' known => ?_)
    rw [List.map_append] at once
    refine (List.nodup_append.mp once).2.2 e'.key (List.mem_map_of_mem he') e.key (by simp) ?_
    exact List.mem_singleton.mp known
  · rw [view]
    exact alone.keysHold h.keysHold

theorem wp_upsertEach (once : (events.map NormalizedEventCreate.key).Nodup)
    (keys : σ.store.KeysHold) :
    wp serial () (upsertEach events changedBy)
      (fun r τ _ => ∀ u, r = .ok u →
        Applied changedBy events σ.store τ.store ∧ τ.store.KeysHold) σ [] := by
  unfold upsertEach
  rw [wp_bind]
  refine wp_forM (Visiting changedBy events σ) ?_ ?_ events ?_
  · intro e rest φ ws visiting
    unfold NormalizedEventService.upsertEvent
    rw [wp_bind, wp_bind]
    refine wp_upsertEventsBulk hosts_serial (fun _ unique => unique) visiting.unique
      visiting.pending (fun _ _ _ _ => nofun) ?_
    intro p υ unique upserted
    rw [Post.andThen_ok]
    cases p.rows with
    | nil => exact nofun
    | cons row rows => exact visiting.upsert once upserted unique
  · intro φ ws visiting
    rw [Post.andThen_ok, wp_commitWork]
    intro υ rely unique
    have same : υ.store = φ.store := alone_store rely
    obtain ⟨done, split, applied⟩ := visiting.applied
    rw [List.append_nil] at split
    have kept : (postgres.view υ.store ws).KeysHold := same ▸ visiting.keysHold
    refine ⟨fun _ => nofun, ⟨kept.ids, trivial⟩, fun _ _ => ⟨?_, kept⟩⟩
    rw [Engine.publish_store, same, split]
    exact applied
  · exact ⟨⟨[], rfl, .nil _⟩, keys, .nil _, keys.ids⟩

/-- A transaction that commits has applied its events one by one. -/
theorem upsertEach_completes (once : (events.map NormalizedEventCreate.key).Nodup)
    (keys : σ.store.KeysHold) (h : postgres.Completes () (upsertEach events changedBy) σ () τ) :
    Applied changedBy events σ.store τ.store ∧ τ.store.KeysHold := by
  refine (wp_completes serial
    (Q := fun _ τ => Applied changedBy events σ.store τ.store ∧ τ.store.KeysHold)
    (fun _ _ _ => trivial) (fun applied rely => ?_) keys.ids (wp_upsertEach once keys) h).2
  exact alone_store rely ▸ applied

end Each

/-- The first event of each key of a batch, in some order. -/
structure FirstOccurrences (events seq : List NormalizedEventCreate) : Prop where
  once : (seq.map NormalizedEventCreate.key).Nodup
  first : ∀ e, e ∈ seq ↔ events.find? (fun x => decide (x.key = e.key)) = some e

theorem FirstOccurrences.perm {events seq : List NormalizedEventCreate}
    (h : FirstOccurrences events seq) : (deduped events).Perm seq := by
  refine (List.perm_ext_iff_of_nodup (nodup_deduped events).of_map h.once.of_map).mpr (fun e => ?_)
  rw [h.first, ← find_deduped]
  constructor
  · intro he
    cases found : (deduped events).find? (fun x => decide (x.key = e.key)) with
    | none => exact (List.find?_eq_none.mp found e he (decide_eq_true rfl)).elim
    | some x =>
        have key : x.key = e.key := by simpa using List.find?_some found
        rw [List.inj_on_of_nodup_map (nodup_deduped events) (List.mem_of_find?_eq_some found) he key]
  · exact List.mem_of_find?_eq_some

/-- An event without the times of its upserts, and without its id unless it was in `s`. -/
def NormalizedEvent.columnsIn (s : Store) (row : NormalizedEvent) : NormalizedEvent :=
  { row with
    id := if (s.normalizedEvents.find row.key).isSome then row.id else 0
    createdAt := 0
    updatedAt := 0 }

/-- The payload of an outbox row, without the id of the event unless that was in `s`. -/
def OutboxEvent.payloadIn (s : Store) (row : OutboxEvent) : OutboxPayload :=
  { row.payload with
    eventId := if (s.normalizedEvents.find row.eventKey).isSome then row.payload.eventId else 0 }

/-- The stores `t` and `u`, which come from `s`, have the same events, the same history and the
same new payloads. -/
structure SameFrom (s t u : Store) : Prop where
  events : ∀ k, (t.normalizedEvents.find k).map (NormalizedEvent.columnsIn s) =
    (u.normalizedEvents.find k).map (NormalizedEvent.columnsIn s)
  versions : ∀ k n, versionOf t k n = versionOf u k n
  owned : (∀ v ∈ t.eventVersions, ∃ e ∈ t.normalizedEvents, e.id = v.eventId) ∧
    ∀ v ∈ u.eventVersions, ∃ e ∈ u.normalizedEvents, e.id = v.eventId
  outbox : ∃ new new', t.outboxEvents.rows = s.outboxEvents.rows ++ new ∧
    u.outboxEvents.rows = s.outboxEvents.rows ++ new' ∧
      (new.map (OutboxEvent.payloadIn s)).Perm (new'.map (OutboxEvent.payloadIn s))

/-- From `s` to `t`, nothing has happened to a key. -/
structure Untouched (k : String × String) (s t : Store) : Prop where
  row : t.normalizedEvents.find k = s.normalizedEvents.find k
  history : ∀ e, s.normalizedEvents.find k = some e → ∀ v, v.eventId = e.id →
    (v ∈ t.eventVersions ↔ v ∈ s.eventVersions)
  outbox : t.outboxEvents.rows.filter (fun o => decide (o.eventKey = k)) =
    s.outboxEvents.rows.filter (fun o => decide (o.eventKey = k))

/-- The row that is stored for an event over the store `s`, up to what is drawn for it. -/
def NormalizedEventCreate.storedIn (s : Store) (e : NormalizedEventCreate) : NormalizedEvent :=
  e.toRow ((s.normalizedEvents.find e.key).elim 0 NormalizedEvent.id)
    (targetVersion (s.normalizedEvents.find e.key) e) 0

theorem NormalizedEvent.Holds.columnsIn {s : Store} {e : NormalizedEventCreate}
    {row : NormalizedEvent} (h : row.Holds e)
    (version : row.version = targetVersion (s.normalizedEvents.find e.key) e)
    (id : ∀ existing, s.normalizedEvents.find e.key = some existing → row.id = existing.id) :
    row.columnsIn s = e.storedIn s := by
  have source : row.source = e.source := congrArg Prod.fst h.key
  have externalId : row.externalId = e.externalId := congrArg Prod.snd h.key
  have own : (if (s.normalizedEvents.find row.key).isSome then row.id else 0) =
      (s.normalizedEvents.find e.key).elim 0 NormalizedEvent.id := by
    rw [h.key]
    cases found : s.normalizedEvents.find e.key with
    | none => rfl
    | some existing => exact id existing found
  simp only [NormalizedEvent.columnsIn, own, NormalizedEventCreate.storedIn,
    NormalizedEventCreate.toRow, source, externalId, h.authorId, h.authorName, h.content,
    h.eventType, h.timestamp, h.rawPayloadId, h.schemaVersion, version]

namespace Applied

variable {changedBy : Option String} {batch : List NormalizedEventCreate} {s t u : Store}

theorem payloads (h : Applied changedBy batch s t) :
    ∃ new, t.outboxEvents.rows = s.outboxEvents.rows ++ new ∧
      (new.map OutboxEvent.eventKey).Perm (batch.map NormalizedEventCreate.key) ∧
        (new.map (OutboxEvent.payloadIn s)).Perm
          (batch.map (fun e => (enqueueEvent (e.storedIn s) 0 0).payload)) := by
  obtain ⟨order, new, perm, rows, each⟩ := h.outbox
  refine ⟨new, rows, ?_, ?_⟩
  · refine .trans (.of_eq ?_) (perm.map _)
    refine each.map_eq ?_
    rintro e _ ⟨row, found, id, time, rfl⟩
    exact (Table.find_eq_some_iff.mp found).2
  · refine .trans (.of_eq ?_) (perm.map _)
    refine (each.imp_of_mem (fun e he o _ enqueued => ?_)).map_eq (fun _ _ same => same)
    obtain ⟨row, found, id, time, rfl⟩ := enqueued
    obtain ⟨row', found', holds, version, own⟩ := h.events e (perm.mem_iff.mp he)
    rw [found] at found'
    cases found'
    rw [← holds.columnsIn version own]
    rfl

/-- The same events leave the same, however they have been applied. -/
theorem sameFrom (h : Applied changedBy batch s t) (h' : Applied changedBy batch s u)
    (keys : t.KeysHold) (keys' : u.KeysHold) : SameFrom s t u := by
  refine ⟨fun k => ?_, fun k n => ?_, ⟨keys.owned, keys'.owned⟩, ?_⟩
  · by_cases known : k ∈ batch.map NormalizedEventCreate.key
    · obtain ⟨e, he, rfl⟩ := List.mem_map.mp known
      obtain ⟨row, found, holds, version, id⟩ := h.events e he
      obtain ⟨row', found', holds', version', id'⟩ := h'.events e he
      rw [found, found', Option.map_some, Option.map_some, holds.columnsIn version id,
        holds'.columnsIn version' id']
    · rw [(h.other k known).1, (h'.other k known).1]
  · by_cases known : k ∈ batch.map NormalizedEventCreate.key
    · obtain ⟨e, he, rfl⟩ := List.mem_map.mp known
      rw [h.versions e he, h'.versions e he]
    · rw [h.versionOf_other known, h'.versionOf_other known]
  · obtain ⟨new, rows, _, payloads⟩ := h.payloads
    obtain ⟨new', rows', _, payloads'⟩ := h'.payloads
    exact ⟨new, new', rows, rows', payloads.trans payloads'.symm⟩

theorem untouched (h : Applied changedBy batch s t) {k : String × String}
    (new : k ∉ batch.map NormalizedEventCreate.key) : Untouched k s t := by
  obtain ⟨row, history⟩ := h.other k new
  refine ⟨row, fun e found v owner => ?_, ?_⟩
  · have same := history e found v.version
    have key : v.key = (e.id, v.version) := Prod.ext owner rfl
    constructor
    · intro hv
      rw [Table.find_eq_some_iff.mpr ⟨hv, key⟩] at same
      exact (Table.find_eq_some_iff.mp same.symm).1
    · intro hv
      rw [Table.find_eq_some_iff.mpr ⟨hv, key⟩] at same
      exact (Table.find_eq_some_iff.mp same).1
  · obtain ⟨added, rows, keys, _⟩ := h.payloads
    rw [rows, List.filter_append, List.append_right_eq_self, List.filter_eq_nil_iff]
    intro o ho own
    rw [decide_eq_true_eq] at own
    exact new (own ▸ keys.mem_iff.mp (List.mem_map_of_mem ho))

end Applied

/-- A batch leaves what its events leave one by one, in any order: the same rows, history and
outbox payloads. Nothing else is touched. -/
theorem upsertEventsBulk_eq_each {events seq : List NormalizedEventCreate}
    {changedBy : Option String} {σ σ' τ υ : State Unit} {results : List NormalizedEvent}
    (keys : σ.store.KeysHold) (same : σ'.store = σ.store) (order : FirstOccurrences events seq)
    (bulk : postgres.Completes () (upsertTransaction events changedBy) σ results τ)
    (each : postgres.Completes () (upsertEach seq changedBy) σ' () υ) :
    SameFrom σ.store τ.store υ.store ∧
      ∀ k, k ∉ events.map NormalizedEventCreate.key →
        Untouched k σ.store τ.store ∧ Untouched k σ.store υ.store := by
  obtain ⟨p, upserted, _, store, _⟩ := upsertTransaction_completes keys.ids bulk
  have atOnce := upserted.applied keys
  have atOnceKeys := upserted.keysHold keys
  rw [← store] at atOnce atOnceKeys
  obtain ⟨single, singleKeys⟩ := upsertEach_completes order.once (same ▸ keys) each
  rw [same] at single
  have inOrder := atOnce.perm order.perm
  refine ⟨inOrder.sameFrom single atOnceKeys singleKeys, fun k new => ?_⟩
  have other : k ∉ seq.map NormalizedEventCreate.key := by
    rw [← (order.perm.map _).mem_iff, mem_deduped_key]
    exact new
  exact ⟨inOrder.untouched other, single.untouched other⟩

/-- Another commit. -/
def otherCommit : NormalizedEventCreate := { sampleCommit "Add tests" with externalId := "def456" }

/-- A batch that has the first commit twice. -/
def repeatingBatch : List NormalizedEventCreate :=
  [sampleCommit "draft", otherCommit, sampleCommit "final"]

def bulkScript : List (Move Exn Choice) :=
  [.step (.time 0), .step .none, .step (.draw 10 0), .step (.draw 11 0), .step .none, .step .none,
    .step .none, .step .none, .step (.draw 12 0), .step .none, .step (.draw 13 0),
    .step (.draws [(14, 0), (15, 0)]), .step .none]

def eachScript : List (Move Exn Choice) :=
  (createScript 20).dropLast ++ createScript 30

/-- Upserted at once or one by one in the other order, the commits are the same. -/
theorem upsertEventsBulk_eq_each_repeating :
    ∃ results τ υ, postgres.outcome () bulkScript (upsertTransaction repeatingBatch none)
        ⟨{}, ∅, []⟩ = some (results, τ) ∧
      postgres.outcome () eachScript (upsertEach [otherCommit, sampleCommit "draft"] none)
        ⟨{}, ∅, []⟩ = some ((), υ) ∧
      τ.store.normalizedEvents.rows.map NormalizedEvent.content = ["draft", "Add tests"] ∧
        SameFrom ∅ τ.store υ.store := by
  have bulk : (postgres.outcome () bulkScript (upsertTransaction repeatingBatch none)
      ⟨{}, ∅, []⟩).map (fun r => r.2.store.normalizedEvents.rows.map NormalizedEvent.content) =
        some ["draft", "Add tests"] := by decide +kernel
  have each : ((postgres.outcome () eachScript
      (upsertEach [otherCommit, sampleCommit "draft"] none) ⟨{}, ∅, []⟩).map (fun _ => true)) =
        some true := by decide +kernel
  obtain ⟨⟨results, τ⟩, run, contents⟩ := Option.map_eq_some_iff.mp bulk
  obtain ⟨⟨⟨⟩, υ⟩, run', _⟩ := Option.map_eq_some_iff.mp each
  have order : FirstOccurrences repeatingBatch [otherCommit, sampleCommit "draft"] := by
    refine ⟨by decide, fun e => ⟨fun he => ?_, fun found => ?_⟩⟩
    · rcases List.mem_pair.mp he with rfl | rfl <;> decide
    · have he := List.mem_of_find?_eq_some found
      simp only [repeatingBatch, List.mem_cons, List.not_mem_nil, or_false] at he
      rcases he with rfl | rfl | rfl
      · decide
      · decide
      · exact absurd found (by decide)
  have keys : (∅ : Store).KeysHold := Upserts.keysHold rfl (@Upserts.none ⟨{}, ∅, []⟩)
  exact ⟨results, τ, υ, run, run', contents, (upsertEventsBulk_eq_each keys rfl order
    (Engine.completes_of_outcome run) (Engine.completes_of_outcome run')).1⟩

end OmniSync
