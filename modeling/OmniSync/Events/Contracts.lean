import OmniSync.Events.Changes
import OmniSync.Events.History

/-!
# The contract version of an event

Every upsert stores the `schema_version` that it submits, and the outbox row of the upsert
carries it. A snapshot is only taken of a new version, so the history keeps the one that was
submitted when the content was stored first: `contract_versions`. They agree as long as nobody
submits the content again under another contract.
-/

namespace OmniSync

open Txn

/-- The submissions under a key: the first one of each batch. -/
def submissions (calls : List (List NormalizedEventCreate)) (k : String × String) :
    List NormalizedEventCreate :=
  calls.filterMap (fun events => events.find? (fun e => decide (e.key = k)))

/-- The origin of the current version, when `e` is submitted after it. -/
def supersede (origin : Option NormalizedEventCreate) (e : NormalizedEventCreate) :
    Option NormalizedEventCreate :=
  if origin.map NormalizedEventCreate.content = some e.content then origin else some e

/-- The first one of the last submissions in a row that have one content. -/
def originOf (subs : List NormalizedEventCreate) : Option NormalizedEventCreate :=
  subs.foldl supersede none

theorem originOf_concat (subs : List NormalizedEventCreate) (e : NormalizedEventCreate) :
    originOf (subs ++ [e]) = supersede (originOf subs) e := by
  rw [originOf, List.foldl_append]
  rfl

/-- The outbox rows of an event, in the order in which they were inserted. -/
def Store.outboxOf (s : Store) (id : Uuid) : List OutboxEvent :=
  s.outboxEvents.rows.filter (fun o => decide (o.aggregateId = id))

/-- The event, the history row of its version and its latest outbox payload have one contract
version. -/
def ContractAgrees (s : Store) (e : NormalizedEvent) : Prop :=
  (∃ v ∈ s.eventVersions, v.key = (e.id, e.version) ∧ v.schemaVersion = e.schemaVersion) ∧
    ∃ o, (s.outboxOf e.id).getLast? = some o ∧ o.payload.schemaVersion = e.schemaVersion

/-- Where the contract versions of an event come from. -/
structure ContractOf (s : Store) (e : NormalizedEvent) (subs : List NormalizedEventCreate) :
    Prop where
  last : ∃ last, subs.getLast? = some last ∧ e.schemaVersion = last.schemaVersion
  outbox : ∃ o, (s.outboxOf e.id).getLast? = some o ∧ o.payload.schemaVersion = e.schemaVersion
  origin : ∃ first, originOf subs = some first ∧ first.content = e.content ∧
    ∃ v ∈ s.eventVersions, v.key = (e.id, e.version) ∧ v.schemaVersion = first.schemaVersion

/-- The submissions that have led to the store are `subs`. -/
structure Contracts (s : Store) (subs : String × String → List NormalizedEventCreate) : Prop where
  event : ∀ e ∈ s.normalizedEvents, ContractOf s e (subs e.key)
  absent : ∀ k, s.normalizedEvents.find k = none → subs k = []

section Step

variable {s : Store} {past : String × String → List String}
variable {subs : String × String → List NormalizedEventCreate}
variable {events : List NormalizedEventCreate} {changedBy : Option String} {p : UpsertPlan}

/-- The outbox rows of an event that is stored end with the one of the upsert. -/
theorem outboxOf_stored (upserted : UpsertedAlone s events changedBy p) {row : NormalizedEvent}
    (hr : row ∈ p.rows) : ∃ o, ((postgres.view s p.writes).outboxOf row.id).getLast? = some o ∧
      o.payload.schemaVersion = row.schemaVersion := by
  obtain ⟨o, ho, id, t, rfl⟩ := upserted.outbox.exists_right hr
  have own : p.outbox.filter (fun o => decide (o.aggregateId = row.id)) ≠ [] :=
    List.ne_nil_of_mem (List.mem_filter.mpr ⟨ho, decide_eq_true rfl⟩)
  obtain ⟨last, latest⟩ := Option.isSome_iff_exists.mp (List.getLast?_isSome.mpr own)
  refine ⟨last, ?_, ?_⟩
  · rw [Store.outboxOf, outbox_after upserted.committing, List.filter_append,
      List.getLast?_append_of_ne_nil _ own]
    exact latest
  · obtain ⟨member, owner⟩ := List.mem_filter.mp (List.mem_of_getLast? latest)
    obtain ⟨row', hr', id', t', rfl⟩ := upserted.outbox.exists_left member
    rw [upserted.committing.eq_of_id hr' hr (of_decide_eq_true owner)]
    rfl

/-- The outbox rows of an event that the batch does not touch. -/
theorem outboxOf_untouched (upserted : UpsertedAlone s events changedBy p) {e : NormalizedEvent}
    (he : e ∈ s.normalizedEvents) (free : ∀ row ∈ p.rows, row.key ≠ e.key) :
    (postgres.view s p.writes).outboxOf e.id = s.outboxOf e.id := by
  have none : p.outbox.filter (fun o => decide (o.aggregateId = e.id)) = [] := by
    apply List.filter_eq_nil_iff.mpr
    intro o ho owner
    obtain ⟨row, _, id, t, rfl⟩ := upserted.committing.exists_enqueued ho
    exact upserted.committing.not_enqueued he free ho (of_decide_eq_true owner)
  rw [Store.outboxOf, outbox_after upserted.committing, List.filter_append, none, List.append_nil]
  rfl

/-- A version that the history does not have is recorded with the contract of its event. -/
theorem Histories.snapshot_new (h : Histories s past)
    (upserted : UpsertedAlone s events changedBy p) {row : NormalizedEvent} (hr : row ∈ p.rows)
    (fresh : ∀ c, ¬ HistoryRow s row.id row.version c) :
    ∃ v ∈ (postgres.view s p.writes).eventVersions, v.key = (row.id, row.version) ∧
      v.schemaVersion = row.schemaVersion := by
  obtain ⟨v, key, old | before | new⟩ := upserted.recorded row hr
  · exact (fresh v.content ⟨v, old, key, rfl⟩).elim
  · rw [h.before_eq_nil upserted] at before
    cases before
  · refine ⟨v, upserted.committing.mem_versions.mpr (.inr (.inr new)), key, ?_⟩
    obtain ⟨row', hr', id, t, rfl⟩ := upserted.snapshots v new
    rw [upserted.committing.eq_of_id hr' hr (congrArg Prod.fst key)]
    rfl

/-- The contract versions of a stored event. -/
theorem Contracts.stored (h : Contracts s subs) (history : Histories s past)
    (upserted : UpsertedAlone s events changedBy p) {e : NormalizedEventCreate}
    {row : NormalizedEvent} (hr : row ∈ p.rows) (stored : StoredFor s e row) :
    ContractOf (postgres.view s p.writes) row (subs e.key ++ [e]) := by
  refine ⟨⟨e, List.getLast?_concat, stored.schemaVersion⟩, outboxOf_stored upserted hr, ?_⟩
  rw [originOf_concat, supersede]
  have version := stored.version
  -- A version that is new has `e` as its origin.
  have new : (∀ c, ¬ HistoryRow s row.id row.version c) → ∃ first, some e = some first ∧
      first.content = row.content ∧ ∃ v ∈ (postgres.view s p.writes).eventVersions,
        v.key = (row.id, row.version) ∧ v.schemaVersion = first.schemaVersion := by
    intro fresh
    obtain ⟨v, hv, key, contract⟩ := history.snapshot_new upserted hr fresh
    exact ⟨e, rfl, stored.content.symm, v, hv, key, contract.trans stored.schemaVersion⟩
  cases found : s.normalizedEvents.find e.key with
  | none =>
      rw [h.absent e.key found, if_neg (by intro impossible; cases impossible)]
      exact new (history.no_history upserted hr (stored.key ▸ found) _)
  | some existing =>
      obtain ⟨member, key⟩ := Table.find_eq_some_iff.mp found
      obtain ⟨first, origin, content, v, hv, at', contract⟩ := (key ▸ h.event existing member).origin
      have id := stored.id existing found
      rw [found] at version
      rw [origin, Option.map_some, content]
      by_cases same : existing.content = e.content
      · have kept : row.version = existing.version := version.trans (if_neg (not_not.mpr same))
        rw [if_pos (congrArg some same)]
        refine ⟨first, rfl, content.trans (same.trans stored.content.symm), v, ?_, ?_, contract⟩
        · exact upserted.committing.mem_versions.mpr (.inl hv)
        · rw [at', id, kept]
      · have next : row.version = existing.version + 1 := version.trans (if_pos same)
        rw [if_neg (fun eq => same (Option.some.inj eq))]
        apply new
        intro c present
        rw [id, (history.event existing member).rows, next, Nat.add_sub_cancel,
          ← (history.event existing member).length] at present
        simp at present

/-- One upsert adds a submission to each key of its batch. -/
theorem Contracts.step (h : Contracts s subs) (history : Histories s past)
    (upserted : UpsertedAlone s events changedBy p) :
    Contracts (postgres.view s p.writes)
      (fun k => subs k ++ (events.find? (fun e => decide (e.key = k))).toList) where
  event x hx := by
    rcases upserted.committing.mem_events.mp hx with new | ⟨old, free⟩
    · obtain ⟨e, he, stored⟩ := upserted.exists_event new
      rw [stored.key, find_of_mem_deduped he]
      exact h.stored history upserted new stored
    · have none : events.find? (fun e => decide (e.key = x.key)) = none := by
        apply find_eq_none_of_deduped
        intro e he same
        obtain ⟨row, hr, stored⟩ := upserted.exists_row he
        exact free row hr (stored.key.trans same)
      obtain ⟨last, outbox, first, origin, content, v, hv, key, contract⟩ := h.event x old
      rw [none, Option.toList_none, List.append_nil]
      refine ⟨last, ?_, first, origin, content, v, ?_, key, contract⟩
      · rw [outboxOf_untouched upserted old free]
        exact outbox
      · exact upserted.committing.mem_versions.mpr (.inl hv)
  absent k missing := by
    rw [Table.find_eq_none_iff] at missing
    have none : events.find? (fun e => decide (e.key = k)) = none := by
      apply find_eq_none_of_deduped
      intro e he same
      obtain ⟨row, hr, stored⟩ := upserted.exists_row he
      exact missing row (upserted.committing.mem_events.mpr (.inl hr)) (stored.key.trans same)
    rw [none, Option.toList_none, List.append_nil]
    apply h.absent k
    apply Table.find_eq_none_iff.mpr
    intro x hx same
    obtain ⟨y, hy, key⟩ := exists_mem_view_of_mem p.writes hx
    exact missing y hy (key.trans same)

end Step

theorem Upserts.contracts {σ τ : State Unit} {calls : List (List NormalizedEventCreate)}
    (empty : σ.store = ∅) (run : Upserts σ calls τ) : Contracts τ.store (submissions calls) := by
  induction run with
  | none =>
      rw [empty]
      exact ⟨fun _ he => (List.not_mem_nil he).elim, fun _ _ => rfl⟩
  | @call calls φ υ events changedBy results before completes ih =>
      have history := before.histories empty
      obtain ⟨p, upserted, _, store, _⟩ := upsertTransaction_completes history.unique completes
      have next := ih.step history upserted
      rw [← store] at next
      convert next using 2 with k
      rw [submissions, List.filterMap_append]
      cases first : events.find? (fun e => decide (e.key = k)) <;> simp [submissions, first]

/-- After any committed upserts into an empty database an event and its latest outbox payload
have the contract version that was submitted last, and the history has the one with which the
current content was stored first. So all three agree exactly if these two are the same. -/
theorem contract_versions {σ τ : State Unit} {calls : List (List NormalizedEventCreate)}
    (empty : σ.store = ∅) (run : Upserts σ calls τ) (e : NormalizedEvent)
    (he : e ∈ τ.store.normalizedEvents) :
    ∃ first last, originOf (submissions calls e.key) = some first ∧
      (submissions calls e.key).getLast? = some last ∧ e.schemaVersion = last.schemaVersion ∧
      (∃ o, (τ.store.outboxOf e.id).getLast? = some o ∧
        o.payload.schemaVersion = last.schemaVersion) ∧
      (∃ v ∈ τ.store.eventVersions, v.key = (e.id, e.version) ∧
        v.schemaVersion = first.schemaVersion) ∧
      (ContractAgrees τ.store e ↔ first.schemaVersion = last.schemaVersion) := by
  obtain ⟨⟨last, latest, own⟩, ⟨o, newest, carried⟩, first, origin, _, v, hv, key, recorded⟩ :=
    (run.contracts empty).event e he
  refine ⟨first, last, origin, latest, own, ⟨o, newest, carried.trans own⟩,
    ⟨v, hv, key, recorded⟩, ?_⟩
  constructor
  · rintro ⟨⟨v', hv', key', same⟩, _⟩
    rw [Table.eq_of_key_eq hv' hv (key'.trans key.symm), recorded] at same
    exact same.trans own
  · intro same
    exact ⟨⟨v, hv, key, recorded.trans (same.trans own.symm)⟩, o, newest, carried⟩

/-- The same content under the next contract. -/
def bumpedCommit : NormalizedEventCreate := { sampleCommit "draft" with schemaVersion := 2 }

/-- A commit is stored and then submitted under the next contract. -/
def contractBump : Option (State Unit) := do
  let (_, stored) ← postgres.outcome () (createScript 10)
    (upsertTransaction [sampleCommit "draft"] none) ⟨{}, ∅, []⟩
  let (_, bumped) ← postgres.outcome () (resubmitScript 20)
    (upsertTransaction [bumpedCommit] none) stored
  return bumped

theorem upserts_of_contractBump {τ : State Unit} (h : contractBump = some τ) :
    Upserts ⟨{}, ∅, []⟩ [[sampleCommit "draft"], [bumpedCommit]] τ := by
  simp only [contractBump, Option.bind_eq_bind, Option.bind_eq_some_iff, Prod.exists,
    Option.pure_def, Option.some.injEq] at h
  obtain ⟨_, stored, first, _, bumped, second, rfl⟩ := h
  exact (Upserts.none.call (Engine.completes_of_outcome first)).call
    (Engine.completes_of_outcome second)

/-- The event has the next contract version, and its history does not. -/
theorem contractBump_disagrees :
    ∃ τ, Upserts ⟨{}, ∅, []⟩ [[sampleCommit "draft"], [bumpedCommit]] τ ∧
      ∃ e ∈ τ.store.normalizedEvents, ¬ ContractAgrees τ.store e := by
  have shape : contractBump.map (fun τ => (τ.store.normalizedEvents.rows.map
      NormalizedEvent.schemaVersion, τ.store.eventVersions.rows.map EventVersion.schemaVersion)) =
        some ([2], [1]) := by decide +kernel
  obtain ⟨τ, run, rows⟩ := Option.map_eq_some_iff.mp shape
  obtain ⟨events, versions⟩ := Prod.mk.inj rows
  obtain ⟨e, one, event⟩ := List.map_eq_singleton_iff.mp events
  obtain ⟨v, only, version⟩ := List.map_eq_singleton_iff.mp versions
  have member : e ∈ τ.store.normalizedEvents := by
    rw [Table.mem_def, one]
    exact List.mem_singleton.mpr rfl
  refine ⟨τ, upserts_of_contractBump run, e, member, ?_⟩
  rintro ⟨⟨v', hv', _, same⟩, _⟩
  rw [Table.mem_def, only, List.mem_singleton] at hv'
  rw [hv', version, event] at same
  exact absurd same (by decide)

/-- After the contract of a commit was bumped, the history still has the first version. -/
theorem contract_versions_bumped :
    ∃ τ, contractBump = some τ ∧ ∃ e ∈ τ.store.normalizedEvents, e.key = ("github", "abc123") ∧
      ∃ first last : NormalizedEventCreate, originOf (submissions [[sampleCommit "draft"], [bumpedCommit]] e.key) =
        some first ∧ (ContractAgrees τ.store e ↔ first.schemaVersion = last.schemaVersion) ∧
          e.schemaVersion = last.schemaVersion := by
  have shape : contractBump.map (fun τ => τ.store.normalizedEvents.rows.map
      NormalizedEvent.key) = some [("github", "abc123")] := by decide +kernel
  obtain ⟨τ, run, rows⟩ := Option.map_eq_some_iff.mp shape
  obtain ⟨e, one, key⟩ := List.map_eq_singleton_iff.mp rows
  have member : e ∈ τ.store.normalizedEvents := by
    rw [Table.mem_def, one]
    exact List.mem_singleton.mpr rfl
  obtain ⟨first, last, origin, _, own, _, _, agrees⟩ :=
    contract_versions rfl (upserts_of_contractBump run) e member
  exact ⟨τ, run, e, member, key, first, last, origin, agrees, own⟩

end OmniSync
