import OmniSync.Events.Serial
import OmniSync.Outbox.Verification

/-!
# What the vector index holds

Upserts and publication passes run one after the other. `Indexed` relates the outbox
and the index: once a row with the current version of an event is published, the index
has the current content of the event. A pass keeps this as long as it does not deliver
an older content of such an event, `NotSuperseded`. A row whose delivery has failed
stays pending while newer rows of its event are published, and is delivered later:
`index_outdated`.
-/

namespace OmniSync

open Txn

/-- Publication has caught up with the current versions: rows belong to events, carry
the version that has their content, and a published row of the current version means
that the index has its content. -/
structure Indexed (s : Store) (index : Uuid → Option IndexPoint) : Prop where
  known : ∀ o ∈ s.outboxEvents, ∃ e ∈ s.normalizedEvents, e.id = o.payload.eventId
  versions : ∀ e ∈ s.normalizedEvents, ∀ o ∈ s.outboxEvents, o.payload.eventId = e.id →
    o.payload.version ≤ e.version ∧
      (o.payload.version = e.version → o.payload.content = e.content)
  index : ∀ e ∈ s.normalizedEvents, ∀ o ∈ s.outboxEvents, o.payload.eventId = e.id →
    o.payload.version = e.version → o.status = .published →
      ∃ point ∈ index e.id, point.embedded = e.content

/-- A delivery has the current content of its event, unless no row of the current
version is published. -/
def Fresh (s : Store) (eventId : Uuid) (content : String) : Prop :=
  ∀ e ∈ s.normalizedEvents.rows, e.id = eventId → content = e.content ∨
    ∀ o ∈ s.outboxEvents.rows, o.payload.eventId = eventId → o.payload.version = e.version →
      o.status ≠ .published

instance (s : Store) (eventId : Uuid) (content : String) : Decidable (Fresh s eventId content) :=
  inferInstanceAs (Decidable (∀ e ∈ s.normalizedEvents.rows, e.id = eventId →
    content = e.content ∨ ∀ o ∈ s.outboxEvents.rows, o.payload.eventId = eventId →
      o.payload.version = e.version → o.status ≠ .published))

/-- What a statement delivers to the vector index. -/
def Stmt.delivery : Stmt → Option (Uuid × IndexPoint)
  | .qdrantUpsert eventId point => some (eventId, point)
  | _ => none

/-- A pass delivers no older content of an event of which a row with the current
version is published, by an earlier pass or by itself. -/
def NotSuperseded (s : Stmt) (σ : State Unit) (ws : List Write) : Prop :=
  ∀ d ∈ s.delivery, Fresh (postgres.view σ.store ws) d.1 d.2.embedded

instance (s : Stmt) (σ : State Unit) (ws : List Write) : Decidable (NotSuperseded s σ ws) :=
  inferInstanceAs (Decidable (∀ d ∈ s.delivery, Fresh (postgres.view σ.store ws) d.1 d.2.embedded))

namespace Indexed

variable {s : Store} {index : Uuid → Option IndexPoint}

theorem deliver (h : Indexed s index) {eventId : Uuid} {point : IndexPoint}
    (fresh : Fresh s eventId point.embedded) :
    Indexed s (Function.update index eventId (some point)) where
  known := h.known
  versions := h.versions
  index e he o ho owner current published := by
    by_cases same : e.id = eventId
    · subst same
      rw [Function.update_self]
      rcases fresh e he rfl with content | unpublished
      · exact ⟨point, rfl, content⟩
      · exact (unpublished o ho owner current published).elim
    · rw [Function.update_of_ne same]
      exact h.index e he o ho owner current published

/-- A row keeps what it carries; it may be marked as published once it is delivered. -/
theorem patch (h : Indexed s index) {id : Uuid} {p : OutboxPatch}
    (delivered : p.status = some .published → ∀ o ∈ s.outboxEvents, o.id = id →
      ∃ point ∈ index o.payload.eventId, point.embedded = o.payload.content) :
    Indexed (s.put (.patchOutbox id p)) index where
  known o ho := by
    obtain ⟨o', old, rfl⟩ := Store.mem_put_patchOutbox.mp ho
    obtain ⟨e, he, owner⟩ := h.known o' old
    refine ⟨e, he, owner.trans ?_⟩
    split <;> rfl
  versions e he o ho owner := by
    obtain ⟨o', old, rfl⟩ := Store.mem_put_patchOutbox.mp ho
    by_cases own : o'.id = id
    · rw [if_pos own] at owner ⊢
      exact h.versions e he o' old owner
    · rw [if_neg own] at owner ⊢
      exact h.versions e he o' old owner
  index e he o ho owner current published := by
    obtain ⟨o', old, rfl⟩ := Store.mem_put_patchOutbox.mp ho
    by_cases own : o'.id = id
    · rw [if_pos own] at owner current published
      obtain ⟨_, content⟩ := h.versions e he o' old owner
      cases status : p.status with
      | none =>
          have before : o'.status = .published := by
            simpa [OutboxEvent.patch, status] using published
          exact h.index e he o' old owner current before
      | some status' =>
          have now : status' = .published := by
            simpa [OutboxEvent.patch, status] using published
          obtain ⟨point, found, embedded⟩ := delivered (by rw [status, now]) o' old own
          have owner' : o'.payload.eventId = e.id := owner
          exact ⟨point, owner' ▸ found, embedded.trans (content current)⟩
    · rw [if_neg own] at owner current published
      exact h.index e he o' old owner current published

end Indexed

section Upsert

variable {s : Store} {events : List NormalizedEventCreate} {changedBy : Option String}
variable {p : UpsertPlan} {index : Uuid → Option IndexPoint}

/-- An upsert that changes the content of an event raises its version. -/
theorem UpsertedAlone.advances (h : UpsertedAlone s events changedBy p) {row x : NormalizedEvent}
    (hr : row ∈ p.rows) (hx : x ∈ s.normalizedEvents) (same : x.id = row.id) :
    x.version < row.version ∨ (row.version = x.version ∧ row.content = x.content) := by
  obtain ⟨e, _, stored⟩ := h.exists_event hr
  have key := (h.committing.key_eq_iff hr hx).mpr same
  have found : s.normalizedEvents.find e.key = some x :=
    Table.find_eq_some_iff.mpr ⟨hx, key.trans stored.key⟩
  have version := stored.version
  rw [found] at version
  by_cases changed : x.content ≠ e.content
  · have next : row.version = x.version + 1 := version.trans (if_pos changed)
    exact .inl (next ▸ Nat.lt_succ_self _)
  · have kept : row.version = x.version := version.trans (if_neg changed)
    exact .inr ⟨kept, stored.content.trans (not_not.mp changed).symm⟩

theorem UpsertedAlone.indexed (h : UpsertedAlone s events changedBy p) (indexed : Indexed s index) :
    Indexed (postgres.view s p.writes) index where
  known := h.committing.known indexed.known
  versions e he o ho owner := by
    rcases h.committing.mem_outbox.mp ho with old | new
    · rcases h.committing.mem_events.mp he with stored | ⟨before, _⟩
      · obtain ⟨x, hx, owner'⟩ := indexed.known o old
        obtain ⟨le, content⟩ := indexed.versions x hx o old owner'.symm
        rcases h.advances stored hx (owner'.trans owner) with raised | ⟨version, same⟩
        · exact ⟨le.trans raised.le, fun current => absurd current (by omega)⟩
        · exact ⟨version ▸ le, fun current => (content (current.trans version)).trans same.symm⟩
      · exact indexed.versions e before o old owner
    · rcases h.committing.mem_events.mp he with stored | ⟨before, free⟩
      · obtain ⟨row, hr, id, t, rfl⟩ := h.committing.exists_enqueued new
        have same : row = e := h.committing.eq_of_id hr stored owner
        subst same
        exact ⟨le_refl _, fun _ => rfl⟩
      · exact (h.committing.not_enqueued before free new owner).elim
  index e he o ho owner current published := by
    rcases h.committing.mem_outbox.mp ho with old | new
    · rcases h.committing.mem_events.mp he with stored | ⟨before, _⟩
      · obtain ⟨x, hx, owner'⟩ := indexed.known o old
        have same := owner'.trans owner
        obtain ⟨le, _⟩ := indexed.versions x hx o old owner'.symm
        rcases h.advances stored hx same with raised | ⟨version, content⟩
        · omega
        · obtain ⟨point, found, embedded⟩ :=
            indexed.index x hx o old owner'.symm (current.trans version) published
          exact ⟨point, same ▸ found, embedded.trans content.symm⟩
      · exact indexed.index e before o old owner current published
    · obtain ⟨row, _, id, t, rfl⟩ := h.committing.exists_enqueued new
      cases published

end Upsert

section Pass

/-- The invariant of the store and the index. -/
def Consistent (σ : State Unit) : Prop :=
  σ.store.EventIdsUnique ∧ Indexed σ.store σ.world.index

/-- The protocol of a publication pass. -/
def publishing : Protocol postgres Unit := alone Consistent NotSuperseded

theorem hosts_publishing : Hosts publishing := hosts_alone (fun _ _ inv => inv)

/-- The protocol of an upsert between the passes. -/
def enqueuing : Protocol postgres Unit := alone Consistent (fun _ _ _ => True)

theorem hosts_enqueuing : Hosts enqueuing := hosts_alone (fun _ _ inv => inv)

/-- A pass over the committed store `s` sees `view` and has the rows `rest` still to
deliver. -/
structure Passing (s view : Store) (index : Uuid → Option IndexPoint) (rest : List OutboxEvent) :
    Prop where
  committed : Indexed s index
  pending : Indexed view index
  events : view.normalizedEvents = s.normalizedEvents
  published : ∀ o ∈ s.outboxEvents, o.status = .published → o ∈ view.outboxEvents
  remaining : ∀ o ∈ rest, o ∈ view.outboxEvents ∧ o.status = .pending
  once : (rest.map OutboxEvent.id).Nodup

namespace Passing

variable {s view : Store} {index : Uuid → Option IndexPoint} {o : OutboxEvent}
variable {rest : List OutboxEvent}

theorem deliver (h : Passing s view index rest) {eventId : Uuid} {point : IndexPoint}
    (fresh : Fresh view eventId point.embedded) :
    Passing s view (Function.update index eventId (some point)) rest := by
  refine ⟨h.committed.deliver ?_, h.pending.deliver fresh, h.events, h.published, h.remaining, h.once⟩
  intro e he same
  refine (fresh e (h.events ▸ he) same).imp id (fun unpublished o ho owner current status => ?_)
  exact unpublished o (h.published o ho status) owner current status

theorem patch (h : Passing s view index (o :: rest)) {p : OutboxPatch}
    (delivered : p.status = some .published →
      ∃ point ∈ index o.payload.eventId, point.embedded = o.payload.content) :
    Passing s (view.put (.patchOutbox o.id p)) index rest := by
  obtain ⟨own, pending⟩ := h.remaining o (by simp)
  obtain ⟨new, once⟩ := List.nodup_cons.mp h.once
  have keep : ∀ o' ∈ view.outboxEvents, o'.id ≠ o.id →
      o' ∈ (view.put (.patchOutbox o.id p)).outboxEvents := fun o' ho' other =>
    Store.mem_put_patchOutbox.mpr ⟨o', ho', (if_neg other).symm⟩
  refine ⟨h.committed, h.pending.patch ?_, h.events, ?_, ?_, once⟩
  · intro status o' ho' same
    rw [Table.eq_of_key_eq ho' own same]
    exact delivered status
  · intro o' ho' status
    refine keep o' (h.published o' ho' status) (fun same => ?_)
    rw [Table.eq_of_key_eq (h.published o' ho' status) own same, pending] at status
    cases status
  · intro o' ho'
    obtain ⟨here, still⟩ := h.remaining o' (by simp [ho'])
    exact ⟨keep o' here (fun same => new (List.mem_map.mpr ⟨o', ho', same⟩)), still⟩

end Passing

variable {σ τ : State Unit} {ws : List Write} {o : OutboxEvent} {rest : List OutboxEvent}

/-- The state of a pass in a session. -/
def PassingAt (rest : List OutboxEvent) (σ : State Unit) (ws : List Write) : Prop :=
  Passing σ.store (postgres.view σ.store ws) σ.world.index rest

theorem PassingAt.interfere (h : PassingAt rest σ ws) (rely : publishing.rely ws σ τ) :
    PassingAt rest τ ws := by
  have index : τ.world.index = σ.world.index := by rw [(alone_world rely).2]
  rw [PassingAt, alone_store rely, index]
  exact h

theorem PassingAt.wp_publishRow {settings : Settings} {published : Nat}
    (passing : PassingAt (o :: rest) σ ws) :
    wp publishing () (publishRow settings published o)
      (Post.andThen (β := Nat) (fun _ _ _ => True) (fun _ => PassingAt rest)) σ ws := by
  refine OmniSync.wp_publishRow hosts_publishing ?_ ?_
  · intro τ error rely _
    rw [Post.andThen_ok, PassingAt, view_concat]
    refine (passing.interfere rely).patch (fun status => ?_)
    simp only [failedPatch] at status
    split at status <;> cases status
  · intro τ rely inv admitted
    have delivered : PassingAt (o :: rest) (withPoint τ o.payload.eventId o.payload.point) ws :=
      Passing.deliver (passing.interfere rely) (admitted (_, o.payload.point) rfl)
    refine ⟨alone_guarantees ⟨inv.1, delivered.committed⟩, ?_⟩
    intro υ now rely' _
    rw [Post.andThen_ok, PassingAt, view_concat]
    refine Passing.patch (delivered.interfere rely') (fun _ => ⟨o.payload.point, ?_, rfl⟩)
    have index : υ.world.index = (withPoint τ o.payload.eventId o.payload.point).world.index := by
      rw [(alone_world rely').2]
    rw [index, withPoint_index, Function.update_self]
    rfl

theorem wp_publishOutbox {settings : Settings} :
    wp publishing () (publishOutbox settings) (fun _ _ _ => True) σ [] := by
  unfold publishOutbox fetchPending
  rw [wp_bind]
  refine wp_selectPending hosts_publishing (fun τ rely inv => ⟨fun _ => trivial, ?_⟩)
  intro locked rows selected
  have passing : PassingAt rows τ (rows.map (fun o => .lockOutbox o.id)) := by
    rw [PassingAt, view_lockOutbox]
    refine ⟨inv.2, inv.2, rfl, fun _ ho _ => ho, ?_, selected.nodup⟩
    intro o ho
    obtain ⟨member, pending⟩ := List.mem_filter.mp (selected.mem o ho)
    simp only [Bool.and_eq_true, decide_eq_true_eq] at pending
    exact ⟨member, pending.1⟩
  rw [Post.andThen_ok, wp_bind, List.nil_append]
  refine wp_foldlM (fun _ rest => PassingAt rest) ?_ ?_ 0 rows passing
  · intro published o rest φ ws passing
    exact wp_mono passing.wp_publishRow (fun r _ _ post => by cases r <;> exact post)
  · intro published φ ws passing
    rw [Post.andThen_ok, wp_bind, wp_commitWork]
    intro υ rely inv
    refine ⟨fun _ => trivial, alone_guarantees ⟨?_, (passing.interfere rely).pending⟩, trivial⟩
    intro x hx y hy same
    have events := (passing.interfere rely).events
    exact inv.1 x (events ▸ hx) y (events ▸ hy) same

end Pass

/-- Upserts and publication passes, one after the other. Each may end at any point:
what it has not committed by then is lost. -/
inductive PublishRun (settings : Settings) (admits : Stmt → State Unit → List Write → Prop)
    (start : State Unit) : State Unit → Prop where
  | start : PublishRun settings admits start start
  | upsert {events : List NormalizedEventCreate} {changedBy : Option String} {σ τ : State Unit}
      {session : TxSession (List NormalizedEvent)} : PublishRun settings admits start σ →
        postgres.Solo (fun _ _ _ => True) () (⟨upsertTransaction events changedBy, []⟩, σ)
          (session, τ) → PublishRun settings admits start τ
  | publish {σ τ : State Unit} {session : TxSession Nat} : PublishRun settings admits start σ →
        postgres.Solo admits () (⟨publishOutbox settings, []⟩, σ) (session, τ) →
          PublishRun settings admits start τ

/-- If no row of an event is pending and a row with its current version is published, the
index has the current content of the event. -/
def IndexCurrent (σ : State Unit) : Prop :=
  ∀ e ∈ σ.store.normalizedEvents.rows,
    (∀ o ∈ σ.store.outboxEvents.rows, o.payload.eventId = e.id → o.status ≠ .pending) →
      (∃ o ∈ σ.store.outboxEvents.rows, o.payload.eventId = e.id ∧
        o.payload.version = e.version ∧ o.status = .published) →
          ∃ point ∈ σ.world.index e.id, point.embedded = e.content

instance (σ : State Unit) : Decidable (IndexCurrent σ) :=
  inferInstanceAs (Decidable (∀ e ∈ σ.store.normalizedEvents.rows,
    (∀ o ∈ σ.store.outboxEvents.rows, o.payload.eventId = e.id → o.status ≠ .pending) →
      (∃ o ∈ σ.store.outboxEvents.rows, o.payload.eventId = e.id ∧
        o.payload.version = e.version ∧ o.status = .published) →
          ∃ point ∈ σ.world.index e.id, point.embedded = e.content))

theorem enqueuing_commits : Commits enqueuing () := by
  intro events changedBy p σ τ υ upserted rely inv
  have store : υ.store = σ.store := (alone_store rely).trans (alone_store upserted.rely)
  have fresh : UpsertedAlone υ.store events changedBy p := store ▸ upserted.alone
  exact alone_guarantees ⟨fresh.pending.eventIdsUnique_view inv.1, fresh.indexed inv.2⟩

/-- The invariant of runs of which no pass delivers a superseded content. -/
theorem PublishRun.consistent {settings : Settings} {σ τ : State Unit}
    (run : PublishRun settings NotSuperseded σ τ)
    (start : Consistent σ) : Consistent τ := by
  induction run with
  | start => exact start
  | upsert _ solo ih =>
      refine (wp_solo enqueuing .trivial ?_ ?_ solo).1
      · exact ih
      · exact wp_upsertTransaction_of_commits hosts_enqueuing (fun _ inv => inv.1)
          enqueuing_commits ih
  | publish _ solo ih =>
      refine (wp_solo publishing .trivial ?_ wp_publishOutbox solo).1
      exact ih

/-- In every run of upserts and passes in which no older content of an event is delivered
once a row of its current version is published, the index is current. -/
theorem index_current {settings : Settings} {σ τ : State Unit} (empty : σ.store = ∅)
    (run : PublishRun settings NotSuperseded σ τ) : IndexCurrent τ := by
  have indexed : Indexed σ.store σ.world.index := by
    rw [empty]
    exact ⟨fun _ ho => (List.not_mem_nil ho).elim, fun _ he => (List.not_mem_nil he).elim,
      fun _ he => (List.not_mem_nil he).elim⟩
  have ids : σ.store.EventIdsUnique := by
    rw [empty]
    exact fun _ hx => (List.not_mem_nil hx).elim
  rintro e he _ ⟨o, ho, owner, current, published⟩
  exact (run.consistent ⟨ids, indexed⟩).2.index e he o ho owner current published

/-- The moves of a pass over the rows `ids`, by the outcomes of their deliveries. -/
def deliverScript (ids : List Uuid) (outcomes : List Bool) : List (Move Exn Choice) :=
  [.step (.rows ids)] ++ outcomes.flatMap (fun up =>
    if up then [.step (.flag true), .step .none, .step (.time 0), .step .none]
    else [.step (.flag false), .step .none]) ++ [.step .none]

/-- Two versions of a commit and three passes: the delivery of the first version fails
twice, that of the second one succeeds in between. -/
def retriedRun : Option (State Unit) := do
  let (_, drafted) ← postgres.drive (fun _ _ _ => True) () (createScript 10)
    (⟨upsertTransaction [sampleCommit "draft"] none, []⟩, ⟨{}, ∅, []⟩)
  let (_, failed) ← postgres.drive (fun _ _ _ => True) () (deliverScript [12] [false])
    (⟨publishOutbox {}, []⟩, drafted)
  let (_, changed) ← postgres.drive (fun _ _ _ => True) () (changeScript 20)
    (⟨upsertTransaction [sampleCommit "final"] none, []⟩, failed)
  let (_, published) ← postgres.drive (fun _ _ _ => True) () (deliverScript [12, 22] [false, true])
    (⟨publishOutbox {}, []⟩, changed)
  let (_, retried) ← postgres.drive (fun _ _ _ => True) () (deliverScript [12] [true])
    (⟨publishOutbox {}, []⟩, published)
  return retried

theorem publishRun_of_retriedRun {τ : State Unit} (h : retriedRun = some τ) :
    PublishRun {} (fun _ _ _ => True) ⟨{}, ∅, []⟩ τ := by
  simp only [retriedRun, Option.bind_eq_bind, Option.bind_eq_some_iff, Prod.exists,
    Option.pure_def, Option.some.injEq] at h
  obtain ⟨_, _, draft, _, _, fail, _, _, change, _, _, pass, _, _, retry, rfl⟩ := h
  exact ((((PublishRun.start.upsert (Engine.solo_of_drive draft)).publish
    (Engine.solo_of_drive fail)).upsert (Engine.solo_of_drive change)).publish
      (Engine.solo_of_drive pass)).publish (Engine.solo_of_drive retry)

/-- Every row is published, and the index has the content of the first version. -/
theorem index_outdated : ∃ τ, PublishRun {} (fun _ _ _ => True) ⟨{}, ∅, []⟩ τ ∧
    ¬ IndexCurrent τ := by
  have shape : retriedRun.map (fun τ => decide (IndexCurrent τ)) = some false := by
    decide +kernel
  obtain ⟨τ, run, outdated⟩ := Option.map_eq_some_iff.mp shape
  exact ⟨τ, publishRun_of_retriedRun run, of_decide_eq_false outdated⟩

/-- A version that is delivered before the next one is stored. -/
def promptRun : Option (State Unit) := do
  let (_, drafted) ← postgres.drive (fun _ _ _ => True) () (createScript 10)
    (⟨upsertTransaction [sampleCommit "draft"] none, []⟩, ⟨{}, ∅, []⟩)
  let (_, published) ← postgres.drive NotSuperseded () (deliverScript [12] [true])
    (⟨publishOutbox {}, []⟩, drafted)
  let (_, changed) ← postgres.drive (fun _ _ _ => True) () (changeScript 20)
    (⟨upsertTransaction [sampleCommit "final"] none, []⟩, published)
  let (_, failed) ← postgres.drive NotSuperseded () (deliverScript [22] [false])
    (⟨publishOutbox {}, []⟩, changed)
  let (_, retried) ← postgres.drive NotSuperseded () (deliverScript [22] [true])
    (⟨publishOutbox {}, []⟩, failed)
  return retried

theorem publishRun_of_promptRun {τ : State Unit} (h : promptRun = some τ) :
    PublishRun {} NotSuperseded ⟨{}, ∅, []⟩ τ := by
  simp only [promptRun, Option.bind_eq_bind, Option.bind_eq_some_iff, Prod.exists,
    Option.pure_def, Option.some.injEq] at h
  obtain ⟨_, _, draft, _, _, pass, _, _, change, _, _, fail, _, _, retry, rfl⟩ := h
  exact ((((PublishRun.start.upsert (Engine.solo_of_drive draft)).publish
    (Engine.solo_of_drive pass)).upsert (Engine.solo_of_drive change)).publish
      (Engine.solo_of_drive fail)).publish (Engine.solo_of_drive retry)

/-- A failed delivery is retried before anything newer is published. -/
theorem index_current_prompt : ∃ τ, promptRun = some τ ∧
    (τ.world.index 10).map IndexPoint.embedded = some "final" ∧ IndexCurrent τ := by
  have shape : promptRun.map (fun τ => (τ.world.index 10).map IndexPoint.embedded) =
      some (some "final") := by decide +kernel
  obtain ⟨τ, run, embedded⟩ := Option.map_eq_some_iff.mp shape
  exact ⟨τ, run, embedded, index_current rfl (publishRun_of_promptRun run)⟩

end OmniSync
