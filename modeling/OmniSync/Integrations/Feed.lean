import Mathlib.Data.Set.Insert
import OmniSync.Integrations.Operations
import OmniSync.Outbox.Replay
import OmniSync.Telegram.Agreement

/-!
# The change feed of the whole system

Any operations interleave. An operation may upsert several batches in one transaction, of which
only the last one may be complete, and the publisher patches rows of the outbox meanwhile. What
the feed shows of a row is never patched, so the feed is treated as the set of what it shows.
`Ready` is the invariant of what is committed; a session is clean when its pending writes would
keep it. Pending events are locked, so a clean session stays clean while others commit.
-/

namespace OmniSync

open Txn

variable {ι : Type}

/-- What the feed shows of a row. -/
def OutboxEvent.entry (o : OutboxEvent) : OutboxPayload × (Time ×ₗ Uuid) := (o.payload, o.position)

theorem OutboxEvent.patch_entry (o : OutboxEvent) (p : OutboxPatch) :
    (o.patch p).entry = o.entry := rfl

/-- What the feed shows. -/
def Store.entries (s : Store) : Set (OutboxPayload × (Time ×ₗ Uuid)) :=
  {x | ∃ o ∈ s.outboxEvents, o.entry = x}

/-- What pending writes add to the feed. -/
def announced (ws : List Write) : Set (OutboxPayload × (Time ×ₗ Uuid)) :=
  {x | ∃ o, .addOutbox o ∈ ws ∧ o.entry = x}

/-- The writes announce only events that they store. -/
def Announcing (ws : List Write) : Prop :=
  ∀ x ∈ announced ws, ∃ row, .putEvent row ∈ ws ∧ row.id = x.1.eventId

section Entries

variable {s : Store} {ws vs : List Write} {x : OutboxPayload × (Time ×ₗ Uuid)}

theorem mem_announced_append : x ∈ announced (ws ++ vs) ↔ x ∈ announced ws ∨ x ∈ announced vs := by
  simp only [announced, Set.mem_ofPred_eq, List.mem_append, or_and_right, exists_or]

theorem announced_of_beside (h : ∀ w ∈ ws, w.Beside) : x ∉ announced ws := by
  rintro ⟨o, ho, -⟩
  exact h _ ho

theorem announcing_of_beside (h : ∀ w ∈ ws, w.Beside) : Announcing ws :=
  fun _ hx => (announced_of_beside h hx).elim

theorem Announcing.append (hw : Announcing ws) (hv : Announcing vs) : Announcing (ws ++ vs) := by
  intro x hx
  rcases mem_announced_append.mp hx with old | new
  · obtain ⟨row, hr, same⟩ := hw x old
    exact ⟨row, List.mem_append_left _ hr, same⟩
  · obtain ⟨row, hr, same⟩ := hv x new
    exact ⟨row, List.mem_append_right _ hr, same⟩

theorem mem_entries_view_of_mem (h : x ∈ s.entries) : x ∈ (postgres.view s ws).entries := by
  obtain ⟨o, ho, rfl⟩ := h
  exact exists_mem_view_outboxEvents OutboxEvent.entry OutboxEvent.patch_entry ws ho

theorem mem_entries_of_mem_view (h : x ∈ (postgres.view s ws).entries) :
    x ∈ s.entries ∨ x ∈ announced ws := by
  obtain ⟨o, ho, rfl⟩ := h
  exact exists_of_mem_view_outboxEvents OutboxEvent.entry OutboxEvent.patch_entry ho

/-- A session sees what it has announced. -/
theorem Pending.mem_entries_view (h : Pending s ws) (own : x ∈ announced ws) :
    x ∈ (postgres.view s ws).entries := by
  obtain ⟨o, ho, rfl⟩ := own
  obtain ⟨first, rest, rfl⟩ := List.append_of_mem ho
  rw [postgres.view_append, view_cons]
  refine mem_entries_view_of_mem ⟨o, ?_, rfl⟩
  change o ∈ ((postgres.view s first).outboxEvents.add o).rows
  rw [Table.rows_add_of_absent, List.mem_append]
  · exact .inr (List.mem_singleton.mpr rfl)
  · refine Table.find_eq_none_iff.mpr (fun y hy same => ?_)
    rcases exists_of_mem_view_outboxEvents OutboxEvent.id (fun _ _ => rfl) hy with
      ⟨y', old, id⟩ | ⟨y', pending, id⟩
    · exact Table.find_eq_none_iff.mp (h.outbox o ho) y' old (id.trans same)
    · have once := h.outboxOnce
      rw [List.filterMap_append] at once
      refine ((List.nodup_append.mp once).2.2 y'.id ?_ o.id ?_ (id.trans same)).elim
      · exact List.mem_filterMap.mpr ⟨_, pending, rfl⟩
      · exact List.mem_filterMap.mpr ⟨_, List.mem_cons_self, rfl⟩

theorem current_iff : Current s ↔ s.EventIdsUnique ∧
    (∀ x ∈ s.entries, ∃ e ∈ s.normalizedEvents, e.id = x.1.eventId) ∧
      ∀ e ∈ s.normalizedEvents, ∃ x ∈ s.entries, x.1 = e.state ∧
        ∀ y ∈ s.entries, y.1.eventId = e.id → y.2 ≤ x.2 := by
  constructor
  · rintro ⟨ids, known, last⟩
    refine ⟨ids, ?_, fun e he => ?_⟩
    · rintro _ ⟨o, ho, rfl⟩
      exact known o ho
    · obtain ⟨o, ho, payload, after⟩ := last e he
      refine ⟨o.entry, ⟨o, ho, rfl⟩, payload, ?_⟩
      rintro _ ⟨o', ho', rfl⟩ owner
      exact after o' ho' owner
  · rintro ⟨ids, known, last⟩
    refine ⟨ids, fun o ho => known o.entry ⟨o, ho, rfl⟩, fun e he => ?_⟩
    obtain ⟨_, ⟨o, ho, rfl⟩, payload, after⟩ := last e he
    exact ⟨o, ho, payload, fun o' ho' owner => after o'.entry ⟨o', ho', rfl⟩ owner⟩

end Entries

/-- The feed is up to date, and the clock has passed it. -/
def Ready (σ : State ι) : Prop := Current σ.store ∧ Stamped σ

/-- The protocol of the operations under one clock. -/
def operating : Protocol postgres ι :=
  Protocol.interleaved postgres Ready World.Later (fun _ => Announcing) (fun _ _ _ => True)
    World.Later.refl World.Later.trans

theorem stamped_iff {σ : State ι} : Stamped σ ↔ ∃ now gap, σ.world.clock = .shared now gap ∧
    0 < gap ∧ ∀ x ∈ σ.store.entries, (ofLex x.2).1 < now := by
  refine exists_congr (fun now => exists_congr (fun gap => and_congr_right (fun _ =>
    and_congr_right (fun _ => ⟨?_, fun past o ho => past o.entry ⟨o, ho, rfl⟩⟩))))
  rintro past _ ⟨o, ho, rfl⟩
  exact past o ho

/-- The feed has not grown, and the clock has not been set back. -/
theorem Stamped.of_shown {σ τ : State ι} (h : Stamped σ) (later : σ.world.Later τ.world)
    (shown : ∀ x ∈ τ.store.entries, x ∈ σ.store.entries) : Stamped τ := by
  obtain ⟨now, gap, clock, strict, past⟩ := stamped_iff.mp h
  have le : σ.world.clock.Le τ.world.clock := later
  rw [clock] at le
  cases passed : τ.world.clock with
  | free =>
      rw [passed] at le
      exact le.elim
  | shared now' gap' =>
      rw [passed] at le
      obtain ⟨step, rfl⟩ := le
      exact stamped_iff.mpr ⟨now', gap, passed, strict,
        fun x hx => lt_of_lt_of_le (past x (shown x hx)) step⟩

theorem Ready.withClock {σ : State ι} {c : Clock} (h : Ready σ) (le : σ.world.clock.Le c) :
    Ready (withClock σ c) := ⟨h.1, h.2.withClock le⟩

theorem hosts_operating : Hosts (operating (ι := ι)) :=
  hosts_interleaved (fun _ _ inv le => inv.withClock le)

/-- What a session has pending in `σ` would keep the invariant. -/
structure Clean (σ : State ι) (ws : List Write) : Prop where
  pending : Pending σ.store ws
  announcing : Announcing ws
  ready : Ready { σ with store := postgres.view σ.store ws }

section Rely

variable {σ τ : State ι} {ws vs : List Write} {x : OutboxPayload × (Time ×ₗ Uuid)}

theorem mem_entries_of_rely (h : operating.rely ws σ τ) (hx : x ∈ σ.store.entries) :
    x ∈ τ.store.entries :=
  (hosts_operating.interference h).preserves (fun s => x ∈ s.entries)
    (fun _ _ _ _ _ kept => mem_entries_view_of_mem kept) hx

/-- While an event is upserted, nobody else announces it. -/
theorem mem_entries_of_held (h : operating.rely ws σ τ) {row : NormalizedEvent}
    (held : .putEvent row ∈ ws) (hx : x ∈ τ.store.entries) (owner : x.1.eventId = row.id) :
    x ∈ σ.store.entries := by
  refine Interference.preserves (fun s => x ∈ s.entries → x ∈ σ.store.entries) h ?_ id hx
  intro s j vs announcing compatible kept here
  rcases mem_entries_of_mem_view here with old | new
  · exact kept old
  · obtain ⟨row', hr', same⟩ := announcing x new
    have free : .eventId row.id ∉ (Write.putEvent row').locks :=
      not_lock_of_compatible compatible held (by simp [Write.locks]) _ hr'
    exact (free (by simp [Write.locks, same, owner])).elim

/-- A pending event that a session sees stays in its view. -/
theorem mem_view_of_rely (h : operating.rely ws σ τ) {e : NormalizedEvent}
    (own : .putEvent e ∈ ws) (he : e ∈ (postgres.view τ.store ws).normalizedEvents) :
    e ∈ (postgres.view σ.store ws).normalizedEvents := by
  have same := hosts_operating.look_eq (fun s => s.normalizedEvents.find e.key)
    Store.put_normalizedEvents_of_not_lock h own (by simp [Write.locks])
  have found : (postgres.view τ.store ws).normalizedEvents.find e.key = some e :=
    Table.find_eq_some_iff.mpr ⟨he, rfl⟩
  rw [find_view_congr same] at found
  exact (Table.find_eq_some_iff.mp found).1

/-- A clean session stays clean while others commit. -/
theorem Clean.rely (h : Clean σ ws) (rely : operating.rely ws σ τ) (inv : Ready τ) :
    Clean τ ws := by
  have pending := h.pending.rely hosts_operating rely
  refine ⟨pending, h.announcing, ?_, ?_⟩
  · obtain ⟨ids, known, last⟩ := current_iff.mp inv.1
    obtain ⟨-, -, own⟩ := current_iff.mp h.ready.1
    refine current_iff.mpr ⟨pending.eventIdsUnique_view ids, fun x hx => ?_, fun e he => ?_⟩
    · rcases mem_entries_of_mem_view hx with old | new
      · obtain ⟨e, he, owner⟩ := known x old
        obtain ⟨y, hy, -, same⟩ := pending.exists_mem_view he
        exact ⟨y, hy, same.trans owner⟩
      · obtain ⟨row, hr, owner⟩ := h.announcing x new
        obtain ⟨y, hy, key, again⟩ := exists_mem_view_of_putEvent (s := τ.store) hr
        exact ⟨y, hy, ((pending.identity y row again hr).mp key).trans owner⟩
    · rcases mem_view_normalizedEvents he with here | ⟨old, free⟩
      · -- The event is locked: what the session sees of it has not changed.
        obtain ⟨x, hx, state, after⟩ := own e (mem_view_of_rely rely here he)
        refine ⟨x, ?_, state, fun y hy owner => after y ?_ owner⟩
        · rcases mem_entries_of_mem_view hx with committed | new
          · exact mem_entries_view_of_mem (mem_entries_of_rely rely committed)
          · exact pending.mem_entries_view new
        · rcases mem_entries_of_mem_view hy with committed | new
          · exact mem_entries_view_of_mem (mem_entries_of_held rely here committed owner)
          · exact h.pending.mem_entries_view new
      · obtain ⟨x, hx, state, after⟩ := last e old
        refine ⟨x, mem_entries_view_of_mem hx, state, fun y hy owner => ?_⟩
        rcases mem_entries_of_mem_view hy with committed | new
        · exact after y committed owner
        · obtain ⟨row, hr, same⟩ := h.announcing y new
          have key := (pending.events row hr e old).mpr (owner.symm.trans same.symm)
          exact (free row hr key.symm).elim
  · obtain ⟨now, gap, clock, strict, past⟩ := stamped_iff.mp inv.2
    obtain ⟨before, gap', clock', -, past'⟩ := stamped_iff.mp h.ready.2
    have later : σ.world.clock.Le τ.world.clock := (hosts_operating.interference rely).world
    change σ.world.clock = .shared before gap' at clock'
    rw [clock, clock'] at later
    refine stamped_iff.mpr ⟨now, gap, clock, strict, fun x hx => ?_⟩
    rcases mem_entries_of_mem_view hx with committed | new
    · exact past x committed
    · exact lt_of_lt_of_le (past' x (h.pending.mem_entries_view new)) later.1

end Rely

section Upserts

variable {s : Store} {p : UpsertPlan}

/-- An upsert announces each of its events once. -/
theorem Committing.announced_once (h : Committing s p) {o o' : OutboxEvent} (ho : o ∈ p.outbox)
    (ho' : o' ∈ p.outbox) (owner : o'.payload.eventId = o.payload.eventId) : o' = o := by
  have owners : p.outbox.map (fun o => o.payload.eventId) = p.rows.map NormalizedEvent.id := by
    refine h.enqueued.map_eq ?_
    rintro row _ ⟨id, t, rfl⟩
    rfl
  have once : (p.outbox.map (fun o => o.payload.eventId)).Nodup := by
    rw [owners]
    exact h.keys.of_map.map_on (fun a ha b hb => h.eq_of_id ha hb)
  exact List.inj_on_of_nodup_map once ho' ho owner

/-- An upsert on top of `s` keeps the feed up to date when it announces its events after all
that `s` shows of them. -/
theorem Committing.current (h : Committing s p) (current : Current s)
    (later : ∀ o ∈ p.outbox, ∀ o' ∈ s.outboxEvents, o'.payload.eventId = o.payload.eventId →
      o'.createdAt < o.createdAt) : Current (postgres.view s p.writes) := by
  refine ⟨h.pending.eventIdsUnique_view current.ids, h.known current.known, fun e he => ?_⟩
  rcases h.mem_events.mp he with stored | ⟨old, free⟩
  · obtain ⟨_, ho, id, t, rfl⟩ := h.enqueued.exists_right stored
    refine ⟨_, h.mem_outbox.mpr (.inr ho), rfl, fun o' ho' owner => ?_⟩
    rcases h.mem_outbox.mp ho' with older | own
    · exact (Prod.Lex.toLex_lt_toLex.mpr (.inl (later _ ho o' older owner))).le
    · rw [h.announced_once ho own owner]
  · obtain ⟨o, ho, payload, last⟩ := current.last e old
    refine ⟨o, h.mem_outbox.mpr (.inl ho), payload, fun o' ho' owner => ?_⟩
    rcases h.mem_outbox.mp ho' with older | new
    · exact last o' older owner
    · exact (h.not_enqueued old free new owner).elim

variable {events : List NormalizedEventCreate} {changedBy : Option String}
variable {σ τ : State ι} {ws : List Write}

section Stamps

variable {P : Protocol postgres ι}

/-- Nothing that the session sees of an upserted event is as late as what is announced of it:
nobody else announces it, and the clock has passed what the session has announced before. -/
theorem Upserted.announces_later (h : Upserted P events changedBy p σ ws τ)
    (inv : ∀ {φ}, P.inv φ → Stamped φ ∧ σ.world.Later φ.world)
    (held : ∀ {φ row x}, P.rely (ws ++ p.stored) φ τ → row ∈ p.rows → x ∈ τ.store.entries →
      x.1.eventId = row.id → x ∈ φ.store.entries) (pending : Pending σ.store ws)
    (stamped : Stamped { σ with store := postgres.view σ.store ws }) :
    ∀ o ∈ p.outbox, ∀ o' ∈ (postgres.view τ.store ws).outboxEvents,
      o'.payload.eventId = o.payload.eventId → o'.createdAt < o.createdAt := by
  obtain ⟨φ, here, before, shown, -⟩ := h.flushed
  obtain ⟨now', started⟩ := inv here
  obtain ⟨now, gap, clock, -, past⟩ := stamped_iff.mp now'
  intro o ho o' ho' owner
  have read := shown o ho
  rw [clock, Clock.shows, decide_eq_true_eq] at read
  refine lt_of_lt_of_le ?_ read
  obtain ⟨row, hr, id, t, rfl⟩ := h.outbox.exists_left ho
  rcases mem_entries_of_mem_view ⟨o', ho', rfl⟩ with committed | own
  · exact past o'.entry (held before hr committed owner)
  · obtain ⟨first, gap', clock', -, past'⟩ := stamped_iff.mp stamped
    have later : σ.world.clock.Le φ.world.clock := started
    change σ.world.clock = .shared first gap' at clock'
    rw [clock, clock'] at later
    exact lt_of_lt_of_le (past' o'.entry (pending.mem_entries_view own)) later.1

/-- After an upsert the clock has passed what the session has announced. -/
theorem Upserted.stamped_view (h : Upserted P events changedBy p σ ws τ)
    (inv : ∀ {φ}, P.inv φ → Stamped φ)
    (before : Stamped { τ with store := postgres.view τ.store ws }) :
    Stamped { τ with store := postgres.view τ.store (ws ++ p.writes) } := by
  obtain ⟨now, gap, clock, strict, past⟩ := stamped_iff.mp before
  refine stamped_iff.mpr ⟨now, gap, clock, strict, fun x hx => ?_⟩
  rw [postgres.view_append] at hx
  rcases mem_entries_of_mem_view hx with old | ⟨o, ho, rfl⟩
  · exact past x old
  · obtain ⟨φ, here, -, -, flushed⟩ := h.flushed
    obtain ⟨_, _, clock', strict', -⟩ := inv here
    change τ.world.clock = .shared now gap at clock
    rw [clock', clock] at flushed
    exact Clock.lt_of_flush_le strict' flushed
      (List.mem_map.mpr ⟨o, mem_writes_addOutbox.mp ho, rfl⟩)

end Stamps

/-- The protocol of a part that starts in `σ`: the clock has not been set back since. -/
def since (σ : State ι) : Protocol postgres ι :=
  operating.assuming (fun φ => σ.world.Later φ.world)

theorem hosts_since : Hosts (since σ) :=
  hosts_interleaved (fun _ _ inv le => ⟨inv.1.withClock le, inv.2.trans le⟩)

theorem Upserted.announcing (h : Upserted (since σ) events changedBy p σ ws τ) :
    Announcing p.writes := by
  rintro _ ⟨o, ho, rfl⟩
  obtain ⟨row, hr, id, t, rfl⟩ := h.outbox.exists_left (mem_writes_addOutbox.mp ho)
  exact ⟨row, mem_writes_putEvent.mpr hr, rfl⟩

/-- The events of a clean session are announced after all that it sees of them. -/
theorem Upserted.later (h : Upserted (since σ) events changedBy p σ ws τ) (clean : Clean σ ws) :
    ∀ o ∈ p.outbox, ∀ o' ∈ (postgres.view τ.store ws).outboxEvents,
      o'.payload.eventId = o.payload.eventId → o'.createdAt < o.createdAt := by
  refine h.announces_later (fun inv => ⟨inv.1.2, inv.2⟩) (fun before hr committed owner => ?_)
    clean.pending clean.ready.2
  exact mem_entries_of_held before
    (List.mem_append_right _ (by simpa [UpsertPlan.stored] using hr)) committed owner

/-- A session is clean after an upsert. -/
theorem Upserted.clean (h : Upserted (since σ) events changedBy p σ ws τ)
    (inv : (since σ).inv τ) (clean : Clean σ ws) : Clean τ (ws ++ p.writes) := by
  have before := clean.rely h.rely inv.1
  have committing : Committing (postgres.view τ.store ws) p :=
    ⟨h.nodup_keys, h.outbox, h.pending.of_view⟩
  refine ⟨h.pending, before.announcing.append h.announcing, ?_, ?_⟩
  · rw [postgres.view_append]
    exact committing.current before.ready.1 (h.later clean)
  · exact h.stamped_view (fun inv => inv.1.2) before.ready.2

end Upserts

section Steps

variable {σ : State ι} {ws vs : List Write}

/-- Statements beside the events do not change what the feed shows. -/
theorem Current.view_beside {s : Store} (h : Current s) (beside : ∀ w ∈ vs, w.Beside) :
    Current (postgres.view s vs) := by
  obtain ⟨ids, known, last⟩ := current_iff.mp h
  have events : (postgres.view s vs).normalizedEvents = s.normalizedEvents :=
    view_look Store.normalizedEvents
      (fun _ w hw => Store.put_normalizedEvents_of_beside (beside w hw))
  have shown : ∀ x ∈ (postgres.view s vs).entries, x ∈ s.entries := fun x hx =>
    (mem_entries_of_mem_view hx).resolve_right (announced_of_beside beside)
  refine current_iff.mpr ⟨?_, ?_, ?_⟩
  · unfold Store.EventIdsUnique
    rwa [events]
  · rw [events]
    exact fun x hx => known x (shown x hx)
  · rw [events]
    intro e he
    obtain ⟨x, hx, state, after⟩ := last e he
    exact ⟨x, mem_entries_view_of_mem hx, state, fun y hy => after y (shown y hy)⟩

theorem Clean.append_beside (h : Clean σ ws) (beside : ∀ w ∈ vs, w.Beside) {world : World}
    (later : σ.world.Later world) : Clean { σ with world := world } (ws ++ vs) := by
  refine ⟨h.pending.append_beside beside, h.announcing.append (announcing_of_beside beside), ?_, ?_⟩
  · rw [postgres.view_append]
    exact h.ready.1.view_beside beside
  · refine h.ready.2.of_shown later (fun x hx => ?_)
    rw [postgres.view_append] at hx
    exact (mem_entries_of_mem_view hx).resolve_right (announced_of_beside beside)

/-- Sessions can run the parts of the operations. -/
theorem operating_sustains (sources : Set String) (i : ι) :
    Sustains operating i (UpsertPart sources) Stmt.Beside Clean where
  stable clean rely inv := clean.rely rely inv
  empty inv := ⟨Pending.nil _, announcing_of_beside (by simp), inv⟩
  step here inv run := by
    have later := exec_later run
    refine ⟨Protocol.interleaved_guarantees_world ?_ later, fun clean =>
      clean.append_beside (exec_beside here run) later⟩
    exact ⟨inv.1, (inv.2.withClock later)⟩
  commits clean _ :=
    Protocol.interleaved_guarantees_publish ⟨clean.ready.1, clean.ready.2⟩ clean.announcing
  part here inv clean := by
    cases here with
    | bulk events changedBy own =>
        rename_i σ ws
        refine wp_of_assuming (K := fun φ => σ.world.Later φ.world)
          (fun now rely => now.trans (hosts_operating.interference rely).world) (.refl _) ?_
        refine wp_upsertEventsBulk (P := since σ) hosts_since (fun _ inv => inv.1.1.ids)
          ⟨inv, .refl _⟩ clean.pending (fun _ _ _ _ _ impossible => (nomatch impossible)) ?_
        exact fun p τ inv' upserted _ _ => upserted.clean inv' clean

end Steps

/-- What any interleaving of operations makes of an empty database keeps the invariant. -/
theorem operations_ready [Fintype ι] [DecidableEq ι] (c : SystemConfig) {world : World}
    {now : Time} {gap : Nat} (clock : world.clock = .shared now gap) (strict : 0 < gap)
    (ops : ι → Operation) {st : Cluster Answer Exn Store Write World ι Unit}
    (run : Cluster.Reachable postgres
      (Cluster.start ⟨world, ∅, []⟩ (fun i => (ops i).run c)) st) : Ready st.shared := by
  have current : Current (∅ : Store) :=
    ⟨fun _ hx => (List.not_mem_nil hx).elim, fun _ ho => (List.not_mem_nil ho).elim,
      fun _ he => (List.not_mem_nil he).elim⟩
  have stamped : Stamped (⟨world, ∅, []⟩ : State ι) :=
    ⟨now, gap, clock, strict, fun _ ho => (List.not_mem_nil ho).elim⟩
  exact Cluster.Composed.inv Protocol.interleaved_coherent
    (fun i => operating_sustains ((ops i).sources c) i) (fun i => (ops i).orderly c)
    ⟨current, stamped⟩ run

/-- Whatever operations have run on an empty database, in whatever interleaving and however many
of them have failed, under a clock that increases between flushes: the feed replays to the state
of every stored event, and to nothing else. -/
theorem operations_feed_replays [Fintype ι] [DecidableEq ι] (c : SystemConfig) {world : World}
    {now : Time} {gap : Nat} (clock : world.clock = .shared now gap) (strict : 0 < gap)
    (ops : ι → Operation) {st : Cluster Answer Exn Store Write World ι Unit}
    (run : Cluster.Reachable postgres
      (Cluster.start ⟨world, ∅, []⟩ (fun i => (ops i).run c)) st) :
    (∀ e ∈ st.shared.store.normalizedEvents, st.shared.store.replay e.id = some e.state) ∧
      ∀ id, (∀ e ∈ st.shared.store.normalizedEvents, e.id ≠ id) →
        st.shared.store.replay id = none := by
  have reached := operations_ready c clock strict ops run
  exact ⟨fun e he => reached.1.replay_of_mem he,
    fun id absent => reached.1.replay_of_not_mem absent⟩

section Example

def chatConfig : SystemConfig where
  toPollConfig := { pollConfig with rt := chatRuntime }
  webhooks := { hmacSha256 := fun secret body => secret ++ body }
  imapSettings := {}

/-- A sync of the messages, and the publisher. -/
def chatOperations : Bool → Operation
  | false => .request .telegramSync
  | true => .publishOutbox

def chatStart : Cluster Answer Exn Store Write World Bool Unit :=
  Cluster.start ⟨{ (unpolled twoChats).world with clock := .shared 0 1 }, ∅, []⟩
    (fun i => (chatOperations i).run chatConfig)

/-- The moves of a sync that stores one message and overwrites it with the other one, in one
transaction. -/
def chatMoves : List (Move Exn Choice) :=
  [.step (.text "c"), .step (.draw 1 0), .step (.items []), .step .none, .step (.draw 2 0),
    .step (.time 0)] ++ (createScript 10).dropLast ++
  [.step .none, .step (.draw 3 1), .step (.time 1), .step (.time 1), .step .none, .step .none,
    .step (.draw 20 1), .step .none, .step .none, .step .none, .step (.draw 21 1),
    .step (.draws [(22, 1)]), .step .none]

/-- The publisher delivers both rows while the sync ends. -/
def chatSchedule : List (Bool × Move Exn Choice) :=
  chatMoves.map (Prod.mk false) ++
    [(true, .step (.rows [12, 22])), (true, .step (.flag true)), (true, .step .none),
      (false, .step .none), (true, .step (.time 2)), (true, .step .none),
      (true, .step (.flag true)), (true, .step .none), (true, .step (.time 2)),
      (true, .step .none), (false, .step .none), (true, .step .none)]

/-- The feed has two rows of one message, both published, and replays to the later one. -/
theorem operations_feed_replays_chat :
    ∃ st, chatStart.play postgres (fun _ _ _ => True) chatSchedule = some st ∧
      st.shared.store.outboxEvents.rows.map OutboxEvent.status = [.published, .published] ∧
        ∃ e ∈ st.shared.store.normalizedEvents, e.content = "[chat:200] hello" ∧
          st.shared.store.replay e.id = some e.state := by
  have shape : (chatStart.play postgres (fun _ _ _ => True) chatSchedule).map (fun st =>
      (st.shared.store.outboxEvents.rows.map OutboxEvent.status,
        st.shared.store.normalizedEvents.rows.map NormalizedEvent.content)) =
          some ([.published, .published], ["[chat:200] hello"]) := by decide +kernel
  obtain ⟨st, run, rows⟩ := Option.map_eq_some_iff.mp shape
  rw [Prod.mk.injEq] at rows
  obtain ⟨e, one, content⟩ := List.map_eq_singleton_iff.mp rows.2
  have member : e ∈ st.shared.store.normalizedEvents := by
    rw [Table.mem_def, one]
    exact List.mem_singleton.mpr rfl
  have reached : Cluster.Reachable postgres chatStart st := Cluster.run_of_play run
  refine ⟨st, run, rows.1, e, member, content, ?_⟩
  exact (operations_feed_replays chatConfig rfl Nat.one_pos chatOperations reached).1 e member

end Example

end OmniSync
