import OmniSync.Data.LastWrite
import OmniSync.Events.Transaction

/-!
# The change feed replays to the stored events

Any number of upsert transactions interleave. The lock of an event is held from its
upsert until the commit, so the outbox rows of one event are flushed in the order in
which its states are committed: when a transaction flushes, no other writer of its
events is active, and the committed outbox rows of these events have older stamps.
`Current` is the invariant: the last outbox row of an event carries its stored state.
-/

namespace OmniSync

open Txn

variable {ι : Type}

/-- The state of an event, as its outbox rows carry it. -/
def NormalizedEvent.state (e : NormalizedEvent) : OutboxPayload :=
  { eventId := e.id
    source := e.source
    externalId := e.externalId
    eventType := e.eventType
    content := e.content
    version := e.version
    schemaVersion := e.schemaVersion }

/-- Fold the change feed into a map from event ids to payloads. -/
def Store.replay (s : Store) : Uuid → Option OutboxPayload :=
  lastWrite (fun o => o.payload.eventId) OutboxEvent.payload (s.changes none)

/-- The feed is up to date: its rows belong to stored events, and the last row of an
event carries the state of the event. -/
structure Current (s : Store) : Prop where
  ids : s.EventIdsUnique
  known : ∀ o ∈ s.outboxEvents, ∃ e ∈ s.normalizedEvents, e.id = o.payload.eventId
  last : ∀ e ∈ s.normalizedEvents, ∃ o ∈ s.outboxEvents, o.payload = e.state ∧
    ∀ o' ∈ s.outboxEvents, o'.payload.eventId = e.id → o'.position ≤ o.position

section Replay

variable {s : Store}

theorem Current.replay_of_mem (h : Current s) {e : NormalizedEvent}
    (he : e ∈ s.normalizedEvents) : s.replay e.id = some e.state := by
  obtain ⟨o, ho, payload, last⟩ := h.last e he
  have owner : o.payload.eventId = e.id := by rw [payload]; rfl
  rw [← owner, ← payload]
  refine lastWrite_eq_some (fun o => o.payload.eventId) OutboxEvent.payload
    (changes_pairwise s none) (mem_changes_none.mpr ho) ?_
  intro o' ho' same
  exact last o' (mem_changes_none.mp ho') (same.trans owner)

theorem Current.replay_of_not_mem (h : Current s) {id : Uuid}
    (absent : ∀ e ∈ s.normalizedEvents, e.id ≠ id) : s.replay id = none := by
  refine lastWrite_eq_none _ _ ?_
  intro o ho same
  obtain ⟨e, he, owner⟩ := h.known o (mem_changes_none.mp ho)
  exact absent e he (owner.trans same)

end Replay

/-- The clock has passed the stamps of all committed outbox rows. -/
def Stamped (σ : State ι) : Prop :=
  ∃ now gap, σ.world.clock = .shared now gap ∧ 0 < gap ∧
    ∀ o ∈ σ.store.outboxEvents, o.createdAt < now

theorem Stamped.withClock {σ : State ι} {c : Clock} (h : Stamped σ) (le : σ.world.clock.Le c) :
    Stamped (withClock σ c) := by
  obtain ⟨now, gap, clock, strict, past⟩ := h
  rw [clock] at le
  cases c with
  | free => exact le.elim
  | shared later gap' =>
      obtain ⟨step, rfl⟩ := le
      exact ⟨later, gap, rfl, strict, fun o ho => lt_of_lt_of_le (past o ho) step⟩

/-- A clock that has passed a flush has passed its stamps. -/
theorem Clock.lt_of_flush_le {now later : Time} {gap gap' : Nat} {ts : List Time} {t : Time}
    (strict : 0 < gap) (h : ((shared now gap).flush ts).Le (shared later gap')) (ht : t ∈ ts) :
    t < later := by
  refine lt_of_lt_of_le ?_ h.1
  clear h
  induction ts generalizing now with
  | nil => cases ht
  | cons u ts ih =>
      rw [List.foldl_cons]
      rcases List.mem_cons.mp ht with rfl | rest
      · have beyond : t < t + (gap : Int) := Int.lt_add_of_pos_right t (by exact_mod_cast strict)
        exact lt_of_lt_of_le beyond
          ((le_max_right now (t + gap)).trans (le_foldl_max (max now (t + gap)) gap ts))
      · exact ih rest

/-- What a transaction commits: outbox rows only of events that it has upserted. -/
def Owned (ws : List Write) : Prop :=
  (∀ o, .addOutbox o ∈ ws → ∃ row, .putEvent row ∈ ws ∧ row.id = o.payload.eventId) ∧
    ∀ id patch, .patchOutbox id patch ∉ ws

/-- The protocol of interleaved upserts under one clock. -/
def upserting : Protocol postgres ι :=
  Protocol.interleaved postgres (fun σ => Current σ.store ∧ Stamped σ) World.Later
    (fun _ => Owned) (fun _ _ _ => True) World.Later.refl World.Later.trans

theorem hosts_upserting : Hosts (upserting (ι := ι)) :=
  hosts_interleaved (fun _ _ inv le => ⟨inv.1, inv.2.withClock le⟩)

/-- An outbox row of the view is committed or pending. -/
theorem mem_view_outboxEvents {s : Store} {ws : List Write} {o : OutboxEvent}
    (fixed : ∀ id patch, .patchOutbox id patch ∉ ws)
    (ho : o ∈ (postgres.view s ws).outboxEvents) : o ∈ s.outboxEvents ∨ .addOutbox o ∈ ws := by
  induction ws using List.reverseRecOn with
  | nil => exact .inl ho
  | append_singleton ws w ih =>
      rw [view_concat] at ho
      have keep : o ∈ (postgres.view s ws).outboxEvents →
          o ∈ s.outboxEvents ∨ .addOutbox o ∈ ws ++ [w] :=
        fun old => (ih (fun id patch member => fixed id patch (by simp [member])) old).imp id
          (fun own => List.mem_append_left _ own)
      cases w with
      | addOutbox o' =>
          rcases Table.mem_of_mem_add ho with old | rfl
          · exact keep old
          · exact .inr (by simp)
      | patchOutbox id patch => exact (fixed id patch (by simp)).elim
      | _ => exact keep ho

/-- While an event is upserted, nobody else commits an outbox row of it. -/
theorem mem_outbox_of_rely {ws : List Write} {σ τ : State ι} {row : NormalizedEvent}
    {o : OutboxEvent} (h : upserting.rely ws σ τ) (held : .putEvent row ∈ ws)
    (ho : o ∈ τ.store.outboxEvents) (owner : o.payload.eventId = row.id) :
    o ∈ σ.store.outboxEvents := by
  refine Interference.preserves
    (fun s => o ∈ s.outboxEvents → o ∈ σ.store.outboxEvents) h ?_ id ho
  intro s j vs owned compatible kept here
  rcases mem_view_outboxEvents owned.2 here with old | new
  · exact kept old
  · obtain ⟨row', hr', same⟩ := owned.1 o new
    have free : .eventId row.id ∉ (Write.putEvent row').locks :=
      not_lock_of_compatible compatible held (by simp [Write.locks]) _ hr'
    exact (free (by simp [Write.locks, same, owner])).elim

section Commit

variable {events : List NormalizedEventCreate} {changedBy : Option String} {p : UpsertPlan}
variable {σ τ υ : State ι}

theorem Upserted.owned {P : Protocol postgres ι} {ws : List Write}
    (h : Upserted P events changedBy p σ ws τ) : Owned p.writes := by
  refine ⟨fun o ho => ?_, by simp [UpsertPlan.writes, UpsertPlan.stored]⟩
  obtain ⟨row, hr, id, t, rfl⟩ := h.outbox.exists_left (mem_writes_addOutbox.mp ho)
  exact ⟨row, mem_writes_putEvent.mpr hr, rfl⟩

/-- The new outbox row of an event is its last one. -/
theorem Upserted.last_outbox (h : Upserted upserting events changedBy p σ [] τ)
    (rely : upserting.rely p.writes τ υ) {row : NormalizedEvent} (hr : row ∈ p.rows) :
    ∃ o ∈ p.outbox, o.payload = row.state ∧
      (∀ o' ∈ p.outbox, o'.payload.eventId = row.id → o' = o) ∧
        ∀ o' ∈ υ.store.outboxEvents, o'.payload.eventId = row.id → o'.createdAt < o.createdAt := by
  have committing := h.committing hosts_upserting rely
  obtain ⟨o, ho, id, t, rfl⟩ := h.outbox.exists_right hr
  refine ⟨_, ho, rfl, ?_, ?_⟩
  · have owners : p.outbox.map (fun o => o.payload.eventId) = p.rows.map NormalizedEvent.id := by
      refine h.outbox.map_eq ?_
      rintro row _ ⟨id, t, rfl⟩
      rfl
    have once : (p.outbox.map (fun o => o.payload.eventId)).Nodup := by
      rw [owners]
      exact committing.keys.of_map.map_on (fun a ha b hb => committing.eq_of_id ha hb)
    exact fun o' ho' same => List.inj_on_of_nodup_map once ho' ho same
  · obtain ⟨φ, ⟨_, now, gap, clock, _, past⟩, before, shown, _⟩ := h.flushed
    intro o' ho' owner
    have since : upserting.rely p.stored φ υ := by
      exact upserting.rely_trans before (hosts_upserting.weaken rely)
    have held : .putEvent row ∈ p.stored := by simpa [UpsertPlan.stored] using hr
    have old := past o' (mem_outbox_of_rely since held ho' owner)
    have read := shown _ ho
    rw [clock, Clock.shows, decide_eq_true_eq] at read
    exact lt_of_lt_of_le old read

/-- The commit of an upsert keeps the feed up to date. -/
theorem Upserted.current (h : Upserted upserting events changedBy p σ [] τ)
    (rely : upserting.rely p.writes τ υ) (current : Current υ.store) :
    Current (postgres.view υ.store p.writes) := by
  have committing := h.committing hosts_upserting rely
  refine ⟨committing.pending.eventIdsUnique_view current.ids, committing.known current.known, ?_⟩
  intro e he
  rcases committing.mem_events.mp he with stored | ⟨old, free⟩
  · obtain ⟨o, ho, payload, only, earlier⟩ := h.last_outbox rely stored
    refine ⟨o, committing.mem_outbox.mpr (.inr ho), payload, ?_⟩
    intro o' ho' owner
    rcases committing.mem_outbox.mp ho' with older | own
    · exact (Prod.Lex.toLex_lt_toLex.mpr (.inl (earlier o' older owner))).le
    · rw [only o' own owner]
  · obtain ⟨o, ho, payload, last⟩ := current.last e old
    refine ⟨o, committing.mem_outbox.mpr (.inl ho), payload, ?_⟩
    intro o' ho' owner
    rcases committing.mem_outbox.mp ho' with older | new
    · exact last o' older owner
    · exact (committing.not_enqueued old free new owner).elim

theorem Upserted.stamped (h : Upserted upserting events changedBy p σ [] τ)
    (rely : upserting.rely p.writes τ υ) (stamped : Stamped υ) (i : ι) :
    Stamped (postgres.publish υ i p.writes) := by
  obtain ⟨now, gap, clock, strict, past⟩ := stamped
  refine ⟨now, gap, clock, strict, fun o ho => ?_⟩
  rcases (h.committing hosts_upserting rely).mem_outbox.mp ho with old | new
  · exact past o old
  · obtain ⟨φ, ⟨_, now', gap', clock', strict', _⟩, _, _, flushed⟩ := h.flushed
    have later := flushed.trans (hosts_upserting.interference rely).world
    rw [clock', clock] at later
    exact Clock.lt_of_flush_le strict' later (List.mem_map.mpr ⟨o, new, rfl⟩)

end Commit

theorem upserting_commits (i : ι) : Commits upserting i := fun upserted rely inv =>
  Protocol.interleaved_guarantees_publish
    ⟨upserted.current rely inv.1, upserted.stamped rely inv.2 i⟩ upserted.owned

/-- Whatever interleaving of upsert transactions has run on an empty database under a
clock that increases between flushes, and however many of them have failed: the feed
replays to the state of every stored event, and to nothing else. -/
theorem feed_replays_to_state [Fintype ι] [DecidableEq ι] {world : World} {now : Time} {gap : Nat}
    (clock : world.clock = .shared now gap) (strict : 0 < gap)
    (batch : ι → List NormalizedEventCreate) (changedBy : ι → Option String)
    {st : Cluster Answer Exn Store Write World ι (List NormalizedEvent)}
    (run : Cluster.Reachable postgres (Cluster.start ⟨world, ∅, []⟩
      (fun i => upsertTransaction (batch i) (changedBy i))) st) :
    (∀ e ∈ st.shared.store.normalizedEvents, st.shared.store.replay e.id = some e.state) ∧
      ∀ id, (∀ e ∈ st.shared.store.normalizedEvents, e.id ≠ id) →
        st.shared.store.replay id = none := by
  have current : Current (∅ : Store) :=
    ⟨fun _ hx => (List.not_mem_nil hx).elim, fun _ ho => (List.not_mem_nil ho).elim,
      fun _ he => (List.not_mem_nil he).elim⟩
  have stamped : Stamped (⟨world, ∅, []⟩ : State ι) :=
    ⟨now, gap, clock, strict, fun _ ho => (List.not_mem_nil ho).elim⟩
  have reached := (upsertTransactions_inv hosts_upserting (fun _ inv => inv.1.ids)
    Protocol.interleaved_coherent upserting_commits ⟨current, stamped⟩ run).1
  exact ⟨fun e he => reached.replay_of_mem he, fun id absent => reached.replay_of_not_mem absent⟩

/-- Two transactions store the same commit: the second one reads before the first one
commits, and upserts afterwards. -/
def racingSchedule : List (Bool × Move Exn Choice) :=
  [(true, .step (.time 0)), (true, .step .none)] ++ (createScript 10).map (Prod.mk false) ++
    [(true, .step (.draw 20 1)), (true, .step .none), (true, .step .none), (true, .step .none),
      (true, .step (.draws [(22, 1)])), (true, .step .none)]

def racingStart : Cluster Answer Exn Store Write World Bool (List NormalizedEvent) :=
  Cluster.start ⟨{ clock := .shared 0 1 }, ∅, []⟩
    (fun i => upsertTransaction [sampleCommit (if i then "final" else "draft")] none)

/-- The feed of two racing transactions replays to what the second one has stored. -/
theorem feed_replays_to_state_racing :
    ∃ st, racingStart.play postgres (fun _ _ _ => True) racingSchedule = some st ∧
      st.shared.store.outboxEvents.rows.length = 2 ∧
        ∃ e ∈ st.shared.store.normalizedEvents, e.content = "final" ∧
          st.shared.store.replay e.id = some e.state := by
  have shape : (racingStart.play postgres (fun _ _ _ => True) racingSchedule).map (fun st =>
      (st.shared.store.outboxEvents.rows.length,
        st.shared.store.normalizedEvents.rows.map NormalizedEvent.content)) =
          some (2, ["final"]) := by decide +kernel
  obtain ⟨st, run, rows⟩ := Option.map_eq_some_iff.mp shape
  rw [Prod.mk.injEq] at rows
  obtain ⟨e, one, content⟩ := List.map_eq_singleton_iff.mp rows.2
  have member : e ∈ st.shared.store.normalizedEvents := by
    rw [Table.mem_def, one]
    exact List.mem_singleton.mpr rfl
  have reached : Cluster.Reachable postgres racingStart st := Cluster.run_of_play run
  have clock : ({ clock := .shared 0 1 } : World).clock = .shared 0 1 := rfl
  refine ⟨st, run, rows.1, e, member, content, ?_⟩
  exact (feed_replays_to_state clock (by decide) _ _ reached).1 e member

end OmniSync
