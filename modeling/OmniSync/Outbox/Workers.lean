import OmniSync.Outbox.Publication

/-!
# Concurrent publication

Any number of passes run at the same time, next to transactions that upsert events. A
pass locks the rows that it has selected until it ends, so what it writes about them is
based on their committed state. `Sound` relates the status of every committed row to the
deliveries that have succeeded and to the failed attempts that were committed. A pass
that ends without its commit leaves at most deliveries behind.
-/

namespace OmniSync

open Txn

variable {ι : Type}

/-- A transaction over the outbox: a publication pass, or an upsert that enqueues rows. -/
inductive OutboxJob where
  | publish
  | upsert (events : List NormalizedEventCreate) (changedBy : Option String)

def OutboxJob.prog (settings : Settings) : OutboxJob → Tx Unit
  | publish => do
      let _ ← publishOutbox settings
      return ()
  | upsert events changedBy => do
      let _ ← upsertTransaction events changedBy
      return ()

/-- The write records a failed attempt to deliver row `id`. -/
def Write.failsAttempt (id : Uuid) : Write → Bool
  | .patchOutbox id' p => decide (id' = id) && p.lastError.isSome
  | _ => false

/-- The number of committed transactions that record a failed attempt to deliver row `id`. -/
def failedAttempts (log : List (ι × List Write)) (id : Uuid) : Nat :=
  log.countP (fun entry => entry.2.any (Write.failsAttempt id))

/-- What the status of a row says about the attempts to deliver it. -/
structure AttemptsAccounted (settings : Settings) (σ : State ι) (o : OutboxEvent) : Prop where
  published : o.status = .published → (o.payload.eventId, o.payload.point) ∈ σ.world.deliveries
  dead : o.status = .dead → failedAttempts σ.log o.id = settings.OUTBOX_MAX_ATTEMPTS
  pending : o.status = .pending →
    o.attempts < settings.OUTBOX_MAX_ATTEMPTS ∧ failedAttempts σ.log o.id = o.attempts

/-- Every row of `s` is in `t` with its payload, and as it is unless it was pending. -/
def RowsKept (s t : Store) : Prop :=
  ∀ o ∈ s.outboxEvents, ∃ o' ∈ t.outboxEvents,
    o'.id = o.id ∧ o'.payload = o.payload ∧ (o.status ≠ .pending → o' = o)

/-- The invariant of interleaved jobs, from the committed state `before` on. -/
structure Sound (settings : Settings) (before : Store) (σ : State ι) : Prop where
  replays : Shared.Replays postgres before σ
  chain : (Shared.states postgres before σ).IsChain RowsKept
  ids : σ.store.EventIdsUnique
  accounted : ∀ o ∈ σ.store.outboxEvents, AttemptsAccounted settings σ o
  known : ∀ entry ∈ σ.log, ∀ id, entry.2.any (Write.failsAttempt id) = true →
    σ.store.outboxEvents.find id ≠ none

/-- Time has passed, and the deliveries so far stay delivered. -/
def World.Delivers (w w' : World) : Prop := w.Later w' ∧ w.deliveries <+: w'.deliveries

theorem World.Delivers.refl (w : World) : w.Delivers w := ⟨.refl w, List.prefix_rfl⟩

theorem World.Delivers.trans {u v w : World} (first : u.Delivers v) (rest : v.Delivers w) :
    u.Delivers w := ⟨first.1.trans rest.1, first.2.trans rest.2⟩

/-- The protocol of interleaved jobs. -/
def working (settings : Settings) (before : Store) : Protocol postgres ι :=
  Protocol.interleaved postgres (Sound settings before) World.Delivers (fun _ _ => True)
    (fun _ _ _ => True) World.Delivers.refl World.Delivers.trans

section Invariant

variable {settings : Settings} {before : Store} {σ τ : State ι}

/-- What happens outside the database keeps the invariant, if nothing that was delivered
is forgotten. -/
theorem Sound.world (h : Sound settings before σ) {world : World}
    (kept : σ.world.deliveries ⊆ world.deliveries) :
    Sound settings before { σ with world := world } :=
  ⟨h.replays, h.chain, h.ids, fun o ho =>
    ⟨fun status => kept ((h.accounted o ho).published status), (h.accounted o ho).dead,
      (h.accounted o ho).pending⟩, h.known⟩

theorem hosts_working : Hosts (working (ι := ι) settings before) :=
  hosts_interleaved_of (fun h => h.1) (fun le => ⟨le, List.prefix_rfl⟩)
    (fun _ _ sound _ => sound.world (List.Subset.refl _))

/-- A commit that keeps the rows and accounts for its own attempts keeps the invariant. -/
theorem Sound.publish (h : Sound settings before σ) {i : ι} {ws : List Write}
    (ids : (postgres.view σ.store ws).EventIdsUnique)
    (kept : RowsKept σ.store (postgres.view σ.store ws))
    (accounted : ∀ o ∈ (postgres.view σ.store ws).outboxEvents,
      AttemptsAccounted settings (postgres.publish σ i ws) o)
    (known : ∀ id, ws.any (Write.failsAttempt id) = true → σ.store.outboxEvents.find id ≠ none) :
    Sound settings before (postgres.publish σ i ws) := by
  refine ⟨h.replays.publish i ws, h.replays.isChain_publish h.chain kept, ids, accounted, ?_⟩
  intro entry member id fails absent
  have here : σ.store.outboxEvents.find id ≠ none := by
    rcases List.mem_append.mp member with old | new
    · exact h.known entry old id fails
    · cases List.mem_singleton.mp new
      exact known id fails
  exact here (find_outboxEvents_of_view absent)

theorem failedAttempts_publish (σ : State ι) (i : ι) (ws : List Write) (id : Uuid) :
    failedAttempts (postgres.publish σ i ws).log id =
      failedAttempts σ.log id + if ws.any (Write.failsAttempt id) then 1 else 0 := by
  rw [Engine.publish_log, failedAttempts, List.countP_append, List.countP_singleton]
  rfl

end Invariant

section Upsert

variable {settings : Settings} {before : Store} {σ τ υ : State ι}

theorem UpsertPlan.fails_nothing (p : UpsertPlan) (id : Uuid) :
    p.writes.any (Write.failsAttempt id) = false := by
  rw [List.any_eq_false]
  intro w hw
  simp only [UpsertPlan.writes, UpsertPlan.stored, List.mem_append, List.mem_map] at hw
  rcases hw with ((⟨_, _, rfl⟩ | ⟨_, _, rfl⟩) | ⟨_, _, rfl⟩) | ⟨_, _, rfl⟩ <;>
    exact Bool.false_ne_true

/-- An upsert adds pending rows that nobody has attempted to deliver. -/
theorem working_commits (positive : 1 ≤ settings.OUTBOX_MAX_ATTEMPTS) (i : ι) :
    Commits (working settings before) i := by
  intro events changedBy p σ τ υ upserted rely inv
  have committing := upserted.committing hosts_working rely
  refine Protocol.interleaved_guarantees_publish (inv.publish ?_ ?_ ?_ ?_) trivial
  · exact committing.pending.eventIdsUnique_view inv.ids
  · exact fun o ho => ⟨o, committing.mem_outbox.mpr (.inl ho), rfl, rfl, fun _ => rfl⟩
  · intro o ho
    have same : failedAttempts (postgres.publish υ i p.writes).log o.id =
        failedAttempts υ.log o.id := by
      rw [failedAttempts_publish, p.fails_nothing]
      rfl
    rcases committing.mem_outbox.mp ho with old | new
    · obtain ⟨published, dead, pending⟩ := inv.accounted o old
      exact ⟨published, fun status => same.trans (dead status),
        fun status => ⟨(pending status).1, same.trans (pending status).2⟩⟩
    · have absent := committing.pending.outbox o (mem_writes_addOutbox.mpr new)
      have none : failedAttempts υ.log o.id = 0 := by
        rw [failedAttempts, List.countP_eq_zero]
        exact fun entry member fails => inv.known entry member o.id fails absent
      obtain ⟨row, _, id, t, rfl⟩ := committing.exists_enqueued new
      exact ⟨fun status => (nomatch status), fun status => (nomatch status),
        fun _ => ⟨positive, same.trans none⟩⟩
  · intro id fails
    rw [p.fails_nothing] at fails
    cases fails

end Upsert

section Pass

variable {settings : Settings} {before : Store} {σ τ : State ι} {ws : List Write}
variable {rows rest : List OutboxEvent} {done : List (OutboxEvent × OutboxPatch)}

/-- The outcome of an attempt to deliver `o` is recorded by `p`. -/
def Outcome (settings : Settings) (deliveries : List (Uuid × IndexPoint)) (o : OutboxEvent)
    (p : OutboxPatch) : Prop :=
  ((o.payload.eventId, o.payload.point) ∈ deliveries ∧ ∃ now, p = publishedPatch o now) ∨
    ∃ error, p = failedPatch settings o error

/-- A pass has locked `rows`; the outcomes `done` are pending, and `rest` is still to be
delivered. -/
structure Attempted (settings : Settings) (rows : List OutboxEvent)
    (done : List (OutboxEvent × OutboxPatch)) (rest : List OutboxEvent) (σ : State ι)
    (ws : List Write) : Prop where
  writes : ws = rows.map (fun o => .lockOutbox o.id) ++
    done.map (fun d => .patchOutbox d.1.id d.2)
  visited : rows = done.map Prod.fst ++ rest
  once : (rows.map OutboxEvent.id).Nodup
  selected : ∀ o ∈ rows, o ∈ σ.store.outboxEvents ∧ o.status = .pending
  outcome : ∀ d ∈ done, Outcome settings σ.world.deliveries d.1 d.2

namespace Attempted

/-- The locked rows keep their committed state. -/
theorem interfere (h : Attempted settings rows done rest σ ws)
    (rely : (working settings before).rely ws σ τ) :
    Attempted settings rows done rest τ ws := by
  refine ⟨h.writes, h.visited, h.once, ?_, ?_⟩
  · intro o ho
    obtain ⟨member, pending⟩ := h.selected o ho
    have locked : .lockOutbox o.id ∈ ws := by
      rw [h.writes]
      exact List.mem_append_left _ (List.mem_map.mpr ⟨o, ho, rfl⟩)
    have same := hosts_working.look_eq (fun s => s.outboxEvents.find o.id)
      Store.put_outboxEvents_of_not_lock rely locked (by simp [Write.locks])
    rw [Table.find_eq_some_iff.mpr ⟨member, rfl⟩] at same
    exact ⟨(Table.find_eq_some_iff.mp same).1, pending⟩
  · intro d hd
    have delivers : σ.world.Delivers τ.world := rely.world
    exact (h.outcome d hd).imp (fun delivered => ⟨delivers.2.subset delivered.1, delivered.2⟩) id

theorem deliver (h : Attempted settings rows done rest σ ws) (eventId : Uuid) (point : IndexPoint) :
    Attempted settings rows done rest (withPoint σ eventId point) ws :=
  ⟨h.writes, h.visited, h.once, h.selected, fun d hd =>
    (h.outcome d hd).imp (fun delivered => ⟨List.mem_append_left _ delivered.1, delivered.2⟩) id⟩

theorem record {o : OutboxEvent} (h : Attempted settings rows done (o :: rest) σ ws)
    {p : OutboxPatch} (outcome : Outcome settings σ.world.deliveries o p) :
    Attempted settings rows (done ++ [(o, p)]) rest σ (ws ++ [.patchOutbox o.id p]) := by
  refine ⟨?_, ?_, h.once, h.selected, ?_⟩
  · rw [h.writes, List.append_assoc, List.map_append, List.map_cons, List.map_nil]
  · rw [h.visited, List.map_append, List.append_assoc, List.map_cons, List.map_nil,
      List.singleton_append]
  · intro d hd
    rcases List.mem_append.mp hd with old | new
    · exact h.outcome d old
    · exact List.mem_singleton.mp new ▸ outcome

theorem mem_rows (h : Attempted settings rows done rest σ ws) {d : OutboxEvent × OutboxPatch}
    (hd : d ∈ done) : d.1 ∈ rows := by
  rw [h.visited]
  exact List.mem_append_left _ (List.mem_map.mpr ⟨d, hd, rfl⟩)

theorem nodup_done (h : Attempted settings rows done rest σ ws) :
    (done.map (fun d => d.1.id)).Nodup := by
  have once := h.once
  rw [h.visited, List.map_append, List.map_map] at once
  exact once.of_append_left

/-- Patches of other rows leave a row as it is. -/
theorem find_view_of_free {s : Store} {done : List (OutboxEvent × OutboxPatch)} {id : Uuid}
    (free : ∀ d ∈ done, d.1.id ≠ id) :
    (postgres.view s (done.map (fun d => .patchOutbox d.1.id d.2))).outboxEvents.find id =
      s.outboxEvents.find id := by
  refine view_look (fun s => s.outboxEvents.find id) ?_
  intro s w hw
  obtain ⟨d, hd, rfl⟩ := List.mem_map.mp hw
  refine Store.put_outboxEvents_of_not_lock ?_
  simpa [Write.locks] using (free d hd).symm

theorem find_other (h : Attempted settings rows done rest σ ws) {id : Uuid}
    (free : ∀ d ∈ done, d.1.id ≠ id) :
    (postgres.view σ.store ws).outboxEvents.find id = σ.store.outboxEvents.find id := by
  rw [h.writes, postgres.view_append, view_lockOutbox, find_view_of_free free]

theorem find_done (h : Attempted settings rows done rest σ ws) {d : OutboxEvent × OutboxPatch}
    (hd : d ∈ done) :
    (postgres.view σ.store ws).outboxEvents.find d.1.id = some (d.1.patch d.2) := by
  have once := h.nodup_done
  obtain ⟨first, later, rfl⟩ := List.append_of_mem hd
  rw [List.map_append, List.map_cons, List.nodup_append, List.nodup_cons] at once
  obtain ⟨_, ⟨after, _⟩, before⟩ := once
  have committed := Table.find_eq_some_iff.mpr ⟨(h.selected d.1 (h.mem_rows hd)).1, rfl⟩
  rw [h.writes, postgres.view_append, view_lockOutbox, List.map_append, List.map_cons,
    postgres.view_append, view_cons]
  rw [find_view_of_free (fun d' hd' same => after (List.mem_map.mpr ⟨d', hd', same⟩))]
  rw [Store.find_put_patchOutbox, find_view_of_free (fun d' hd' same =>
    before d'.1.id (List.mem_map.mpr ⟨d', hd', rfl⟩) d.1.id (by simp) same), committed]
  rfl

/-- The pass records a failed attempt for the rows whose outcome is a failure. -/
theorem fails_iff (h : Attempted settings rows done rest σ ws) {id : Uuid} :
    ws.any (Write.failsAttempt id) = true ↔ ∃ d ∈ done, d.1.id = id ∧ d.2.lastError.isSome := by
  rw [h.writes, List.any_eq_true]
  simp only [List.mem_append, List.mem_map]
  constructor
  · rintro ⟨_, ⟨o, _, rfl⟩ | ⟨d, hd, rfl⟩, fails⟩
    · cases fails
    · simp only [Write.failsAttempt, Bool.and_eq_true, decide_eq_true_eq] at fails
      exact ⟨d, hd, fails⟩
  · rintro ⟨d, hd, fails⟩
    exact ⟨_, .inr ⟨d, hd, rfl⟩, by simpa [Write.failsAttempt] using fails⟩

/-- The rows after the commit: those with an outcome are patched. -/
theorem mem_view (h : Attempted settings rows done rest σ ws) {o : OutboxEvent}
    (ho : o ∈ (postgres.view σ.store ws).outboxEvents) :
    (∃ d ∈ done, o = d.1.patch d.2) ∨
      (o ∈ σ.store.outboxEvents ∧ ∀ d ∈ done, d.1.id ≠ o.id) := by
  have found := Table.find_eq_some_iff.mpr ⟨ho, rfl⟩
  by_cases attempted : ∃ d ∈ done, d.1.id = o.id
  · obtain ⟨d, hd, same⟩ := attempted
    rw [← same, h.find_done hd, Option.some.injEq] at found
    exact .inl ⟨d, hd, found.symm⟩
  · have free : ∀ d ∈ done, d.1.id ≠ o.id := fun d hd same => attempted ⟨d, hd, same⟩
    rw [h.find_other free] at found
    exact .inr ⟨(Table.find_eq_some_iff.mp found).1, free⟩

theorem kept (h : Attempted settings rows done rest σ ws) :
    RowsKept σ.store (postgres.view σ.store ws) := by
  intro o ho
  by_cases attempted : ∃ d ∈ done, d.1.id = o.id
  · obtain ⟨d, hd, same⟩ := attempted
    obtain ⟨member, pending⟩ := h.selected d.1 (h.mem_rows hd)
    have own : d.1 = o := Table.eq_of_key_eq member ho same
    refine ⟨d.1.patch d.2, (Table.find_eq_some_iff.mp (h.find_done hd)).1, same, ?_, ?_⟩
    · rw [OutboxEvent.patch_payload, own]
    · intro settled
      exact (settled (own ▸ pending)).elim
  · have free : ∀ d ∈ done, d.1.id ≠ o.id := fun d hd same => attempted ⟨d, hd, same⟩
    have found := h.find_other free
    rw [Table.find_eq_some_iff.mpr ⟨ho, rfl⟩] at found
    exact ⟨o, (Table.find_eq_some_iff.mp found).1, rfl, rfl, fun _ => rfl⟩

/-- What the pass has recorded accounts for its attempts. -/
theorem accounted (h : Attempted settings rows done rest σ ws) (sound : Sound settings before σ)
    (i : ι) {o : OutboxEvent} (ho : o ∈ (postgres.view σ.store ws).outboxEvents) :
    AttemptsAccounted settings (postgres.publish σ i ws) o := by
  have count := failedAttempts_publish σ i ws o.id
  rcases h.mem_view ho with ⟨d, hd, rfl⟩ | ⟨member, free⟩
  · obtain ⟨member, status⟩ := h.selected d.1 (h.mem_rows hd)
    obtain ⟨below, attempts⟩ := (sound.accounted d.1 member).pending status
    rw [OutboxEvent.patch_id, attempts] at count
    rcases h.outcome d hd with ⟨delivered, now, same⟩ | ⟨error, same⟩
    · refine ⟨fun _ => delivered, ?_, ?_⟩
      · rw [same]
        intro dead
        cases dead
      · rw [same]
        intro pending
        cases pending
    · rw [h.fails_iff.mpr ⟨d, hd, rfl, by rw [same]; rfl⟩, if_pos rfl] at count
      rw [same]
      by_cases spent : settings.OUTBOX_MAX_ATTEMPTS ≤ d.1.attempts + 1
      · have dead : (d.1.patch (failedPatch settings d.1 error)).status = .dead := by
          simp [OutboxEvent.patch, failedPatch, spent]
        refine ⟨?_, fun _ => count.trans (Nat.le_antisymm below spent), ?_⟩
        · rw [dead]
          intro published
          cases published
        · rw [dead]
          intro pending
          cases pending
      · have pending : (d.1.patch (failedPatch settings d.1 error)).status = .pending := by
          simp [OutboxEvent.patch, failedPatch, spent, status]
        refine ⟨?_, ?_, fun _ => ⟨Nat.lt_of_not_le spent, count⟩⟩
        · rw [pending]
          intro published
          cases published
        · rw [pending]
          intro dead
          cases dead
  · have unfailed : ws.any (Write.failsAttempt o.id) = false := by
      rw [← Bool.not_eq_true, h.fails_iff]
      rintro ⟨d, hd, same, _⟩
      exact free d hd same
    rw [unfailed, if_neg Bool.false_ne_true, Nat.add_zero] at count
    obtain ⟨published, dead, pending⟩ := sound.accounted o member
    exact ⟨published, fun status => count.trans (dead status),
      fun status => ⟨(pending status).1, count.trans (pending status).2⟩⟩

/-- The events of the store are left alone. -/
theorem events (h : Attempted settings rows done rest σ ws) :
    (postgres.view σ.store ws).normalizedEvents = σ.store.normalizedEvents := by
  refine view_look Store.normalizedEvents ?_
  intro s w hw
  rw [h.writes, List.mem_append, List.mem_map, List.mem_map] at hw
  rcases hw with ⟨_, _, rfl⟩ | ⟨_, _, rfl⟩ <;> rfl

/-- The commit of a pass keeps the invariant. -/
theorem publish (h : Attempted settings rows done rest σ ws) (sound : Sound settings before σ)
    (i : ι) : Sound settings before (postgres.publish σ i ws) := by
  refine sound.publish ?_ h.kept (fun o ho => h.accounted sound i ho) ?_
  · unfold Store.EventIdsUnique
    rw [h.events]
    exact sound.ids
  · intro id fails absent
    obtain ⟨d, hd, same, _⟩ := h.fails_iff.mp fails
    exact Table.find_eq_none_iff.mp absent d.1 (h.selected d.1 (h.mem_rows hd)).1 same

end Attempted

theorem wp_publishOutbox_working {i : ι} :
    wp (working settings before) i (publishOutbox settings) (fun _ _ _ => True) σ [] := by
  unfold publishOutbox fetchPending
  rw [wp_bind]
  refine wp_selectPending hosts_working (fun τ _ _ => ⟨fun _ => trivial, ?_⟩)
  intro locked rows picked
  have attempted : Attempted settings rows [] rows τ (rows.map (fun o => .lockOutbox o.id)) := by
    refine ⟨(List.append_nil _).symm, rfl, picked.nodup, ?_, fun d hd => (nomatch hd)⟩
    intro o ho
    obtain ⟨member, free⟩ := List.mem_filter.mp (picked.mem o ho)
    simp only [Bool.and_eq_true, decide_eq_true_eq] at free
    exact ⟨member, free.1⟩
  rw [Post.andThen_ok, wp_bind, List.nil_append]
  refine wp_foldlM (fun _ rest τ ws => ∃ done, Attempted settings rows done rest τ ws) ?_ ?_ 0
    rows ⟨[], attempted⟩
  · rintro published o rest φ ws ⟨done, attempted⟩
    refine wp_publishRow hosts_working ?_ ?_
    · intro τ error rely _
      exact ⟨_, (attempted.interfere rely).record (.inr ⟨error, rfl⟩)⟩
    · intro τ rely inv _
      have delivered := (attempted.interfere rely).deliver o.payload.eventId o.payload.point
      have appended : τ.world.deliveries <+:
          τ.world.deliveries ++ [(o.payload.eventId, o.payload.point)] := List.prefix_append _ _
      refine ⟨Protocol.interleaved_guarantees_world (inv.world appended.subset)
        ⟨Clock.Le.refl _, appended⟩, ?_⟩
      intro υ now rely' _
      have delivers : World.Delivers _ υ.world := rely'.world
      refine ⟨_, (delivered.interfere rely').record (.inl ⟨delivers.2.subset ?_, now, rfl⟩)⟩
      exact List.mem_append_right _ (List.mem_singleton.mpr rfl)
  · rintro published φ ws ⟨done, attempted⟩
    rw [Post.andThen_ok, wp_bind, wp_commitWork]
    intro υ rely inv
    refine ⟨fun _ => trivial, ?_, trivial⟩
    exact Protocol.interleaved_guarantees_publish ((attempted.interfere rely).publish inv i) trivial

end Pass

theorem wp_job {settings : Settings} {before : Store} {σ : State ι} {i : ι} (job : OutboxJob)
    (positive : 1 ≤ settings.OUTBOX_MAX_ATTEMPTS) (sound : Sound settings before σ) :
    wp (working settings before) i (job.prog settings) (fun _ _ _ => True) σ [] := by
  cases job with
  | publish =>
      unfold OutboxJob.prog
      rw [wp_bind]
      exact wp_mono wp_publishOutbox_working (fun r _ _ _ => by cases r <;> trivial)
  | upsert events changedBy =>
      unfold OutboxJob.prog
      rw [wp_bind]
      refine wp_mono (wp_upsertTransaction_of_commits hosts_working (fun _ sound => sound.ids)
        (working_commits positive i) sound) (fun r _ _ _ => by cases r <;> trivial)

/-- The session has a pending write or lock on outbox row `id`. -/
def Holds {α : Type} (session : TxSession α) (id : Uuid) : Prop :=
  ∃ w ∈ session.writes, .outbox id ∈ w.locks

/-- Interleaved passes and upserts, any of which may end at any point. Every row is
accounted for, no row disappears, a row that is published or dead stays as it is, and no
two sessions hold the same row. -/
theorem publication_sound [Fintype ι] [DecidableEq ι] {settings : Settings}
    (positive : 1 ≤ settings.OUTBOX_MAX_ATTEMPTS) {start : State ι} (empty : start.log = [])
    (ids : start.store.EventIdsUnique)
    (fresh : ∀ o ∈ start.store.outboxEvents, o.status = .pending ∧ o.attempts = 0)
    (jobs : ι → OutboxJob) {st : Cluster Answer Exn Store Write World ι Unit}
    (run : Cluster.Reachable postgres
      (Cluster.start start (fun i => (jobs i).prog settings)) st) :
    (∀ o ∈ st.shared.store.outboxEvents, AttemptsAccounted settings st.shared o) ∧
      (Shared.states postgres start.store st.shared).IsChain RowsKept ∧
      (Shared.states postgres start.store st.shared).getLast? = some st.shared.store ∧
      ∀ i j id, Holds (st.sessions i) id → Holds (st.sessions j) id → i = j := by
  have sound : Sound settings start.store start := by
    refine ⟨?_, ?_, ids, ?_, ?_⟩
    · simp [Shared.Replays, empty]
    · simp [Shared.states, empty]
    · intro o ho
      obtain ⟨pending, none⟩ := fresh o ho
      refine ⟨fun status => ?_, fun status => ?_, fun _ => ⟨none ▸ positive, ?_⟩⟩
      · rw [pending] at status
        cases status
      · rw [pending] at status
        cases status
      · rw [none, empty]
        rfl
    · rw [empty]
      intro entry member
      cases member
  have safe := Cluster.Safe.start (working settings start.store) (Q := fun _ _ _ _ => True) sound
    (fun i => wp_job (jobs i) positive sound)
  have kept := safe.run Protocol.interleaved_coherent (fun _ => .trivial) run
  have reached : Sound settings start.store st.shared := kept.inv
  refine ⟨reached.accounted, reached.chain, reached.replays.getLast?_states, ?_⟩
  rintro i j id ⟨w, hw, held⟩ ⟨v, hv, held'⟩
  by_contra distinct
  exact not_lock_of_compatible (kept.disjoint i j distinct) hw held v hv held'

/-- An upsert and two workers. -/
def twoWorkers : Party → OutboxJob
  | .first => .upsert [sampleCommit "draft"] none
  | .second => .publish
  | .third => .publish

/-- The second worker skips the row that the first one has locked. -/
def skipping : List (Party × Move Exn Choice) :=
  (createScript 10).map (Prod.mk .first) ++
    [(.second, .step (.rows [12])), (.third, .step (.rows [])), (.second, .step (.flag true)),
      (.second, .step .none), (.third, .step .none), (.second, .step (.time 0)),
      (.second, .step .none), (.second, .step .none)]

/-- The row is published, and it has been delivered. -/
theorem publication_sound_skipping : ∃ st,
    (Cluster.start ⟨{}, ∅, []⟩ (fun i => (twoWorkers i).prog {})).play postgres
        (fun _ _ _ => True) skipping = some st ∧
      st.shared.store.outboxEvents.rows.map OutboxEvent.status = [.published] ∧
        ∀ o ∈ st.shared.store.outboxEvents,
          (o.payload.eventId, o.payload.point) ∈ st.shared.world.deliveries := by
  have shape : ((Cluster.start ⟨{}, ∅, []⟩ (fun i => (twoWorkers i).prog {})).play postgres
      (fun _ _ _ => True) skipping).map (fun st =>
        st.shared.store.outboxEvents.rows.map OutboxEvent.status) = some [.published] := by
    decide +kernel
  obtain ⟨st, run, statuses⟩ := Option.map_eq_some_iff.mp shape
  have ids : (∅ : Store).EventIdsUnique := fun _ hx => (List.not_mem_nil hx).elim
  have fresh : ∀ o ∈ (∅ : Store).outboxEvents, o.status = .pending ∧ o.attempts = 0 :=
    fun _ ho => (List.not_mem_nil ho).elim
  have reached := Cluster.run_of_play run
  refine ⟨st, run, statuses, fun o ho => ?_⟩
  refine ((publication_sound (by decide) rfl ids fresh twoWorkers reached).1 o ho).published ?_
  have listed : o.status ∈ st.shared.store.outboxEvents.rows.map OutboxEvent.status :=
    List.mem_map.mpr ⟨o, ho, rfl⟩
  rw [statuses] at listed
  exact List.mem_singleton.mp listed

end OmniSync
