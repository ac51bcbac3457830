import OmniSync.Data.Forall2
import OmniSync.Database.Pending
import OmniSync.Events.Service

/-!
# What an upsert writes

`upsertEventsBulk` is executed once, symbolically, under any protocol that hosts
its statements and keeps event ids unique. `Upserted` collects what holds at its
end, in a form that survives until the commit: which rows were read, what was
prepared from them, and what is pending. Everything that is said about the event
service is derived from `wp_upsertEventsBulk`.
-/

namespace OmniSync

open Txn

variable {ι : Type}

section Snapshot

variable {P : Protocol postgres ι} {i : ι} {σ : State ι} {ws : List Write}

theorem wp_snapshot (hosts : Hosts P) {changedBy : Option String} {event : NormalizedEvent}
    {Q : Post Exn Store Write World ι Unit}
    (h : ∀ τ, P.rely ws σ τ → P.inv τ → (∀ e, Q (.error e) τ ws) ∧
      (P.admits (.selectVersion event.id event.version) τ ws →
        ((postgres.view τ.store ws).eventVersions.find (event.id, event.version)).isSome →
          Q (.ok ()) τ ws) ∧
      ∀ id t, (postgres.view τ.store ws).eventVersions.find (event.id, event.version) = none →
        Q (.ok ()) τ (ws ++ [.addVersion (snapshotOf changedBy event id t)])) :
    wp P i (snapshot changedBy event) Q σ ws := by
  unfold snapshot
  rw [wp_bind]
  refine wp_selectVersion (fun τ rely inv admitted => ?_)
  obtain ⟨failing, present, _⟩ := h τ rely inv
  refine ⟨failing, ?_⟩
  cases found : (postgres.view τ.store ws).eventVersions.find (event.id, event.version) with
  | some v => exact present admitted (by rw [found]; rfl)
  | none =>
      change wp P i (Db.insertVersion (snapshotOf changedBy event) >>= fun _ => pure ()) Q τ ws
      rw [wp_bind]
      refine wp_insertVersion hosts (fun υ rely' inv' => ?_)
      obtain ⟨failing', _, absent⟩ := h υ (P.rely_trans rely rely') inv'
      exact ⟨failing', fun id t free => absent id t free⟩

end Snapshot

/-- The decisions and draws of one upsert. -/
structure UpsertPlan where
  now : Time
  existing : String × String → Option NormalizedEvent
  before : List EventVersion
  rows : List NormalizedEvent
  after : List EventVersion
  outbox : List OutboxEvent

namespace UpsertPlan

/-- The writes of an upsert up to its last snapshot. -/
def stored (p : UpsertPlan) : List Write :=
  p.before.map .addVersion ++ p.rows.map .putEvent ++ p.after.map .addVersion

/-- The writes of an upsert. -/
def writes (p : UpsertPlan) : List Write := p.stored ++ p.outbox.map .addOutbox

theorem append_stored (p : UpsertPlan) (ws : List Write) : ws ++ p.stored =
    ws ++ p.before.map .addVersion ++ p.rows.map .putEvent ++ p.after.map .addVersion := by
  simp only [stored, List.append_assoc]

theorem append_writes (p : UpsertPlan) (ws : List Write) :
    ws ++ p.writes = ws ++ p.stored ++ p.outbox.map .addOutbox := by
  simp only [writes, List.append_assoc]

end UpsertPlan

/-- The row that is prepared for `e`. -/
def Prepared (existing : String × String → Option NormalizedEvent) (now : Time)
    (e : NormalizedEventCreate) (row : NormalizedEvent) : Prop :=
  ∃ id, row = e.toRow id (targetVersion (existing e.key) e) now

/-- `v` is a snapshot of `event`. -/
def SnapshotOf (changedBy : Option String) (event : NormalizedEvent) (v : EventVersion) : Prop :=
  ∃ id t, v = snapshotOf changedBy event id t

/-- `v` is a snapshot of a row that the upsert is about to overwrite with other
content. -/
def PreviousOf (changedBy : Option String) (batch : List NormalizedEventCreate)
    (existing : String × String → Option NormalizedEvent) (v : EventVersion) : Prop :=
  ∃ e ∈ batch, ∃ event, existing e.key = some event ∧ event.content ≠ e.content ∧
    SnapshotOf changedBy event v

section Loops

variable {P : Protocol postgres ι} {i : ι} {σ : State ι} {ws : List Write}
variable {changedBy : Option String} {existing : String × String → Option NormalizedEvent}
variable {now : Time}

theorem wp_snapshotPrevious (hosts : Hosts P) {e : NormalizedEventCreate}
    {Q : Post Exn Store Write World ι Unit} (inv : P.inv σ)
    (h : ∀ τ, P.rely ws σ τ → P.inv τ → (∀ e, Q (.error e) τ ws) ∧
      ((∀ event, existing e.key = some event → event.content ≠ e.content →
        P.admits (.selectVersion event.id event.version) τ ws ∧
          ((postgres.view τ.store ws).eventVersions.find (event.id, event.version)).isSome) →
            Q (.ok ()) τ ws) ∧
      ∀ event, existing e.key = some event → event.content ≠ e.content → ∀ id t,
        (postgres.view τ.store ws).eventVersions.find (event.id, event.version) = none →
          Q (.ok ()) τ (ws ++ [.addVersion (snapshotOf changedBy event id t)])) :
    wp P i (snapshotPrevious changedBy (existing e.key) e) Q σ ws := by
  unfold snapshotPrevious
  have here := (h σ (P.rely_refl ws σ) inv).2.1
  cases found : existing e.key with
  | none =>
      refine here (fun event found' => ?_)
      rw [found] at found'
      cases found'
  | some event =>
      by_cases changed : event.content ≠ e.content
      · simp only [if_pos changed]
        refine wp_snapshot hosts (fun τ rely inv => ?_)
        obtain ⟨failing, skipped, added⟩ := h τ rely inv
        refine ⟨failing, fun admitted present => skipped (fun event' found' _ => ?_),
          added event found changed⟩
        rw [found] at found'
        cases found'
        exact ⟨admitted, present⟩
      · simp only [if_neg changed]
        refine here (fun event' found' changed' => ?_)
        rw [found] at found'
        cases found'
        exact (changed changed').elim

/-- When the version of `row` was looked up, it was in the history: `done` are the
snapshots that were pending then. -/
def FoundInHistory (P : Protocol postgres ι) (ws : List Write) (row : NormalizedEvent)
    (after : List EventVersion) (τ : State ι) : Prop :=
  ∃ φ done, done <+: after ∧ P.rely (ws ++ done.map .addVersion) φ τ ∧
    P.admits (.selectVersion row.id row.version) φ (ws ++ done.map .addVersion) ∧
      ((postgres.view φ.store (ws ++ done.map .addVersion)).eventVersions.find
        (row.id, row.version)).isSome

/-- The version of `row` has been recorded, in `after` or before. -/
def Recorded (P : Protocol postgres ι) (changedBy : Option String) (ws : List Write)
    (row : NormalizedEvent) (after : List EventVersion) (τ : State ι) : Prop :=
  (∃ v ∈ after, SnapshotOf changedBy row v) ∨ FoundInHistory P ws row after τ

theorem Recorded.interfere {row : NormalizedEvent} {after : List EventVersion} {τ υ : State ι}
    (h : Recorded P changedBy ws row after τ) (hosts : Hosts P)
    (rely : P.rely (ws ++ after.map .addVersion) τ υ) : Recorded P changedBy ws row after υ := by
  refine h.imp id ?_
  rintro ⟨φ, done, initial, since, found⟩
  refine ⟨φ, done, initial, P.rely_trans since ?_, found⟩
  obtain ⟨more, rfl⟩ := initial
  rw [List.map_append, ← List.append_assoc] at rely
  exact hosts.weaken rely

theorem Recorded.grow {row : NormalizedEvent} {after : List EventVersion} {τ : State ι}
    (h : Recorded P changedBy ws row after τ) (v : EventVersion) :
    Recorded P changedBy ws row (after ++ [v]) τ := by
  rcases h with ⟨v', hv', snapshot⟩ | ⟨φ, done, initial, found⟩
  · exact .inl ⟨v', List.mem_append_left _ hv', snapshot⟩
  · exact .inr ⟨φ, done, initial.trans (List.prefix_append after [v]), found⟩

/-- The version that `e` overwrites with other content has been recorded. -/
def PreviousRecorded (P : Protocol postgres ι) (changedBy : Option String)
    (existing : String × String → Option NormalizedEvent) (ws : List Write)
    (e : NormalizedEventCreate) (before : List EventVersion) (τ : State ι) : Prop :=
  ∀ event, existing e.key = some event → event.content ≠ e.content →
    Recorded P changedBy ws event before τ

/-- The preparing loop has `rest` still to visit: `rows` are prepared for the events
before it, and snapshots `before` are pending. -/
structure Preparing (P : Protocol postgres ι) (changedBy : Option String)
    (existing : String × String → Option NormalizedEvent) (now : Time)
    (batch : List NormalizedEventCreate) (σ : State ι) (ws : List Write)
    (rows : List NormalizedEvent) (rest : List NormalizedEventCreate) (before : List EventVersion)
    (τ : State ι) : Prop where
  prepared : ∃ first, batch = first ++ rest ∧ List.Forall₂ (Prepared existing now) first rows ∧
    ∀ e ∈ first, PreviousRecorded P changedBy existing ws e before τ
  previous : ∀ v ∈ before, PreviousOf changedBy batch existing v
  pending : Pending τ.store (ws ++ before.map .addVersion)
  rely : P.rely ws σ τ
  inv : P.inv τ

namespace Preparing

variable {batch rest : List NormalizedEventCreate} {rows : List NormalizedEvent}
variable {before : List EventVersion} {τ υ : State ι}

theorem interfere (h : Preparing P changedBy existing now batch σ ws rows rest before τ)
    (hosts : Hosts P) (rely : P.rely (ws ++ before.map .addVersion) τ υ) (inv : P.inv υ) :
    Preparing P changedBy existing now batch σ ws rows rest before υ := by
  obtain ⟨first, split, prepared, recorded⟩ := h.prepared
  refine ⟨⟨first, split, prepared, fun e he event found changed => ?_⟩, h.previous,
    h.pending.rely hosts rely, P.rely_trans h.rely (hosts.weaken rely), inv⟩
  exact (recorded e he event found changed).interfere hosts rely

theorem append {e : NormalizedEventCreate}
    (h : Preparing P changedBy existing now batch σ ws rows (e :: rest) before τ)
    (recorded : PreviousRecorded P changedBy existing ws e before τ) (id : Uuid) :
    Preparing P changedBy existing now batch σ ws
      (rows ++ [e.toRow id (targetVersion (existing e.key) e) now]) rest before τ := by
  obtain ⟨first, split, prepared, each⟩ := h.prepared
  refine ⟨⟨first ++ [e], by simp [split], ?_, fun e' he' => ?_⟩, h.previous, h.pending, h.rely,
    h.inv⟩
  · exact List.rel_append prepared (.cons ⟨id, rfl⟩ .nil)
  · rcases List.mem_append.mp he' with old | new
    · exact each e' old
    · exact List.mem_singleton.mp new ▸ recorded

theorem addVersion (h : Preparing P changedBy existing now batch σ ws rows rest before τ)
    {v : EventVersion} (previous : PreviousOf changedBy batch existing v)
    (absent : (postgres.view τ.store (ws ++ before.map .addVersion)).eventVersions.find v.key = none) :
    Preparing P changedBy existing now batch σ ws rows rest (before ++ [v]) τ := by
  obtain ⟨first, split, prepared, recorded⟩ := h.prepared
  refine ⟨⟨first, split, prepared, fun e he event found changed => ?_⟩, ?_, ?_, h.rely, h.inv⟩
  · exact (recorded e he event found changed).grow v
  · intro v' hv'
    rcases List.mem_append.mp hv' with old | new
    · exact h.previous v' old
    · exact List.mem_singleton.mp new ▸ previous
  · rw [List.map_append, ← List.append_assoc]
    exact h.pending.addVersion absent

end Preparing

/-- The preparing loop. -/
theorem wp_prepareRows (hosts : Hosts P) {batch : List NormalizedEventCreate}
    {Q : Post Exn Store Write World ι (List NormalizedEvent)} (inv : P.inv σ)
    (pending : Pending σ.store ws) (failing : ∀ e τ ws', P.inv τ → Q (.error e) τ ws')
    (done : ∀ rows before τ, Preparing P changedBy existing now batch σ ws rows [] before τ →
      Q (.ok rows) τ (ws ++ before.map .addVersion)) :
    wp P i (batch.foldlM (prepareRow changedBy now existing) []) Q σ ws := by
  refine wp_foldlM (fun rows rest τ ws' => ∃ before, ws' = ws ++ before.map .addVersion ∧
    Preparing P changedBy existing now batch σ ws rows rest before τ) ?_ ?_ [] batch ?_
  · rintro rows e rest τ _ ⟨before, rfl, preparing⟩
    -- Whatever the lookup has added, the row of `e` is appended to the prepared rows.
    have append : ∀ (before : List EventVersion) υ,
        Preparing P changedBy existing now batch σ ws rows (e :: rest) before υ →
        PreviousRecorded P changedBy existing ws e before υ →
        wp P i (Db.uuid4 >>= fun id =>
          pure (rows ++ [e.toRow id (targetVersion (existing e.key) e) now]))
          (Q.andThen (fun rows φ ws' => ∃ before, ws' = ws ++ before.map .addVersion ∧
            Preparing P changedBy existing now batch σ ws rows rest before φ)) υ
          (ws ++ before.map .addVersion) := by
      intro before υ preparing recorded
      rw [wp_bind]
      refine wp_uuid4 hosts (fun φ rely inv id => ?_)
      exact ⟨before, rfl, (preparing.append recorded id).interfere hosts rely inv⟩
    unfold prepareRow
    rw [wp_bind]
    refine wp_snapshotPrevious hosts preparing.inv (fun υ rely inv => ?_)
    have here := preparing.interfere hosts rely inv
    refine ⟨fun e => failing e _ _ inv, fun present => append before υ here ?_, ?_⟩
    · intro event found changed
      obtain ⟨admitted, known⟩ := present event found changed
      exact .inr ⟨υ, before, List.prefix_rfl, P.rely_refl _ υ, admitted, known⟩
    · intro event found changed id t absent
      obtain ⟨first, split, _⟩ := preparing.prepared
      have previous : PreviousOf changedBy batch existing (snapshotOf changedBy event id t) :=
        ⟨e, by simp [split], event, found, changed, id, t, rfl⟩
      have recorded : PreviousRecorded P changedBy existing ws e
          (before ++ [snapshotOf changedBy event id t]) υ := by
        intro event' found' _
        rw [found] at found'
        cases found'
        exact .inl ⟨_, by simp, id, t, rfl⟩
      have grown := append _ υ (here.addVersion previous absent) recorded
      simpa only [Post.andThen_ok, List.map_append, List.map_cons, List.map_nil,
        List.append_assoc] using grown
  · rintro rows τ _ ⟨before, rfl, preparing⟩
    exact done rows before τ preparing
  · exact ⟨[], by simp, ⟨[], rfl, .nil, fun _ he => (List.not_mem_nil he).elim⟩, by simp,
      by simpa using pending, P.rely_refl ws σ, inv⟩

/-- The upserting loop has `rest` still to visit: the rows `stored` are pending for the
rows before it. -/
structure Storing (P : Protocol postgres ι) (rows : List NormalizedEvent) (σ : State ι)
    (ws : List Write) (rest stored : List NormalizedEvent) (τ : State ι) : Prop where
  visited : ∃ first, rows = first ++ rest ∧
    stored = first.map (postgres.view τ.store ws).excluded
  pending : Pending τ.store (ws ++ List.map .putEvent stored)
  rely : P.rely ws σ τ
  inv : P.inv τ

/-- The committed rows under pending upserts stay, and with them what the upserts
leave. -/
theorem excluded_stable (hosts : Hosts P) {τ υ : State ι} {vs : List Write}
    (rely : P.rely vs τ υ) {row : NormalizedEvent}
    (held : .putEvent ((postgres.view τ.store ws).excluded row) ∈ vs) :
    (postgres.view υ.store ws).excluded row = (postgres.view τ.store ws).excluded row := by
  have same := hosts.look_eq (fun s => s.normalizedEvents.find row.key)
    Store.put_normalizedEvents_of_not_lock rely held (by simp [Write.locks])
  unfold Store.excluded
  rw [find_view_congr same]

namespace Storing

variable {rows rest stored : List NormalizedEvent} {τ υ : State ι}

theorem interfere (h : Storing P rows σ ws rest stored τ) (hosts : Hosts P)
    (rely : P.rely (ws ++ stored.map .putEvent) τ υ) (inv : P.inv υ) :
    Storing P rows σ ws rest stored υ := by
  refine ⟨?_, h.pending.rely hosts rely, P.rely_trans h.rely (hosts.weaken rely), inv⟩
  obtain ⟨first, split, same⟩ := h.visited
  refine ⟨first, split, same.trans (List.map_congr_left (fun row hr => ?_))⟩
  refine (excluded_stable hosts rely (List.mem_append_right _ ?_)).symm
  exact List.mem_map.mpr ⟨_, same ▸ List.mem_map.mpr ⟨row, hr, rfl⟩, rfl⟩

theorem put (h : Storing P rows σ ws (row :: rest) stored τ)
    (unique : (rows.map NormalizedEvent.key).Nodup) (ids : τ.store.EventIdsUnique)
    (unused : (postgres.view τ.store (ws ++ stored.map .putEvent)).normalizedEvents.find row.key =
        none → ∀ other ∈ (postgres.view τ.store (ws ++ stored.map .putEvent)).normalizedEvents,
      other.id ≠ row.id) :
    Storing P rows σ ws rest
      (stored ++ [(postgres.view τ.store (ws ++ stored.map .putEvent)).excluded row]) τ := by
  obtain ⟨first, split, same⟩ := h.visited
  have other : ∀ row', .putEvent row' ∈ stored.map Write.putEvent → row'.key ≠ row.key := by
    intro row' hr' key
    obtain ⟨row'', hr'', eq⟩ := List.mem_map.mp hr'
    cases eq
    obtain ⟨prepared, hp, rfl⟩ := List.mem_map.mp (same ▸ hr'')
    rw [Store.excluded_key] at key
    rw [split, List.map_append, List.nodup_append] at unique
    exact unique.2.2 prepared.key (List.mem_map.mpr ⟨prepared, hp, rfl⟩) row.key (by simp) key
  have base : (postgres.view τ.store (ws ++ stored.map .putEvent)).excluded row =
      (postgres.view τ.store ws).excluded row := by
    unfold Store.excluded
    rw [postgres.view_append, find_view_normalizedEvents_of_free other]
  refine ⟨⟨first ++ [row], by simp [split], ?_⟩, ?_, h.rely, h.inv⟩
  · rw [base, List.map_append, same, List.map_cons, List.map_nil]
  · rw [List.map_append, ← List.append_assoc]
    exact h.pending.putEvent ids unused

end Storing

/-- The upserting loop. -/
theorem wp_storeRows (hosts : Hosts P) (ids : ∀ σ, P.inv σ → σ.store.EventIdsUnique)
    {rows : List NormalizedEvent} {Q : Post Exn Store Write World ι Unit}
    (unique : (rows.map NormalizedEvent.key).Nodup) (inv : P.inv σ)
    (pending : Pending σ.store ws) (failing : ∀ e τ ws', P.inv τ → Q (.error e) τ ws')
    (done : ∀ stored τ, Storing P rows σ ws [] stored τ →
      Q (.ok ()) τ (ws ++ List.map .putEvent stored)) :
    wp P i (rows.forM Db.insertOnConflict) Q σ ws := by
  refine wp_forM (fun rest τ ws' => ∃ stored, ws' = ws ++ List.map .putEvent stored ∧
    Storing P rows σ ws rest stored τ) ?_ ?_ rows ?_
  · rintro row rest τ _ ⟨stored, rfl, storing⟩
    refine wp_insertOnConflict hosts (fun υ rely inv => ⟨fun e => failing e _ _ inv, ?_⟩)
    intro unused
    have next := (storing.interfere hosts rely inv).put unique (ids υ inv) unused
    exact ⟨_, by simp, next⟩
  · rintro τ _ ⟨stored, rfl, storing⟩
    exact done stored τ storing
  · exact ⟨[], by simp, ⟨[], rfl, rfl⟩, by simpa using pending, P.rely_refl ws σ, inv⟩

/-- The recording loop has `rest` still to visit: the snapshots `after` are pending. -/
structure Recording (P : Protocol postgres ι) (changedBy : Option String)
    (rows : List NormalizedEvent) (σ : State ι) (ws : List Write) (rest : List NormalizedEvent)
    (after : List EventVersion) (τ : State ι) : Prop where
  visited : ∃ first, rows = first ++ rest ∧ ∀ row ∈ first, Recorded P changedBy ws row after τ
  snapshots : ∀ v ∈ after, ∃ row ∈ rows, SnapshotOf changedBy row v
  pending : Pending τ.store (ws ++ List.map .addVersion after)
  rely : P.rely ws σ τ
  inv : P.inv τ

namespace Recording

variable {rows rest : List NormalizedEvent} {row : NormalizedEvent} {after : List EventVersion}
variable {τ υ : State ι}

theorem interfere (h : Recording P changedBy rows σ ws rest after τ) (hosts : Hosts P)
    (rely : P.rely (ws ++ after.map .addVersion) τ υ) (inv : P.inv υ) :
    Recording P changedBy rows σ ws rest after υ := by
  obtain ⟨first, split, recorded⟩ := h.visited
  exact ⟨⟨first, split, fun row hr => (recorded row hr).interfere hosts rely⟩, h.snapshots,
    h.pending.rely hosts rely, P.rely_trans h.rely (hosts.weaken rely), inv⟩

theorem present (h : Recording P changedBy rows σ ws (row :: rest) after τ)
    (admitted : P.admits (.selectVersion row.id row.version) τ (ws ++ after.map .addVersion))
    (found : ((postgres.view τ.store (ws ++ after.map .addVersion)).eventVersions.find
      (row.id, row.version)).isSome) : Recording P changedBy rows σ ws rest after τ := by
  obtain ⟨first, split, recorded⟩ := h.visited
  refine ⟨⟨first ++ [row], by simp [split], ?_⟩, h.snapshots, h.pending, h.rely, h.inv⟩
  intro row' hr'
  rcases List.mem_append.mp hr' with old | new
  · exact recorded row' old
  · cases List.mem_singleton.mp new
    exact .inr ⟨τ, after, List.prefix_rfl, P.rely_refl _ τ, admitted, found⟩

theorem add (h : Recording P changedBy rows σ ws (row :: rest) after τ) {v : EventVersion}
    (snapshot : SnapshotOf changedBy row v)
    (absent : (postgres.view τ.store (ws ++ after.map .addVersion)).eventVersions.find v.key =
      none) : Recording P changedBy rows σ ws rest (after ++ [v]) τ := by
  obtain ⟨first, split, recorded⟩ := h.visited
  refine ⟨⟨first ++ [row], by simp [split], ?_⟩, ?_, ?_, h.rely, h.inv⟩
  · intro row' hr'
    rcases List.mem_append.mp hr' with old | new
    · exact (recorded row' old).grow v
    · cases List.mem_singleton.mp new
      exact .inl ⟨v, by simp, snapshot⟩
  · intro v' hv'
    rcases List.mem_append.mp hv' with old | new
    · exact h.snapshots v' old
    · cases List.mem_singleton.mp new
      exact ⟨row, by simp [split], snapshot⟩
  · rw [List.map_append, ← List.append_assoc]
    exact h.pending.addVersion absent

end Recording

/-- The recording loop. -/
theorem wp_recordRows (hosts : Hosts P) {rows : List NormalizedEvent}
    {Q : Post Exn Store Write World ι Unit} (inv : P.inv σ) (pending : Pending σ.store ws)
    (failing : ∀ e τ ws', P.inv τ → Q (.error e) τ ws')
    (done : ∀ after τ, Recording P changedBy rows σ ws [] after τ →
      Q (.ok ()) τ (ws ++ List.map .addVersion after)) :
    wp P i (rows.forM (snapshot changedBy)) Q σ ws := by
  refine wp_forM (fun rest τ ws' => ∃ after, ws' = ws ++ List.map .addVersion after ∧
    Recording P changedBy rows σ ws rest after τ) ?_ ?_ rows ?_
  · rintro row rest τ _ ⟨after, rfl, recording⟩
    refine wp_snapshot hosts (fun υ rely inv => ?_)
    have here := recording.interfere hosts rely inv
    refine ⟨fun e => failing e _ _ inv, fun admitted found => ?_, fun id t absent => ?_⟩
    · exact ⟨after, rfl, here.present admitted found⟩
    · exact ⟨after ++ [snapshotOf changedBy row id t], by simp, here.add ⟨id, t, rfl⟩ absent⟩
  · rintro τ _ ⟨after, rfl, recording⟩
    exact done after τ recording
  · exact ⟨[], by simp, ⟨[], rfl, by simp⟩, by simp, by simpa using pending, P.rely_refl ws σ, inv⟩

end Loops

/-- What holds of an upsert of `events` that began in `σ` with `ws` pending and has
come to `τ`. Everything here survives interference until the commit. -/
structure Upserted (P : Protocol postgres ι) (events : List NormalizedEventCreate)
    (changedBy : Option String) (p : UpsertPlan) (σ : State ι) (ws : List Write)
    (τ : State ι) : Prop where
  rely : P.rely ws σ τ
  read : ∃ φ, P.rely ws σ φ ∧ P.rely ws φ τ ∧ ∀ e ∈ deduped events,
    p.existing e.key = (postgres.view φ.store ws).normalizedEvents.find e.key
  before : ∀ v ∈ p.before, PreviousOf changedBy (deduped events) p.existing v
  overwritten : ∀ e ∈ deduped events, PreviousRecorded P changedBy p.existing ws e p.before τ
  rows : ∃ prepared, List.Forall₂ (Prepared p.existing p.now) (deduped events) prepared ∧
    p.rows = prepared.map (postgres.view τ.store ws).excluded
  snapshots : ∀ v ∈ p.after, ∃ row ∈ p.rows, SnapshotOf changedBy row v
  recorded : ∀ row ∈ p.rows, Recorded P changedBy
    (ws ++ p.before.map .addVersion ++ p.rows.map .putEvent) row p.after τ
  outbox : List.Forall₂ (fun row o => ∃ id t, o = enqueueEvent row id t) p.rows p.outbox
  flushed : ∃ φ, P.inv φ ∧ P.rely (ws ++ p.stored) φ τ ∧
    (∀ o ∈ p.outbox, φ.world.clock.shows o.createdAt = true) ∧
      (φ.world.clock.flush (p.outbox.map OutboxEvent.createdAt)).Le τ.world.clock
  pending : Pending τ.store (ws ++ p.writes)

section Composition

variable {P : Protocol postgres ι} {i : ι} {σ τ : State ι} {ws : List Write}
variable {changedBy : Option String}

theorem Prepared.map_key {existing : String × String → Option NormalizedEvent} {now : Time}
    {batch : List NormalizedEventCreate} {rows : List NormalizedEvent}
    (h : List.Forall₂ (Prepared existing now) batch rows) :
    rows.map NormalizedEvent.key = batch.map NormalizedEventCreate.key := by
  refine h.map_eq ?_
  rintro e _ ⟨id, rfl⟩
  rfl

/-- After the upserting loop a session sees each row that it has stored. -/
theorem Storing.find_view {rows stored : List NormalizedEvent}
    (h : Storing P rows σ ws [] stored τ) (unique : (rows.map NormalizedEvent.key).Nodup)
    {row : NormalizedEvent} (hr : row ∈ stored) :
    (postgres.view τ.store (ws ++ stored.map .putEvent)).normalizedEvents.find row.key =
      some row := by
  obtain ⟨first, split, same⟩ := h.visited
  rw [List.append_nil] at split
  subst split
  have once : (stored.map NormalizedEvent.key).Nodup := by
    rw [same, List.map_map]
    simpa only [Function.comp_def, Store.excluded_key] using unique
  obtain ⟨a, b, split⟩ := List.append_of_mem hr
  rw [split, List.map_append, List.map_cons, ← List.append_assoc]
  refine find_view_of_putEvent ?_
  intro row' hr' key
  obtain ⟨row'', hr'', eq⟩ := List.mem_map.mp hr'
  cases eq
  rw [split, List.map_append, List.map_cons, List.nodup_append] at once
  exact (List.nodup_cons.mp once.2.1).1 (List.mem_map.mpr ⟨row', hr'', key⟩)

/-- The loops over a batch that look up every event in the reloaded rows are loops over
these rows. -/
theorem loops_over_rows (changedBy : Option String) {final : String × String → Option NormalizedEvent}
    {batch : List NormalizedEventCreate} {rows : List NormalizedEvent}
    (h : List.Forall₂ (fun e row => final e.key = some row) batch rows) :
    batch.forM (fun e => snapshotFound changedBy (final e.key)) = rows.forM (snapshot changedBy) ∧
      batch.filterMap (fun e => (final e.key).map enqueueEvent) = rows.map enqueueEvent ∧
        batch.filterMap (fun e => final e.key) = rows := by
  induction h with
  | nil => exact ⟨rfl, rfl, rfl⟩
  | @cons e row batch rows head _ ih =>
      obtain ⟨loop, drafts, results⟩ := ih
      refine ⟨?_, ?_, ?_⟩
      · change (snapshotFound changedBy (final e.key) >>= fun _ =>
          batch.forM (fun e => snapshotFound changedBy (final e.key))) = _
        rw [loop, head]
        rfl
      · rw [List.filterMap_cons_some (by rw [head]; rfl), drafts, List.map_cons]
      · simp only [List.filterMap_cons, head, results]

/-- The rows of one flush. -/
theorem enqueued {rows : List NormalizedEvent} {stamps : List (Uuid × Time)}
    (h : stamps.length = (rows.map enqueueEvent).length) :
    List.Forall₂ (fun row o => ∃ id t, o = enqueueEvent row id t) rows
        (List.zipWith (fun row p => row p.1 p.2) (rows.map enqueueEvent) stamps) ∧
      (List.zipWith (fun row p => row p.1 p.2) (rows.map enqueueEvent) stamps).map
          OutboxEvent.createdAt = stamps.map Prod.snd ∧
        (List.zipWith (fun row p => row p.1 p.2) (rows.map enqueueEvent) stamps).map
          OutboxEvent.id = stamps.map Prod.fst := by
  induction rows generalizing stamps with
  | nil =>
      cases stamps with
      | nil => exact ⟨.nil, rfl, rfl⟩
      | cons p stamps => cases h
  | cons row rows ih =>
      cases stamps with
      | nil => cases h
      | cons p stamps =>
          obtain ⟨each, times, ids⟩ := ih (Nat.succ.inj h)
          refine ⟨.cons ⟨p.1, p.2, rfl⟩ each, ?_, ?_⟩
          · exact congrArg (p.2 :: ·) times
          · exact congrArg (p.1 :: ·) ids

/-- The specification of the bulk upsert. -/
theorem wp_upsertEventsBulk (hosts : Hosts P) (ids : ∀ σ, P.inv σ → σ.store.EventIdsUnique)
    {events : List NormalizedEventCreate}
    {Q : Post Exn Store Write World ι (List NormalizedEvent)} (inv : P.inv σ)
    (pending : Pending σ.store ws) (failing : ∀ e τ ws', P.inv τ → Q (.error e) τ ws')
    (done : ∀ p τ, P.inv τ → Upserted P events changedBy p σ ws τ →
      Q (.ok p.rows) τ (ws ++ p.writes)) :
    wp P i (NormalizedEventService.upsertEventsBulk events changedBy) Q σ ws := by
  unfold NormalizedEventService.upsertEventsBulk
  by_cases empty : events.isEmpty
  · rw [if_pos empty]
    rw [List.isEmpty_iff] at empty
    subst empty
    have nothing := done ⟨0, fun _ => none, [], [], [], []⟩ σ inv
      ⟨P.rely_refl ws σ, ⟨σ, P.rely_refl ws σ, P.rely_refl ws σ, fun e he => (nomatch he)⟩,
        fun v hv => (nomatch hv), fun e he => (nomatch he), ⟨[], .nil, rfl⟩,
        fun v hv => (nomatch hv), fun row hr => (nomatch hr), .nil,
        ⟨σ, inv, P.rely_refl _ σ, fun o ho => (nomatch ho), by
          cases clock : σ.world.clock with
          | free => trivial
          | shared now gap => exact ⟨Int.le_refl now, rfl⟩⟩,
        by simpa [UpsertPlan.writes, UpsertPlan.stored] using pending⟩
    simpa [UpsertPlan.writes, UpsertPlan.stored] using nothing
  rw [if_neg empty, wp_bind]
  refine wp_utcNow hosts (fun τ₁ rely₁ inv₁ now => ?_)
  rw [Post.andThen_ok, wp_bind]
  refine wp_selectEvents hosts (fun τ₂ rely₂ inv₂ => ⟨fun e => failing e _ _ inv₂, ?_⟩)
  have read : ∀ e ∈ deduped events, rowMap ((postgres.view τ₂.store ws).normalizedEvents.rows.filter
      (fun row => decide (row.key ∈ (deduped events).map NormalizedEventCreate.key))) e.key =
        (postgres.view τ₂.store ws).normalizedEvents.find e.key :=
    fun e he => rowMap_filter (List.mem_map.mpr ⟨e, he, rfl⟩)
  generalize (postgres.view τ₂.store ws).normalizedEvents.rows.filter
    (fun row => decide (row.key ∈ (deduped events).map NormalizedEventCreate.key)) = existing
      at read ⊢
  rw [Post.andThen_ok, wp_bind]
  have since₂ := P.rely_trans rely₁ rely₂
  refine wp_prepareRows hosts inv₂ (pending.rely hosts since₂) (fun e => failing e) ?_
  intro rows before τ₃ preparing
  obtain ⟨first, split, prepared, overwritten⟩ := preparing.prepared
  rw [List.append_nil] at split
  subst split
  have unique : (rows.map NormalizedEvent.key).Nodup := by
    rw [Prepared.map_key prepared]
    exact nodup_deduped events
  rw [Post.andThen_ok, wp_bind]
  refine wp_storeRows hosts ids unique preparing.inv preparing.pending (fun e => failing e) ?_
  intro stored τ₄ storing
  rw [Post.andThen_ok, wp_bind]
  refine wp_selectEvents hosts (fun τ₅ rely₅ inv₅ => ⟨fun e => failing e _ _ inv₅, ?_⟩)
  have reloading := storing.interfere hosts rely₅ inv₅
  have reloaded : List.Forall₂ (fun e row => rowMap ((postgres.view τ₅.store
      (ws ++ before.map .addVersion ++ stored.map .putEvent)).normalizedEvents.rows.filter
        (fun row => decide (row.key ∈ (deduped events).map NormalizedEventCreate.key))) e.key =
          some row) (deduped events) stored := by
    obtain ⟨first, split, same⟩ := reloading.visited
    rw [List.append_nil] at split
    subst split
    have each : List.Forall₂ (fun e row => row.key = e.key) (deduped events) stored := by
      rw [same, List.forall₂_map_right_iff]
      refine prepared.imp ?_
      rintro e _ ⟨id, rfl⟩
      exact Store.excluded_key _ _
    refine each.imp_of_mem (fun e he row hr key => ?_)
    rw [rowMap_filter (List.mem_map.mpr ⟨e, he, rfl⟩), ← key]
    exact reloading.find_view unique hr
  generalize (postgres.view τ₅.store
    (ws ++ before.map .addVersion ++ stored.map .putEvent)).normalizedEvents.rows.filter
      (fun row => decide (row.key ∈ (deduped events).map NormalizedEventCreate.key)) = final
        at reloaded ⊢
  obtain ⟨loop, drafts, results⟩ := loops_over_rows changedBy reloaded
  rw [Post.andThen_ok, wp_bind, loop, drafts, results]
  refine wp_recordRows hosts inv₅ reloading.pending (fun e => failing e) ?_
  intro after τ₆ recording
  rw [Post.andThen_ok, wp_bind]
  refine wp_insertOutbox hosts (fun τ₇ τ₈ rely₇ inv₇ rely₈ inv₈ => ⟨fun e => failing e _ _ inv₈, ?_⟩)
  intro stamps length shown store clock once absent
  have recorded := recording.interfere hosts rely₇ inv₇
  obtain ⟨each, times, drawn⟩ := enqueued length
  generalize List.zipWith (fun row p => row p.1 p.2) (stored.map enqueueEvent) stamps = outbox
    at each times drawn ⊢
  let p : UpsertPlan := ⟨now, rowMap existing, before, stored, after, outbox⟩
  rw [← p.append_stored ws] at rely₈ absent ⊢
  have rely₅₈ := P.rely_trans recorded.rely (hosts.weaken (p.append_stored ws ▸ rely₈))
  have kept := reloading.interfere hosts rely₅₈ inv₈
  have recorded₈ := recorded.interfere hosts (p.append_stored ws ▸ rely₈) inv₈
  have rely₃ := P.rely_trans preparing.rely (hosts.weaken kept.rely)
  have result := done p τ₈ inv₈
    { rely := P.rely_trans since₂ rely₃
      read := ⟨τ₂, since₂, rely₃, read⟩
      before := preparing.previous
      overwritten := fun e he event found changed =>
        (overwritten e he event found changed).interfere hosts kept.rely
      rows := by
        obtain ⟨first, split, same⟩ := kept.visited
        rw [List.append_nil] at split
        subst split
        refine ⟨rows, prepared, same.trans (List.map_congr_left (fun row _ => ?_))⟩
        unfold Store.excluded
        rw [postgres.view_append, find_view_normalizedEvents_of_free (by simp)]
      snapshots := recorded.snapshots
      recorded := by
        obtain ⟨first, split, each⟩ := recorded₈.visited
        rw [List.append_nil] at split
        exact fun row hr => each row (split ▸ hr)
      outbox := each
      flushed := by
        refine ⟨τ₇, inv₇, rely₈, ?_, by rw [clock, ← times]; exact Clock.Le.refl _⟩
        intro o ho
        obtain ⟨stamp, hs, same⟩ := List.mem_map.mp
          (times ▸ List.mem_map.mpr ⟨o, ho, rfl⟩ : o.createdAt ∈ stamps.map Prod.snd)
        exact same ▸ shown stamp hs
      pending := by
        rw [p.append_writes]
        refine (p.append_stored ws ▸ recorded₈.pending).addOutbox ?_ (drawn ▸ once)
        intro o ho
        obtain ⟨stamp, hs, same⟩ := List.mem_map.mp
          (drawn ▸ List.mem_map.mpr ⟨o, ho, rfl⟩ : o.id ∈ stamps.map Prod.fst)
        exact same ▸ absent stamp hs }
  rw [p.append_writes] at result
  exact result

end Composition

section Commit

theorem mem_writes_putEvent {p : UpsertPlan} {row : NormalizedEvent} :
    .putEvent row ∈ p.writes ↔ row ∈ p.rows := by
  simp [UpsertPlan.writes, UpsertPlan.stored]

theorem mem_writes_addVersion {p : UpsertPlan} {v : EventVersion} :
    .addVersion v ∈ p.writes ↔ v ∈ p.before ∨ v ∈ p.after := by
  simp [UpsertPlan.writes, UpsertPlan.stored]

theorem mem_writes_addOutbox {p : UpsertPlan} {o : OutboxEvent} :
    .addOutbox o ∈ p.writes ↔ o ∈ p.outbox := by
  simp [UpsertPlan.writes, UpsertPlan.stored]

/-- The writes of an upsert are about to be committed to `s`. -/
structure Committing (s : Store) (p : UpsertPlan) : Prop where
  keys : (p.rows.map NormalizedEvent.key).Nodup
  enqueued : List.Forall₂ (fun row o => ∃ id t, o = enqueueEvent row id t) p.rows p.outbox
  pending : Pending s p.writes

namespace Committing

variable {s : Store} {p : UpsertPlan}

theorem eq_of_id (h : Committing s p) {row row' : NormalizedEvent} (hr : row ∈ p.rows)
    (hr' : row' ∈ p.rows) (same : row.id = row'.id) : row = row' :=
  List.inj_on_of_nodup_map h.keys hr hr'
    ((h.pending.identity row row' (mem_writes_putEvent.mpr hr) (mem_writes_putEvent.mpr hr')).mpr
      same)

/-- A committed event has the id of a stored one exactly when it has its key. -/
theorem key_eq_iff (h : Committing s p) {row x : NormalizedEvent} (hr : row ∈ p.rows)
    (hx : x ∈ s.normalizedEvents) : x.key = row.key ↔ x.id = row.id :=
  h.pending.events row (mem_writes_putEvent.mpr hr) x hx

/-- After the commit an event is one that was stored or an old one with another key. -/
theorem mem_events (h : Committing s p) {x : NormalizedEvent} :
    x ∈ (postgres.view s p.writes).normalizedEvents ↔
      x ∈ p.rows ∨ (x ∈ s.normalizedEvents ∧ ∀ row ∈ p.rows, row.key ≠ x.key) := by
  constructor
  · intro hx
    refine (mem_view_normalizedEvents hx).imp mem_writes_putEvent.mp ?_
    rintro ⟨old, free⟩
    exact ⟨old, fun row hr => free row (mem_writes_putEvent.mpr hr)⟩
  · rintro (new | ⟨old, free⟩)
    · obtain ⟨y, hy, same, own⟩ :=
        exists_mem_view_of_putEvent (s := s) (mem_writes_putEvent.mpr new)
      rwa [← List.inj_on_of_nodup_map h.keys (mem_writes_putEvent.mp own) new same]
    · have found := find_view_normalizedEvents_of_free (s := s)
        (fun row hr => free row (mem_writes_putEvent.mp hr))
      rw [Table.find_eq_some_iff.mpr ⟨old, rfl⟩] at found
      exact (Table.find_eq_some_iff.mp found).1

/-- After the commit the history has the new snapshots as well. -/
theorem mem_versions (h : Committing s p) {v : EventVersion} :
    v ∈ (postgres.view s p.writes).eventVersions ↔
      v ∈ s.eventVersions ∨ v ∈ p.before ∨ v ∈ p.after := by
  constructor
  · intro hv
    exact (mem_view_eventVersions_iff hv).imp id mem_writes_addVersion.mp
  · rintro (old | new)
    · exact mem_view_eventVersions old
    · exact h.pending.mem_view_eventVersions (mem_writes_addVersion.mpr new)

/-- After the commit the outbox has the new rows as well. -/
theorem mem_outbox (h : Committing s p) {o : OutboxEvent} :
    o ∈ (postgres.view s p.writes).outboxEvents ↔ o ∈ s.outboxEvents ∨ o ∈ p.outbox := by
  have rows := h.pending.rows_view_outboxEvents (by simp [UpsertPlan.writes, UpsertPlan.stored])
  rw [Table.mem_def, rows, List.mem_append]
  refine or_congr_right ?_
  simp [UpsertPlan.writes, UpsertPlan.stored, Write.outboxRow, Function.comp_def]

/-- A new outbox row is that of a stored event. -/
theorem exists_enqueued (h : Committing s p) {o : OutboxEvent} (ho : o ∈ p.outbox) :
    ∃ row ∈ p.rows, ∃ id t, o = enqueueEvent row id t := h.enqueued.exists_left ho

/-- The outbox rows of the store belong to its events, also after the commit. -/
theorem known (h : Committing s p)
    (known : ∀ o ∈ s.outboxEvents, ∃ e ∈ s.normalizedEvents, e.id = o.payload.eventId) :
    ∀ o ∈ (postgres.view s p.writes).outboxEvents,
      ∃ e ∈ (postgres.view s p.writes).normalizedEvents, e.id = o.payload.eventId := by
  intro o ho
  rcases h.mem_outbox.mp ho with old | new
  · obtain ⟨e, he, owner⟩ := known o old
    by_cases rewritten : ∃ row ∈ p.rows, row.key = e.key
    · obtain ⟨row, hr, same⟩ := rewritten
      refine ⟨row, h.mem_events.mpr (.inl hr), ?_⟩
      exact ((h.key_eq_iff hr he).mp same.symm).symm.trans owner
    · refine ⟨e, h.mem_events.mpr (.inr ⟨he, ?_⟩), owner⟩
      exact fun row hr same => rewritten ⟨row, hr, same⟩
  · obtain ⟨row, hr, id, t, rfl⟩ := h.exists_enqueued new
    exact ⟨row, h.mem_events.mpr (.inl hr), rfl⟩

/-- No new outbox row belongs to an event that was not stored. -/
theorem not_enqueued (h : Committing s p) {e : NormalizedEvent} (he : e ∈ s.normalizedEvents)
    (free : ∀ row ∈ p.rows, row.key ≠ e.key) {o : OutboxEvent} (ho : o ∈ p.outbox) :
    o.payload.eventId ≠ e.id := by
  obtain ⟨row, hr, id, t, rfl⟩ := h.exists_enqueued ho
  intro same
  exact free row hr ((h.key_eq_iff hr he).mpr same.symm).symm

end Committing

theorem Upserted.nodup_keys {P : Protocol postgres ι} {events : List NormalizedEventCreate}
    {changedBy : Option String} {p : UpsertPlan} {σ τ : State ι} {ws : List Write}
    (h : Upserted P events changedBy p σ ws τ) : (p.rows.map NormalizedEvent.key).Nodup := by
  obtain ⟨prepared, each, rows⟩ := h.rows
  rw [rows, List.map_map]
  simp only [Function.comp_def, Store.excluded_key]
  change (prepared.map NormalizedEvent.key).Nodup
  rw [Prepared.map_key each]
  exact nodup_deduped events

/-- What a transaction has upserted is ready to be committed in any later state. -/
theorem Upserted.committing {P : Protocol postgres ι} {events : List NormalizedEventCreate}
    {changedBy : Option String} {p : UpsertPlan} {σ τ υ : State ι} (hosts : Hosts P)
    (h : Upserted P events changedBy p σ [] τ) (rely : P.rely p.writes τ υ) :
    Committing υ.store p := ⟨h.nodup_keys, h.outbox, h.pending.rely hosts rely⟩

end Commit

end OmniSync
