import OmniSync.Data.Destutter
import OmniSync.Events.Serial

/-!
# The version history

When the upserts run one after the other, `event_versions` is the list of the
contents that were submitted for an event, without consecutive repeats. The
invariant `Histories` relates the two tables to such lists; one transaction extends
the list of a key by its content, unless it is the last one already.
-/

namespace OmniSync

open Txn

/-- The history of event `eventId` has content `content` at version `version`. -/
def HistoryRow (s : Store) (eventId : Uuid) (version : Nat) (content : String) : Prop :=
  ∃ v ∈ s.eventVersions, v.key = (eventId, version) ∧ v.content = content

/-- `past` is the history of event `e`. -/
structure HistoryOf (s : Store) (e : NormalizedEvent) (past : List String) : Prop where
  length : past.length = e.version
  last : past.getLast? = some e.content
  rows : ∀ n c, HistoryRow s e.id n c ↔ 1 ≤ n ∧ past[n - 1]? = some c

/-- The histories of the store are `past`. -/
structure Histories (s : Store) (past : String × String → List String) : Prop where
  unique : s.EventIdsUnique
  event : ∀ e ∈ s.normalizedEvents, HistoryOf s e (past e.key)
  absent : ∀ k, s.normalizedEvents.find k = none → past k = []
  owned : ∀ v ∈ s.eventVersions, ∃ e ∈ s.normalizedEvents, e.id = v.eventId

theorem Histories.empty : Histories ∅ (fun _ => []) where
  unique _ hx := (List.not_mem_nil hx).elim
  event _ he := (List.not_mem_nil he).elim
  absent _ _ := rfl
  owned _ hv := (List.not_mem_nil hv).elim

/-- A history that is extended by `content`, unless it ends with it. -/
def extend (past : List String) (content : String) : List String :=
  if past.getLast? = some content then past else past ++ [content]

/-- The first content that a batch submits under a key. -/
def submittedIn (events : List NormalizedEventCreate) (k : String × String) : Option String :=
  (events.find? (fun e => decide (e.key = k))).map NormalizedEventCreate.content

/-- The histories after a batch. -/
def extendAll (past : String × String → List String) (events : List NormalizedEventCreate)
    (k : String × String) : List String :=
  match submittedIn events k with
  | some content => extend (past k) content
  | none => past k

theorem submittedIn_of_mem {events : List NormalizedEventCreate} {e : NormalizedEventCreate}
    (he : e ∈ deduped events) : submittedIn events e.key = some e.content := by
  rw [submittedIn, find_of_mem_deduped he]
  rfl

theorem submittedIn_of_not_mem {events : List NormalizedEventCreate} {k : String × String}
    (free : ∀ e ∈ deduped events, e.key ≠ k) : submittedIn events k = none := by
  rw [submittedIn, find_eq_none_of_deduped free]
  rfl

section Step

variable {s : Store} {past : String × String → List String}
variable {events : List NormalizedEventCreate} {changedBy : Option String} {p : UpsertPlan}

theorem HistoryOf.current {e : NormalizedEvent} {past : List String} (h : HistoryOf s e past) :
    HistoryRow s e.id e.version e.content := by
  have last := h.last
  rw [List.getLast?_eq_getElem?, h.length] at last
  refine (h.rows _ _).mpr ⟨?_, last⟩
  have := (List.getElem?_eq_some_iff.mp last).1
  have := h.length
  omega

/-- The version of a stored event is in the history, so nothing is recorded before the
upsert. -/
theorem Histories.before_eq_nil (h : Histories s past)
    (upserted : UpsertedAlone s events changedBy p) : p.before = [] := by
  rw [List.eq_nil_iff_forall_not_mem]
  intro v hv
  obtain ⟨e, he, existing, found, _, id, t, rfl⟩ := upserted.before v hv
  rw [upserted.existing e he] at found
  obtain ⟨v, hv', key, _⟩ := (h.event existing (Table.find_eq_some_iff.mp found).1).current
  have absent := upserted.pending.versions _ (mem_writes_addVersion.mpr (.inl hv))
  exact Table.find_eq_none_iff.mp absent v hv' key

/-- A row of the history after the upsert is an old one or the snapshot of a stored
event. -/
theorem Histories.row_after (h : Histories s past)
    (upserted : UpsertedAlone s events changedBy p) {id : Uuid} {n : Nat} {c : String} :
    HistoryRow (postgres.view s p.writes) id n c ↔ HistoryRow s id n c ∨
      ∃ v ∈ p.after, v.key = (id, n) ∧ v.content = c := by
  unfold HistoryRow
  simp only [upserted.committing.mem_versions, h.before_eq_nil upserted, List.not_mem_nil, false_or, or_and_right,
    exists_or]

/-- A snapshot of the upsert is the one of the event with its id. -/
theorem snapshot_of_stored (upserted : UpsertedAlone s events changedBy p) {row : NormalizedEvent}
    (hr : row ∈ p.rows) {v : EventVersion} (hv : v ∈ p.after) (same : v.eventId = row.id) :
    v.key = (row.id, row.version) ∧ v.content = row.content := by
  obtain ⟨row', hr', id, t, rfl⟩ := upserted.snapshots v hv
  cases upserted.committing.eq_of_id hr' hr same
  exact ⟨rfl, rfl⟩

/-- The current version of a stored event is recorded by this upsert, unless it was in
the history. -/
theorem Histories.recorded (h : Histories s past) (upserted : UpsertedAlone s events changedBy p)
    {row : NormalizedEvent} (hr : row ∈ p.rows) :
    (∃ v ∈ p.after, v.key = (row.id, row.version) ∧ v.content = row.content) ∨
      ∃ c, HistoryRow s row.id row.version c := by
  obtain ⟨v, key, old | before | new⟩ := upserted.recorded row hr
  · exact .inr ⟨v.content, v, old, key, rfl⟩
  · rw [h.before_eq_nil upserted] at before
    cases before
  · exact .inl ⟨v, new, key, (snapshot_of_stored upserted hr new (congrArg Prod.fst key)).2⟩

/-- A version that was not in the history is recorded. -/
theorem Histories.rows_new (h : Histories s past) (upserted : UpsertedAlone s events changedBy p)
    {row : NormalizedEvent} (hr : row ∈ p.rows) (fresh : ∀ c, ¬ HistoryRow s row.id row.version c)
    (n : Nat) (c : String) : HistoryRow (postgres.view s p.writes) row.id n c ↔
      HistoryRow s row.id n c ∨ (n = row.version ∧ c = row.content) := by
  rw [h.row_after upserted]
  refine or_congr_right ⟨?_, ?_⟩
  · rintro ⟨v, hv, key, content⟩
    obtain ⟨key', content'⟩ := snapshot_of_stored upserted hr hv (congrArg Prod.fst key)
    exact ⟨(congrArg Prod.snd (key'.symm.trans key)).symm, content.symm.trans content'⟩
  · rintro ⟨rfl, rfl⟩
    refine (h.recorded upserted hr).resolve_right ?_
    rintro ⟨c, old⟩
    exact fresh c old

/-- A version that is in the history is not recorded again. -/
theorem Histories.rows_old (h : Histories s past) (upserted : UpsertedAlone s events changedBy p)
    {row : NormalizedEvent} (hr : row ∈ p.rows) (present : ∃ c, HistoryRow s row.id row.version c)
    (n : Nat) (c : String) :
    HistoryRow (postgres.view s p.writes) row.id n c ↔ HistoryRow s row.id n c := by
  rw [h.row_after upserted, or_iff_left]
  rintro ⟨v, hv, key, _⟩
  obtain ⟨_, v', hv', key', _⟩ := present
  have absent := upserted.pending.versions v (mem_writes_addVersion.mpr (.inr hv))
  obtain ⟨same, _⟩ := snapshot_of_stored upserted hr hv (congrArg Prod.fst key)
  exact Table.find_eq_none_iff.mp absent v' hv' (key'.trans same.symm)

/-- A new event has no history yet. -/
theorem Histories.no_history (h : Histories s past) (upserted : UpsertedAlone s events changedBy p)
    {row : NormalizedEvent} (hr : row ∈ p.rows) (new : s.normalizedEvents.find row.key = none)
    (n : Nat) (c : String) : ¬ HistoryRow s row.id n c := by
  rintro ⟨v, hv, key, _⟩
  obtain ⟨x, hx, owner⟩ := h.owned v hv
  have id : x.id = row.id := owner.trans (congrArg Prod.fst key)
  have same := (upserted.pending.events row (mem_writes_putEvent.mpr hr) x hx).mpr id
  exact Table.find_eq_none_iff.mp new x hx same

/-- The history of a stored event. -/
theorem Histories.stored (h : Histories s past) (upserted : UpsertedAlone s events changedBy p)
    {e : NormalizedEventCreate} {row : NormalizedEvent} (hr : row ∈ p.rows)
    (stored : StoredFor s e row) :
    HistoryOf (postgres.view s p.writes) row (extend (past e.key) e.content) := by
  have version := stored.version
  cases found : s.normalizedEvents.find e.key with
  | none =>
      -- A new event: version 1, and a history of one row.
      have fresh := h.no_history upserted hr (stored.key ▸ found)
      have one : row.version = 1 := by rw [version, found]; rfl
      have whole : extend (past e.key) e.content = [e.content] := by
        rw [h.absent e.key found]
        rfl
      rw [whole]
      refine ⟨one.symm, congrArg some stored.content.symm, fun n c => ?_⟩
      rw [h.rows_new upserted hr (fresh _), or_iff_right (fresh n c), one, stored.content,
        List.getElem?_singleton]
      constructor
      · rintro ⟨rfl, rfl⟩
        exact ⟨le_refl 1, rfl⟩
      · rintro ⟨positive, at'⟩
        split at at'
        · exact ⟨by omega, (Option.some.inj at').symm⟩
        · cases at'
  | some existing =>
      obtain ⟨member, key⟩ := Table.find_eq_some_iff.mp found
      have old := key ▸ h.event existing member
      have id := stored.id existing found
      by_cases changed : existing.content ≠ e.content
      · -- New content: the next version, recorded at the end of the history.
        have next : row.version = existing.version + 1 := by
          rw [version, found]
          exact if_pos changed
        have whole : extend (past e.key) e.content = past e.key ++ [e.content] := by
          refine if_neg ?_
          rw [old.last, Option.some.injEq]
          exact changed
        have fresh : ∀ c, ¬ HistoryRow s row.id row.version c := by
          intro c present
          rw [id, old.rows, next, Nat.add_sub_cancel, ← old.length] at present
          simp at present
        rw [whole]
        refine ⟨?_, ?_, fun n c => ?_⟩
        · rw [List.length_append, old.length, next, List.length_singleton]
        · rw [List.getLast?_concat, stored.content]
        · rw [h.rows_new upserted hr fresh, id, old.rows, next, stored.content,
            List.getElem?_append, old.length, List.getElem?_singleton]
          constructor
          · rintro (⟨positive, at'⟩ | ⟨rfl, rfl⟩)
            · have bound := (List.getElem?_eq_some_iff.mp at').1
              rw [old.length] at bound
              exact ⟨positive, by rw [if_pos bound, at']⟩
            · exact ⟨by omega, by simp⟩
          · rintro ⟨positive, at'⟩
            split at at'
            · exact .inl ⟨positive, at'⟩
            · split at at'
              · exact .inr ⟨by omega, (Option.some.inj at').symm⟩
              · cases at'
      · -- The same content: nothing changes.
        have same : row.version = existing.version := by
          rw [version, found]
          exact if_neg changed
        rw [not_not] at changed
        have whole : extend (past e.key) e.content = past e.key := by
          refine if_pos ?_
          rw [old.last, changed]
        have present : ∃ c, HistoryRow s row.id row.version c :=
          ⟨existing.content, id ▸ same ▸ old.current⟩
        rw [whole]
        refine ⟨old.length.trans same.symm, ?_, fun n c => ?_⟩
        · rw [old.last, stored.content, changed]
        · rw [h.rows_old upserted hr present, id, old.rows]

/-- The history of an event that the batch does not touch. -/
theorem Histories.untouched (h : Histories s past) (upserted : UpsertedAlone s events changedBy p)
    {x : NormalizedEvent} (hx : x ∈ s.normalizedEvents) (free : ∀ row ∈ p.rows, row.key ≠ x.key) :
    HistoryOf (postgres.view s p.writes) x (past x.key) := by
  have old := h.event x hx
  refine ⟨old.length, old.last, fun n c => ?_⟩
  rw [h.row_after upserted, old.rows, or_iff_left]
  rintro ⟨v, hv, key, _⟩
  obtain ⟨row, hr, id, t, rfl⟩ := upserted.snapshots v hv
  have same : x.id = row.id := (congrArg Prod.fst key).symm
  exact free row hr
    ((upserted.pending.events row (mem_writes_putEvent.mpr hr) x hx).mpr same).symm

/-- One upsert extends the histories by what it submits. -/
theorem Histories.step (h : Histories s past) (upserted : UpsertedAlone s events changedBy p) :
    Histories (postgres.view s p.writes) (extendAll past events) where
  unique := upserted.pending.eventIdsUnique_view h.unique
  event x hx := by
    unfold extendAll
    rcases upserted.committing.mem_events.mp hx with new | ⟨old, free⟩
    · obtain ⟨e, he, stored⟩ := upserted.exists_event new
      rw [stored.key, submittedIn_of_mem he]
      exact h.stored upserted new stored
    · rw [submittedIn_of_not_mem]
      · exact h.untouched upserted old free
      · intro e he same
        obtain ⟨row, hr, stored⟩ := upserted.exists_row he
        exact free row hr (stored.key.trans same)
  absent k missing := by
    rw [Table.find_eq_none_iff] at missing
    have free : ∀ e ∈ deduped events, e.key ≠ k := by
      intro e he same
      obtain ⟨row, hr, stored⟩ := upserted.exists_row he
      exact missing row (upserted.committing.mem_events.mpr (.inl hr)) (stored.key.trans same)
    unfold extendAll
    rw [submittedIn_of_not_mem free]
    refine h.absent k (Table.find_eq_none_iff.mpr ?_)
    intro x hx same
    obtain ⟨y, hy, key⟩ := exists_mem_view_of_mem p.writes hx
    exact missing y hy (key.trans same)
  owned v hv := by
    rcases upserted.committing.mem_versions.mp hv with old | before | new
    · obtain ⟨e, he, owner⟩ := h.owned v old
      obtain ⟨y, hy, _, id⟩ := upserted.pending.exists_mem_view he
      exact ⟨y, hy, id.trans owner⟩
    · rw [h.before_eq_nil upserted] at before
      cases before
    · obtain ⟨row, hr, id, t, rfl⟩ := upserted.snapshots v new
      exact ⟨row, upserted.committing.mem_events.mpr (.inl hr), rfl⟩

end Step

/-- Committed upserts, one after the other: the batches, in order. -/
inductive Upserts (σ : State Unit) : List (List NormalizedEventCreate) → State Unit → Prop where
  | none : Upserts σ [] σ
  | call {calls : List (List NormalizedEventCreate)} {τ υ : State Unit}
      {events : List NormalizedEventCreate} {changedBy : Option String}
      {results : List NormalizedEvent} : Upserts σ calls τ →
        postgres.Completes () (upsertTransaction events changedBy) τ results υ →
          Upserts σ (calls ++ [events]) υ

/-- The contents that are submitted for a key: the first one of each batch. -/
def submitted (calls : List (List NormalizedEventCreate)) (k : String × String) : List String :=
  calls.filterMap (fun events => submittedIn events k)

theorem Upserts.histories {σ τ : State Unit} {calls : List (List NormalizedEventCreate)}
    (empty : σ.store = ∅) (h : Upserts σ calls τ) :
    Histories τ.store (fun k => (submitted calls k).destutter (· ≠ ·)) := by
  induction h with
  | none => exact empty ▸ Histories.empty
  | @call calls φ υ events changedBy results _ completes ih =>
      obtain ⟨p, upserted, _, store, _⟩ := upsertTransaction_completes ih.unique completes
      have next := ih.step upserted
      rw [← store] at next
      convert next using 2 with k
      unfold extendAll extend submitted
      rw [List.filterMap_append]
      cases first : submittedIn events k with
      | none => simp [first]
      | some content =>
          have one : [events].filterMap (fun events => submittedIn events k) = [content] := by
            simp [first]
          rw [one, List.destutter_concat, List.getLast?_destutter]

section EventHistory

open NormalizedEventService (getEventHistory)

theorem mem_getEventHistory {s : Store} {id : Uuid} {v : EventVersion} :
    v ∈ getEventHistory s id ↔ v ∈ s.eventVersions ∧ v.eventId = id := by
  simp only [getEventHistory, List.mem_insertionSort, List.mem_filter, decide_eq_true_eq]
  rfl

/-- The versions of an event are numbered without gaps. -/
theorem HistoryOf.versions {s : Store} {e : NormalizedEvent} {past : List String}
    (h : HistoryOf s e past) :
    (getEventHistory s e.id).map EventVersion.version = List.range' 1 e.version := by
  have sort : (getEventHistory s e.id).map EventVersion.version =
      ((s.eventVersions.rows.filter (fun v => decide (v.eventId = e.id))).map
        EventVersion.version).insertionSort (· ≤ ·) :=
    List.map_insertionSort _ _ EventVersion.version _ (fun _ _ _ _ => Iff.rfl)
  rw [sort]
  refine List.Perm.eq_of_pairwise' List.sortedLE_insertionSort.pairwise
    ((List.pairwise_lt_range').imp Nat.le_of_lt) ?_
  refine (List.perm_insertionSort _ _).trans ((List.perm_ext_iff_of_nodup ?_ ?_).mpr ?_)
  · have keys : ((s.eventVersions.rows.filter (fun v => decide (v.eventId = e.id))).map
        EventVersion.key).Nodup :=
      s.eventVersions.unique.sublist (List.filter_sublist.map _)
    have same : (s.eventVersions.rows.filter (fun v => decide (v.eventId = e.id))).map
        EventVersion.key = ((s.eventVersions.rows.filter
          (fun v => decide (v.eventId = e.id))).map EventVersion.version).map (e.id, ·) := by
      rw [List.map_map]
      refine List.map_congr_left (fun v hv => ?_)
      have owner := (List.mem_filter.mp hv).2
      rw [decide_eq_true_eq] at owner
      simp only [EventVersion.key, Function.comp_apply, owner]
    exact (same ▸ keys).of_map
  · exact List.nodup_range'
  · intro n
    have row : n ∈ (s.eventVersions.rows.filter (fun v => decide (v.eventId = e.id))).map
        EventVersion.version ↔ ∃ c, HistoryRow s e.id n c := by
      simp only [List.mem_map, List.mem_filter, decide_eq_true_eq]
      constructor
      · rintro ⟨v, ⟨hv, owner⟩, rfl⟩
        exact ⟨v.content, v, hv, Prod.ext owner rfl, rfl⟩
      · rintro ⟨_, v, hv, key, _⟩
        exact ⟨v, ⟨hv, congrArg Prod.fst key⟩, congrArg Prod.snd key⟩
    rw [row, List.mem_range'_1]
    simp only [h.rows, exists_and_left, List.getElem?_eq_some_iff]
    constructor
    · rintro ⟨positive, _, bound, _⟩
      rw [h.length] at bound
      omega
    · rintro ⟨positive, bound⟩
      have inside : n - 1 < past.length := by
        rw [h.length]
        omega
      exact ⟨positive, past[n - 1], inside, rfl⟩

/-- The contents of an event, in version order, are its history. -/
theorem HistoryOf.contents {s : Store} {e : NormalizedEvent} {past : List String}
    (h : HistoryOf s e past) :
    (getEventHistory s e.id).map EventVersion.content = past := by
  have length : (getEventHistory s e.id).length = past.length := by
    rw [← List.length_map EventVersion.version, h.versions, List.length_range', h.length]
  refine List.ext_getElem (by rw [List.length_map, length]) (fun n here there => ?_)
  rw [List.getElem_map]
  have bound : n < (getEventHistory s e.id).length := length ▸ there
  have number : (getEventHistory s e.id)[n].version = 1 + n := by
    have versions := congrArg (fun l => l[n]?) h.versions
    simp only [List.getElem?_map, List.getElem?_eq_getElem bound, Option.map_some] at versions
    rw [List.getElem?_range' (by rw [← h.length]; exact there)] at versions
    simpa using versions
  obtain ⟨member, owner⟩ := mem_getEventHistory.mp (List.getElem_mem bound)
  have row := (h.rows (getEventHistory s e.id)[n].version _).mp ⟨_, member, Prod.ext owner rfl, rfl⟩
  rw [number, Nat.add_sub_cancel_left, List.getElem?_eq_getElem there] at row
  exact (Option.some.inj row.2).symm

/-- After any committed upserts into an empty database the history of an event has one
row for each version up to the current one and no other row, its contents are the
submitted contents without consecutive repeats, and the current version has the
current content. -/
theorem event_history_complete {σ τ : State Unit} {calls : List (List NormalizedEventCreate)}
    (empty : σ.store = ∅) (run : Upserts σ calls τ) (e : NormalizedEvent)
    (he : e ∈ τ.store.normalizedEvents) :
    (∀ n, 1 ≤ n → n ≤ e.version →
        ∃! v, v ∈ τ.store.eventVersions ∧ v.eventId = e.id ∧ v.version = n) ∧
      (∀ v ∈ τ.store.eventVersions, v.eventId = e.id → 1 ≤ v.version ∧ v.version ≤ e.version) ∧
      (getEventHistory τ.store e.id).map EventVersion.version = List.range' 1 e.version ∧
      (getEventHistory τ.store e.id).map EventVersion.content =
        (submitted calls e.key).destutter (· ≠ ·) ∧
      ∀ v ∈ τ.store.eventVersions, v.eventId = e.id → v.version = e.version →
        v.content = e.content := by
  have history := (run.histories empty).event e he
  have numbered : ∀ n, (∃ v ∈ τ.store.eventVersions, v.eventId = e.id ∧ v.version = n) ↔
      1 ≤ n ∧ n ≤ e.version := by
    intro n
    have member := congrArg (fun l => n ∈ l) history.versions
    simp only [List.mem_map, mem_getEventHistory, List.mem_range'_1, and_assoc] at member
    rw [member]
    omega
  refine ⟨?_, ?_, history.versions, history.contents, ?_⟩
  · intro n low high
    obtain ⟨v, hv, owner, number⟩ := (numbered n).mpr ⟨low, high⟩
    refine ⟨v, ⟨hv, owner, number⟩, ?_⟩
    rintro v' ⟨hv', owner', number'⟩
    exact Table.eq_of_key_eq hv' hv
      (Prod.ext (owner'.trans owner.symm) (number'.trans number.symm))
  · intro v hv owner
    exact (numbered v.version).mp ⟨v, hv, owner, rfl⟩
  · intro v hv owner number
    obtain ⟨v', hv', key, content⟩ := history.current
    have same : v.key = (e.id, e.version) := Prod.ext owner number
    rw [Table.eq_of_key_eq hv hv' (same.trans key.symm), content]

/-- Two transactions, one after the other, that store a commit and change it. -/
def sampleRun : Option (State Unit) := do
  let (_, stored) ← postgres.outcome () (createScript 10)
    (upsertTransaction [sampleCommit "draft"] none) ⟨{}, ∅, []⟩
  let (_, changed) ← postgres.outcome () (changeScript 20)
    (upsertTransaction [sampleCommit "final"] none) stored
  return changed

theorem upserts_of_sampleRun {τ : State Unit} (h : sampleRun = some τ) :
    Upserts ⟨{}, ∅, []⟩ [[sampleCommit "draft"], [sampleCommit "final"]] τ := by
  simp only [sampleRun, Option.bind_eq_bind, Option.bind_eq_some_iff, Prod.exists,
    Option.pure_def, Option.some.injEq] at h
  obtain ⟨_, stored, first, _, changed, second, rfl⟩ := h
  exact (Upserts.none.call (Engine.completes_of_outcome first)).call
    (Engine.completes_of_outcome second)

/-- A changed commit has two versions. -/
theorem event_history_complete_changed :
    ∃ τ : State Unit, sampleRun = some τ ∧ ∃ e ∈ τ.store.normalizedEvents, e.version = 2 ∧
      (getEventHistory τ.store e.id).map EventVersion.content =
        (submitted [[sampleCommit "draft"], [sampleCommit "final"]] e.key).destutter (· ≠ ·) := by
  have shape : (sampleRun.map (fun τ => τ.store.normalizedEvents.rows.map
      NormalizedEvent.version)) = some [2] := by decide +kernel
  obtain ⟨τ, run, rows⟩ := Option.map_eq_some_iff.mp shape
  obtain ⟨e, one, version⟩ := List.map_eq_singleton_iff.mp rows
  have member : e ∈ τ.store.normalizedEvents := by
    rw [Table.mem_def, one]
    exact List.mem_singleton.mpr rfl
  exact ⟨τ, run, e, member, version,
    (event_history_complete rfl (upserts_of_sampleRun run) e member).2.2.2.1⟩

end EventHistory

end OmniSync
