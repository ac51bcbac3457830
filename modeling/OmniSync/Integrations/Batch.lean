import Mathlib.Data.List.ReduceOption
import OmniSync.Database.Content
import OmniSync.Events.Serial
import OmniSync.Integrations.Sync
import OmniSync.RawPayloads.Saving

/-!
# What a complete sync run stores

The work of a run up to its commit, alone on the database. `Ingested` describes what its
pending writes amount to: the raw payload of every item is kept, every event of the batch is
stored, the watermark is that of the latest event, and everything else is as it was.
-/

namespace OmniSync

open Txn

/-- The latest timestamp of the events of a batch. -/
def latest (batch : List NormalizedEventCreate) : Except Exn (Option Stamp) :=
  latestBy Stamp.datetime (batch.map NormalizedEventCreate.stamp)

/-- The watermark of a source. -/
def Store.cursorOf (s : Store) (source : String) : Option String :=
  (s.syncState.find (source, "default")).bind SyncState.cursor

/-- A batch of the events that were made of some items, one after the other. -/
def Batched {α : Type} (made : α → Option NormalizedEventCreate → Prop) (items : List α)
    (batch : List NormalizedEventCreate) : Prop :=
  ∃ results, List.Forall₂ made items results ∧ batch = results.reduceOption

/-- The events of the fetched items, each with the id of its raw payload. -/
def Normalized (connector : Connector) (items : List Json) (batch : List NormalizedEventCreate) :
    Prop :=
  Batched (fun raw result => ∃ id, connector.normalize raw (some id) = .ok result) items batch

/-- From `s` to `t`, the items were kept and their events stored. The watermark of the source
was moved, unless `watermark` is `none`. -/
structure Ingested (rt : Runtime) (source operation : String) (items : List Json)
    (batch : List NormalizedEventCreate) (watermark : Option String) (s t : Store) : Prop where
  payloads : ∀ raw ∈ items, ∃ p ∈ t.rawPayloads,
    p.source = operation ∧ p.contentHash = some (rt.canonicalHash raw)
  stored : ∀ e ∈ deduped batch, ∃ row, t.normalizedEvents.find e.key = some row ∧ row.Holds e
  untouched : ∀ k, k ∉ batch.map NormalizedEventCreate.key →
    t.normalizedEvents.find k = s.normalizedEvents.find k
  cursor : t.cursorOf source = watermark.or (s.cursorOf source)
  cursors : ∀ k, k ≠ (source, "default") → t.syncState.find k = s.syncState.find k
  ids : t.EventIdsUnique

namespace Batched

variable {α : Type} {made : α → Option NormalizedEventCreate → Prop} {items : List α}
variable {batch : List NormalizedEventCreate}

theorem nil : Batched made [] [] := ⟨[], .nil, rfl⟩

theorem concat {item : α} {result : Option NormalizedEventCreate} (h : Batched made items batch)
    (next : made item result) : Batched made (items ++ [item]) (batch ++ result.toList) := by
  obtain ⟨results, each, rfl⟩ := h
  refine ⟨results ++ [result], List.rel_append each (.cons next .nil), ?_⟩
  rw [List.reduceOption_append]
  cases result <;> rfl

theorem of_concat {item : α} (h : Batched made (items ++ [item]) batch) :
    ∃ first result, Batched made items first ∧ made item result ∧
      batch = first ++ result.toList := by
  obtain ⟨results, each, rfl⟩ := h
  obtain ⟨first, result, some, last, rfl⟩ := each.of_concat
  refine ⟨first.reduceOption, result, ⟨first, some, rfl⟩, last, ?_⟩
  rw [List.reduceOption_append]
  cases result <;> rfl

theorem exists_of_forall (h : ∀ item ∈ items, ∃ result, made item result) :
    ∃ batch, Batched made items batch := by
  obtain ⟨results, each⟩ := List.Forall₂.exists_of_forall h
  exact ⟨_, results, each, rfl⟩

theorem exists_event (h : Batched made items batch) {item : α} (hi : item ∈ items) :
    ∃ result, made item result ∧ ∀ e, result = some e → e ∈ batch := by
  obtain ⟨results, each, rfl⟩ := h
  obtain ⟨result, hr, next⟩ := each.exists_right hi
  refine ⟨result, next, fun e same => List.reduceOption_mem_iff.mpr ?_⟩
  rw [← same]
  exact hr

theorem exists_item (h : Batched made items batch) {e : NormalizedEventCreate} (he : e ∈ batch) :
    ∃ item ∈ items, made item (some e) := by
  obtain ⟨results, each, rfl⟩ := h
  exact each.exists_left (List.reduceOption_mem_iff.mp he)

end Batched

theorem collectEvent_events {α : Type}
    {normalize : α → Option Uuid → Except Exn (Option NormalizedEventCreate)}
    {collected next : List NormalizedEventCreate × Option Stamp} {raw : α}
    {rawPayloadId : Option Uuid}
    (h : collectEvent normalize collected raw rawPayloadId = .ok next) :
    ∃ result, normalize raw rawPayloadId = .ok result ∧
      next.1 = collected.1 ++ result.toList := by
  obtain ⟨result, made, rest⟩ := bind_ok_iff.mp h
  refine ⟨result, made, ?_⟩
  cases result with
  | none =>
      cases rest
      exact (List.append_nil _).symm
  | some e =>
      obtain ⟨_, _, ⟨⟩⟩ := bind_ok_iff.mp rest
      rfl

/-- What is collected of an item: its event, if it makes one, and the later timestamp. -/
theorem collectEvent_ok {α : Type}
    {normalize : α → Option Uuid → Except Exn (Option NormalizedEventCreate)}
    {collected next : List NormalizedEventCreate × Option Stamp} {raw : α}
    {rawPayloadId : Option Uuid} (before : latest collected.1 = .ok collected.2) :
    collectEvent normalize collected raw rawPayloadId = .ok next ↔
      ∃ result, normalize raw rawPayloadId = .ok result ∧
        next.1 = collected.1 ++ result.toList ∧ latest next.1 = .ok next.2 := by
  unfold collectEvent
  rw [bind_ok_iff]
  refine exists_congr (fun result => and_congr_right (fun _ => ?_))
  obtain ⟨events, maxTs⟩ := next
  cases result with
  | none =>
      rw [Option.toList_none, List.append_nil]
      constructor
      · rintro ⟨⟩
        exact ⟨rfl, before⟩
      · rintro ⟨rfl, same⟩
        rw [before] at same
        cases same
        rfl
  | some e =>
      have grown : latest (collected.1 ++ [e]) = advanced collected.2 e.stamp := by
        unfold latest at before ⊢
        rw [List.map_append, List.map_singleton, latestBy_concat, before]
        rfl
      dsimp only
      rw [bind_ok_iff]
      constructor
      · rintro ⟨stamp, later, ⟨⟩⟩
        exact ⟨rfl, grown.trans later⟩
      · rintro ⟨rfl, same⟩
        exact ⟨maxTs, grown.symm.trans same, rfl⟩

section Payloads

variable {rt : Runtime} {settings : Settings} {s : Store} {ws vs : List Write}

/-- The write keeps a raw payload. -/
def Write.isPayload : Write → Bool
  | .addRawPayload _ => true
  | _ => false

/-- Only raw payloads are pending. -/
def OnlyPayloads (ws : List Write) : Prop := ∀ w ∈ ws, w.isPayload = true

theorem OnlyPayloads.look (h : OnlyPayloads ws) {β : Type} (look : Store → β)
    (same : ∀ s row, look (s.put (.addRawPayload row)) = look s) :
    look (postgres.view s ws) = look s := by
  refine view_look look ?_
  intro s w hw
  have payload := h w hw
  cases w with
  | addRawPayload row => exact same s row
  | _ => cases payload

theorem OnlyPayloads.table (h : OnlyPayloads ws) : ∀ w ∈ ws, w.table = .rawPayloads := by
  intro w hw
  have payload := h w hw
  cases w with
  | addRawPayload row => rfl
  | _ => cases payload

theorem OnlyPayloads.pending (h : OnlyPayloads ws) (s : Store) : Pending s ws :=
  .of_other (fun w hw => .inl (h.table w hw))

/-- The payload of an item is kept. -/
def Kept (rt : Runtime) (operation : String) (raw : Json) (s : Store) : Prop :=
  ∃ p ∈ s.rawPayloads, p.source = operation ∧ p.contentHash = some (rt.canonicalHash raw)

theorem Kept.view {operation : String} {raw : Json} (h : Kept rt operation raw s)
    (payloads : OnlyPayloads ws) : Kept rt operation raw (postgres.view s ws) := by
  induction ws generalizing s with
  | nil => exact h
  | cons w ws ih =>
      have first := payloads w (by simp)
      cases w with
      | addRawPayload row =>
          obtain ⟨p, hp, same⟩ := h
          refine ih ⟨p, Table.mem_add_of_mem hp, same⟩ (fun w hw => payloads w (by simp [hw]))
      | _ => cases first

/-- What `saveRawPayload` leaves. -/
theorem wp_saveRawPayload {σ : State Unit} {operation correlationId : String} {raw : Json} :
    wp serial () (saveRawPayload rt settings operation raw correlationId)
      (fun r τ vs => ∀ id, r = .ok id → τ.store = σ.store ∧ ∃ new, vs = ws ++ new ∧
        OnlyPayloads new ∧ Kept rt operation raw (postgres.view τ.store vs)) σ ws := by
  have keeps : Saves rt operation correlationId (rt.jsonSafe raw)
      (fun σ => σ.store.EventIdsUnique) := ⟨fun _ _ unique => unique, fun _ _ unique => unique⟩
  refine wp_mono (wp_saveRawPayload_saved keeps) (fun r τ vs post id value => ?_)
  obtain ⟨store, row, new, rfl, rfl, saved⟩ := post id value
  refine ⟨store, new, rfl, ?_⟩
  rw [postgres.view_append, store]
  rcases saved.outcome with ⟨stored, rfl, _⟩ | ⟨_, absent, rfl, _⟩
  · exact ⟨fun w hw => (List.not_mem_nil hw).elim, row, stored, saved.columns⟩
  · refine ⟨fun w hw => ?_, row, mem_put_addRawPayload absent, saved.columns⟩
    rw [List.mem_singleton.mp hw]
    rfl

end Payloads

section Collect

variable {rt : Runtime} {settings : Settings} {connector : Connector} {s : Store}
variable {operation correlationId : String} {ws : List Write}

/-- The loop over the fetched items has visited `first`. -/
structure Collecting (rt : Runtime) (connector : Connector) (operation : String) (s : Store)
    (first : List Json) (collected : List NormalizedEventCreate × Option Stamp)
    (ws : List Write) : Prop where
  payloads : OnlyPayloads ws
  kept : ∀ raw ∈ first, Kept rt operation raw (postgres.view s ws)
  normalized : Normalized connector first collected.1
  latest : latest collected.1 = .ok collected.2

theorem Collecting.initial (s : Store) : Collecting rt connector operation s [] ([], none) [] :=
  ⟨fun _ hw => (List.not_mem_nil hw).elim, fun _ hr => (List.not_mem_nil hr).elim,
    .nil, rfl⟩

/-- One iteration of the loop. -/
theorem wp_collectItem {σ : State Unit} {first : List Json} {raw : Json}
    {collected : List NormalizedEventCreate × Option Stamp}
    (h : Collecting rt connector operation s first collected ws) (same : σ.store = s) :
    wp serial () (collectItem rt settings connector operation correlationId collected raw)
      (fun r τ vs => ∀ next, r = .ok next → τ.store = s ∧
        Collecting rt connector operation s (first ++ [raw]) next vs) σ ws := by
  unfold collectItem
  rw [wp_bind]
  refine wp_mono wp_saveRawPayload (fun r τ vs post => ?_)
  cases r with
  | error e => exact fun _ impossible => (nomatch impossible)
  | ok id =>
      obtain ⟨store, new, rfl, payloads, current⟩ := post id rfl
      have kept : τ.store = s := store.trans same
      rw [Post.andThen_ok, wp_ofAnswer]
      cases stepped : collectEvent connector.normalize collected raw (some id) with
      | error e => exact fun _ impossible => (nomatch impossible)
      | ok next =>
          obtain ⟨result, made, events, latest⟩ := (collectEvent_ok h.latest).mp stepped
          have both : OnlyPayloads (ws ++ new) := fun w hw =>
            (List.mem_append.mp hw).elim (h.payloads w) (payloads w)
          have all : ∀ x ∈ first ++ [raw], Kept rt operation x (postgres.view s (ws ++ new)) := by
            intro x hx
            rcases List.mem_append.mp hx with old | now
            · rw [postgres.view_append]
              exact (h.kept x old).view payloads
            · rw [List.mem_singleton.mp now, ← kept]
              exact current
          have normalized := h.normalized.concat ⟨id, made⟩
          rw [← events] at normalized
          rintro _ ⟨⟩
          exact ⟨kept, both, all, normalized, latest⟩

theorem wp_collect {σ : State Unit} (items : List Json) (same : σ.store = s) :
    wp serial () (items.foldlM (collectItem rt settings connector operation correlationId)
        ([], none))
      (fun r τ vs => ∀ collected, r = .ok collected → τ.store = s ∧
        Collecting rt connector operation s items collected vs) σ [] := by
  refine wp_foldlM (fun collected rest τ vs => τ.store = s ∧ ∃ first, items = first ++ rest ∧
    Collecting rt connector operation s first collected vs) ?_ ?_ ([], none) items ?_
  · rintro collected raw rest τ vs ⟨here, first, rfl, collecting⟩
    refine wp_mono (wp_collectItem collecting here) (fun r υ vs post => ?_)
    cases r with
    | error e => exact fun _ impossible => (nomatch impossible)
    | ok next =>
        obtain ⟨store, next⟩ := post next rfl
        exact ⟨store, first ++ [raw], by simp, next⟩
  · rintro collected τ vs ⟨here, first, rfl, collecting⟩
    rintro _ ⟨⟩
    rw [List.append_nil]
    exact ⟨here, collecting⟩
  · exact ⟨same, [], rfl, .initial s⟩

end Collect

section Watermark

variable {rt : Runtime} {s : Store} {ws : List Write}

/-- From `s` to `t` the watermark of a source was set, and nothing else changed. -/
structure CursorSet (source : String) (cursor : Option String) (s t : Store) : Prop where
  set : t.cursorOf source = cursor
  others : ∀ k, k ≠ (source, "default") → t.syncState.find k = s.syncState.find k
  rest : t = { s with syncState := t.syncState }

theorem cursorSet_add {row : SyncState} (absent : s.syncState.find row.key = none)
    (stream : row.stream = "default") :
    CursorSet row.source row.cursor s (s.put (.addSyncState row)) := by
  have key : row.key = (row.source, "default") := by rw [SyncState.key, stream]
  refine ⟨?_, fun k other => ?_, rfl⟩
  · have found : (s.syncState.add row).find row.key = some row := by
      refine Table.find_eq_some_iff.mpr ⟨?_, rfl⟩
      rw [Table.mem_def, Table.rows_add_of_absent absent]
      simp
    change ((s.syncState.add row).find (row.source, "default")).bind SyncState.cursor = row.cursor
    rw [← key, found]
    rfl
  · exact Table.find_add_of_ne (fun same => other (same ▸ key))

theorem cursorSet_update {source : String} {state : SyncState} {cursor : Option String} {t : Time}
    (found : s.syncState.find (source, "default") = some state) :
    CursorSet source cursor s (s.put (.setSyncState (source, "default") cursor t)) := by
  refine ⟨?_, fun k other => ?_, rfl⟩
  · have updated : (s.put (.setSyncState (source, "default") cursor t)).syncState.find
        (source, "default") = some (state.setCursor cursor t) := by
      refine (Table.find_modify (fun row => row.setCursor_key cursor t)).trans ?_
      rw [if_pos rfl, found, Option.map_some]
    rw [Store.cursorOf, updated]
    rfl
  · exact Table.find_modify_of_ne (fun row => row.setCursor_key cursor t) other

/-- The watermark of a source was moved, unless `watermark` is `none`. -/
def WatermarkSaved (source : String) (watermark : Option String) (σ : State Unit)
    (ws : List Write) : Post Exn Store Write World Unit Unit := fun r τ vs =>
  ∀ a, r = .ok a → τ.store = σ.store ∧ ∃ new, vs = ws ++ new ∧
    (∀ w ∈ new, w.table = .syncState) ∧
      CursorSet source (watermark.or ((postgres.view σ.store ws).cursorOf source))
        (postgres.view σ.store ws) (postgres.view σ.store vs)

theorem watermarkSaved_none {σ : State Unit} {source : String} :
    WatermarkSaved source none σ ws (.ok ()) σ ws := by
  refine fun _ _ => ⟨rfl, [], (List.append_nil _).symm, fun w hw => ?_, rfl, fun _ _ => rfl, rfl⟩
  exact (List.not_mem_nil hw).elim

theorem wp_setCursor {σ : State Unit} {source cursor : String} :
    wp serial () (setCursor source (some cursor)) (WatermarkSaved source (some cursor) σ ws) σ ws := by
  unfold WatermarkSaved
  rw [Option.some_or]
  unfold setCursor
  rw [wp_bind]
  refine wp_selectCursor hosts_serial
    (fun τ rely _ => ⟨fun _ _ impossible => (nomatch impossible), ?_⟩)
  rw [Post.andThen_ok, alone_store rely]
  cases found : (postgres.view σ.store ws).syncState.find (source, "default") with
  | none =>
      dsimp only
      rw [wp_bind]
      refine wp_insertCursor hosts_serial
        (fun υ rely' _ => ⟨fun _ _ impossible => (nomatch impossible), ?_⟩)
      intro id t absent
      have same : υ.store = σ.store := (alone_store rely').trans (alone_store rely)
      refine fun _ _ => ⟨same, _, rfl, fun w hw => ?_, ?_⟩
      · rw [List.mem_singleton.mp hw]
        rfl
      rw [view_concat]
      rw [same] at absent
      exact cursorSet_add absent rfl
  | some state =>
      dsimp only
      split
      · refine wp_updateCursor hosts_serial
          (fun υ rely' _ => ⟨fun _ _ impossible => (nomatch impossible), ?_⟩)
        intro t
        refine fun _ _ => ⟨(alone_store rely').trans (alone_store rely), _, rfl, fun w hw => ?_, ?_⟩
        · rw [List.mem_singleton.mp hw]
          rfl
        rw [view_concat]
        exact cursorSet_update found
      · rename_i unchanged
        refine fun _ _ => ⟨alone_store rely, [], (List.append_nil _).symm, fun w hw => ?_, ?_⟩
        · exact (List.not_mem_nil hw).elim
        refine ⟨?_, fun _ _ => rfl, rfl⟩
        rw [Store.cursorOf, found]
        exact not_not.mp unchanged

end Watermark

section Store

variable {s : Store} {batch : List NormalizedEventCreate} {ws : List Write}

/-- From `s` to `t` the events of the batch were stored, and no other event has changed. -/
structure BatchStored (batch : List NormalizedEventCreate) (s t : Store) : Prop where
  stored : ∀ e ∈ deduped batch, ∃ row, t.normalizedEvents.find e.key = some row ∧ row.Holds e
  untouched : ∀ k, k ∉ batch.map NormalizedEventCreate.key →
    t.normalizedEvents.find k = s.normalizedEvents.find k
  ids : t.EventIdsUnique
  rawPayloads : t.rawPayloads = s.rawPayloads
  syncState : t.syncState = s.syncState

theorem batchStored_nil (ids : s.EventIdsUnique) : BatchStored [] s s :=
  ⟨fun _ he => (List.not_mem_nil he).elim, fun _ _ => rfl, ids, rfl, rfl⟩

theorem OnlyPayloads.eventIdsUnique (h : OnlyPayloads ws) (ids : s.EventIdsUnique) :
    (postgres.view s ws).EventIdsUnique := by
  unfold Store.EventIdsUnique
  rw [h.look Store.normalizedEvents (fun _ _ => rfl)]
  exact ids

/-- A run keeps the payloads, stores the batch and moves the watermark. -/
theorem Ingested.of_phases {rt : Runtime} {source operation : String} {items : List Json}
    {watermark : Option String} {t u : Store} (payloads : OnlyPayloads ws)
    (kept : ∀ raw ∈ items, Kept rt operation raw (postgres.view s ws))
    (batchStored : BatchStored batch (postgres.view s ws) t)
    (cursorSet : CursorSet source (watermark.or (t.cursorOf source)) t u) :
    Ingested rt source operation items batch watermark s u := by
  have cursors : (postgres.view s ws).syncState = s.syncState :=
    payloads.look Store.syncState (fun _ _ => rfl)
  have events : (postgres.view s ws).normalizedEvents = s.normalizedEvents :=
    payloads.look Store.normalizedEvents (fun _ _ => rfl)
  have cursor : t.cursorOf source = s.cursorOf source := by
    unfold Store.cursorOf
    rw [batchStored.syncState, cursors]
  constructor
  · intro raw hr
    rw [cursorSet.rest]
    obtain ⟨p, hp, same⟩ := kept raw hr
    exact ⟨p, batchStored.rawPayloads ▸ hp, same⟩
  · rw [cursorSet.rest]
    exact batchStored.stored
  · intro k free
    rw [cursorSet.rest]
    exact (batchStored.untouched k free).trans (by rw [events])
  · rw [cursorSet.set, cursor]
  · intro k other
    rw [cursorSet.others k other, batchStored.syncState, cursors]
  · rw [cursorSet.rest]
    exact batchStored.ids

/-- A run may as well move the watermark first. -/
theorem BatchStored.swap {source : String} {watermark : Option String} {t u : Store}
    (cursorSet : CursorSet source (watermark.or (s.cursorOf source)) s t)
    (batchStored : BatchStored batch t u) :
    BatchStored batch s { u with syncState := s.syncState } ∧
      CursorSet source (watermark.or (s.cursorOf source)) { u with syncState := s.syncState } u := by
  have events : t.normalizedEvents = s.normalizedEvents := by rw [cursorSet.rest]
  refine ⟨⟨batchStored.stored, fun k free => ?_, batchStored.ids, ?_, rfl⟩, ?_, fun k other => ?_, rfl⟩
  · exact (batchStored.untouched k free).trans (by rw [events])
  · exact batchStored.rawPayloads.trans (by rw [cursorSet.rest])
  · rw [← cursorSet.set]
    unfold Store.cursorOf
    rw [batchStored.syncState]
  · exact (congrArg (·.find k) batchStored.syncState).trans (cursorSet.others k other)

theorem UpsertedAlone.batchStored {changedBy : Option String} {p : UpsertPlan}
    (h : UpsertedAlone s batch changedBy p) (ids : s.EventIdsUnique) :
    BatchStored batch s (postgres.view s p.writes) := by
  have other : ∀ {β : Type} (look : Store → β), (∀ s row, look (s.put (.addVersion row)) = look s) →
      (∀ s row, look (s.put (.putEvent row)) = look s) →
      (∀ s row, look (s.put (.addOutbox row)) = look s) →
        look (postgres.view s p.writes) = look s := by
    intro β look versions events outbox
    refine view_look look ?_
    intro s w hw
    rw [UpsertPlan.writes, UpsertPlan.stored] at hw
    simp only [List.mem_append, List.mem_map] at hw
    rcases hw with ((⟨v, _, rfl⟩ | ⟨row, _, rfl⟩) | ⟨v, _, rfl⟩) | ⟨o, _, rfl⟩
    · exact versions s v
    · exact events s row
    · exact versions s v
    · exact outbox s o
  refine ⟨fun e he => ?_, fun k free => ?_, h.pending.eventIdsUnique_view ids, ?_, ?_⟩
  · obtain ⟨row, hr, holds⟩ := h.holds.exists_right he
    exact ⟨row, holds.key ▸ find_after h.committing hr, holds⟩
  · refine find_untouched (fun row hr same => free (mem_deduped_key.mp ?_))
    obtain ⟨e, he, holds⟩ := h.holds.exists_left hr
    exact List.mem_map.mpr ⟨e, he, holds.key.symm.trans same⟩
  · exact other Store.rawPayloads (fun _ _ => rfl) (fun _ _ => rfl) (fun _ _ => rfl)
  · exact other Store.syncState (fun _ _ => rfl) (fun _ _ => rfl) (fun _ _ => rfl)

/-- What `storeCollected` leaves. -/
theorem wp_storeCollected {σ : State Unit} {correlationId : String} (pending : Pending σ.store ws)
    (unique : σ.store.EventIdsUnique) (ids : (postgres.view σ.store ws).EventIdsUnique) :
    wp serial () (storeCollected batch correlationId)
      (fun r τ vs => ∀ results, r = .ok results → τ.store = σ.store ∧ ∃ new, vs = ws ++ new ∧
        BatchStored batch (postgres.view σ.store ws) (postgres.view σ.store vs)) σ ws := by
  unfold storeCollected
  split
  · rename_i empty
    rw [List.isEmpty_iff] at empty
    subst empty
    exact fun _ _ => ⟨rfl, [], (List.append_nil _).symm, batchStored_nil ids⟩
  · refine wp_upsertEventsBulk hosts_serial (fun _ unique => unique) unique pending ?_ ?_
    · exact fun e τ vs _ _ impossible => (nomatch impossible)
    · intro p τ _ upserted _ _
      refine ⟨alone_store upserted.rely, _, rfl, ?_⟩
      rw [postgres.view_append]
      exact upserted.alone.batchStored ids

end Store

section Ingest

variable {rt : Runtime} {settings : Settings} {source operation correlationId : String}

/-- The work of a run once it has fetched its items. -/
def ingestItems (rt : Runtime) (settings : Settings) (source operation correlationId : String)
    (connector : Connector) (rawItems : List Json) : Tx (List NormalizedEvent) := do
  let collected ←
    rawItems.foldlM (collectItem rt settings connector operation correlationId) ([], none)
  let results ← storeCollected collected.1 correlationId
  saveWatermark rt source collected.2
  return results

theorem ingest_eq : ingest rt settings source operation correlationId = (do
    let connector ← Prog.ofAnswer (rt.getConnector source)
    let cursor ← getCursor source
    let since ← parseSince rt cursor
    let rawItems ← Db.fetch source since
    ingestItems rt settings source operation correlationId connector rawItems) := rfl

/-- The time from which a run fetches, given the watermark. -/
def resumption (rt : Runtime) (cursor : Option String) : Except Exn (Option Time) :=
  match cursor with
  | some cursor => if cursor = "" then .ok none else (rt.fromisoformat cursor).map some
  | none => .ok none

theorem parseSince_eq (cursor : Option String) :
    parseSince rt cursor = Prog.ofAnswer (resumption rt cursor) := by
  cases cursor with
  | none => rfl
  | some cursor =>
      simp only [parseSince, resumption]
      split
      · rfl
      · cases rt.fromisoformat cursor <;> rfl

/-- The text of the latest timestamp. -/
def latestText (rt : Runtime) (maxTs : Option Stamp) : Option String :=
  maxTs.map (fun stamp => rt.isoformat stamp.instant)

theorem wp_saveWatermark {σ : State Unit} {ws : List Write} {maxTs : Option Stamp} :
    wp serial () (saveWatermark rt source maxTs)
      (WatermarkSaved source (latestText rt maxTs) σ ws) σ ws := by
  cases maxTs with
  | none => exact watermarkSaved_none
  | some t => exact wp_setCursor

/-- What a run leaves that has fetched `items`. -/
theorem wp_ingestItems {σ : State Unit} {connector : Connector} {items : List Json}
    (unique : σ.store.EventIdsUnique) :
    wp serial () (ingestItems rt settings source operation correlationId connector items)
      (fun r τ ws => ∀ results, r = .ok results → τ.store = σ.store ∧ ∃ batch maxTs,
        latest batch = .ok maxTs ∧ Normalized connector items batch ∧
          Ingested rt source operation items batch (latestText rt maxTs) σ.store
            (postgres.view σ.store ws)) σ [] := by
  unfold ingestItems
  rw [wp_bind]
  refine wp_mono (wp_collect items rfl) (fun r τ ws post => ?_)
  cases r with
  | error e => exact fun _ impossible => (nomatch impossible)
  | ok collected =>
      obtain ⟨store, payloads, kept, normalized, latest⟩ := post collected rfl
      have ids : (postgres.view τ.store ws).EventIdsUnique := by
        rw [store]
        exact payloads.eventIdsUnique unique
      rw [← store] at unique
      rw [Post.andThen_ok, wp_bind]
      refine wp_mono (wp_storeCollected (payloads.pending τ.store) unique ids) (fun r υ vs post => ?_)
      cases r with
      | error e => exact fun _ impossible => (nomatch impossible)
      | ok results =>
          obtain ⟨store', new, rfl, batchStored⟩ := post results rfl
          rw [Post.andThen_ok, wp_bind]
          refine wp_mono wp_saveWatermark (fun r φ us post => ?_)
          cases r with
          | error e => exact fun _ impossible => (nomatch impossible)
          | ok _ =>
              obtain ⟨store'', new', rfl, _, cursorSet⟩ := post () rfl
              rw [store', store] at cursorSet
              rw [store] at batchStored
              rintro _ ⟨⟩
              exact ⟨store''.trans (store'.trans store), collected.1, collected.2, latest, normalized,
                .of_phases payloads kept batchStored cursorSet⟩

/-- From `s` to `t` a run has fetched items from a source and has stored their events. -/
def Imported (rt : Runtime) (source operation : String) (remote : Remote) (s t : Store) : Prop :=
  ∃ connector since items batch maxTs, rt.getConnector source = .ok connector ∧
    resumption rt (s.cursorOf source) = .ok since ∧
      (∀ xs, remote (.fetch source since) = some xs → items = xs) ∧
        latest batch = .ok maxTs ∧ Normalized connector items batch ∧
          Ingested rt source operation items batch (latestText rt maxTs) s t

theorem cursorOf_of_sameContent {s t : Store} (h : s.SameContent t) (source : String) :
    t.cursorOf source = s.cursorOf source := by
  unfold Store.cursorOf
  rw [h.syncState]

theorem Ingested.congr {items : List Json} {batch : List NormalizedEventCreate}
    {watermark : Option String} {s s' t t' : Store}
    (h : Ingested rt source operation items batch watermark s t) (before : s.SameContent s')
    (after : t.SameContent t') : Ingested rt source operation items batch watermark s' t' := by
  constructor
  · rw [after.rawPayloads]
    exact h.payloads
  · rw [after.normalizedEvents]
    exact h.stored
  · rw [after.normalizedEvents, before.normalizedEvents]
    exact h.untouched
  · rw [cursorOf_of_sameContent before, cursorOf_of_sameContent after]
    exact h.cursor
  · rw [after.syncState, before.syncState]
    exact h.cursors
  · unfold Store.EventIdsUnique
    rw [after.normalizedEvents]
    exact h.ids

theorem Imported.congr {remote : Remote} {s s' t t' : Store}
    (h : Imported rt source operation remote s t) (before : s.SameContent s')
    (after : t.SameContent t') : Imported rt source operation remote s' t' := by
  obtain ⟨connector, since, items, batch, maxTs, found, resumes, answered, latest, normalized,
    ingested⟩ := h
  rw [← cursorOf_of_sameContent before] at resumes
  exact ⟨connector, since, items, batch, maxTs, found, resumes, answered, latest, normalized,
    ingested.congr before after⟩

/-- What a run leaves up to its commit. -/
theorem wp_ingest_imported {σ : State Unit} (unique : σ.store.EventIdsUnique) :
    wp serial () (ingest rt settings source operation correlationId)
      (fun r τ ws => ∀ results, r = .ok results → τ.store = σ.store ∧
        Imported rt source operation σ.world.remote σ.store (postgres.view σ.store ws)) σ [] := by
  rw [ingest_eq, wp_bind, wp_ofAnswer]
  cases found : rt.getConnector source with
  | error e => exact fun _ impossible => (nomatch impossible)
  | ok connector =>
      rw [Post.andThen_ok, wp_bind]
      unfold getCursor
      rw [wp_bind]
      refine wp_selectCursor hosts_serial
        (fun τ rely _ => ⟨fun _ _ impossible => (nomatch impossible), ?_⟩)
      rw [Post.andThen_ok, wp_pure, Post.andThen_ok, parseSince_eq, wp_bind, wp_ofAnswer]
      have before : τ.store = σ.store := alone_store rely
      change Post.andThen _ _ (resumption rt (τ.store.cursorOf source)) τ []
      rw [before]
      cases resumes : resumption rt (σ.store.cursorOf source) with
      | error e => exact fun _ impossible => (nomatch impossible)
      | ok since =>
          rw [Post.andThen_ok, wp_bind]
          refine wp_fetch (fun υ rely' _ => ⟨fun _ _ impossible => (nomatch impossible), ?_⟩)
          intro items known
          have same : υ.store = σ.store := (alone_store rely').trans before
          have remote : υ.world.remote = σ.world.remote := by
            rw [(alone_world rely').2, (alone_world rely).2]
          rw [remote] at known
          rw [Post.andThen_ok]
          refine wp_mono (wp_ingestItems (same ▸ unique)) (fun r φ ws post => ?_)
          rintro results rfl
          obtain ⟨store, batch, maxTs, latest, normalized, ingested⟩ := post results rfl
          rw [same] at store ingested
          exact ⟨store, connector, since, items, batch, maxTs, found, resumes, known, latest,
            normalized, ingested⟩

end Ingest

end OmniSync
