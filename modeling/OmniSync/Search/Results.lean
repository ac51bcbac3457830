import OmniSync.Integrations.Feed
import OmniSync.Outbox.Verification

/-!
# What a search shows

Deliveries to the vector index are not part of the transaction of the publisher, and outlive it
when it fails. They are made from committed rows of the outbox only: `Grounded` is the invariant
of everything that interleaves. So whatever a search finds is what the feed has announced of an
event that is stored.
-/

namespace OmniSync

open Txn

variable {ι : Type}

/-- The key of the event that a row announces. -/
def OutboxPayload.key (payload : OutboxPayload) : String × String :=
  (payload.source, payload.externalId)

/-- What has been announced belongs to stored events, and what the index holds has been
announced. -/
structure Grounded (σ : State ι) : Prop where
  ids : σ.store.EventIdsUnique
  known : ∀ x ∈ σ.store.entries, ∃ e ∈ σ.store.normalizedEvents,
    e.id = x.1.eventId ∧ e.key = x.1.key
  index : ∀ id point, σ.world.index id = some point →
    ∃ x ∈ σ.store.entries, x.1.eventId = id ∧ x.1.point = point

/-- The writes announce only events that they store, under their keys. -/
def Owning (ws : List Write) : Prop :=
  ∀ x ∈ announced ws, ∃ row, .putEvent row ∈ ws ∧ row.id = x.1.eventId ∧ row.key = x.1.key

/-- The protocol of sessions that deliver what has been announced. -/
def grounding : Protocol postgres ι :=
  Protocol.interleaved postgres Grounded World.Later (fun _ _ => True) (fun _ _ _ => True)
    World.Later.refl World.Later.trans

theorem hosts_grounding : Hosts (grounding (ι := ι)) :=
  hosts_interleaved (fun _ _ inv _ => ⟨inv.ids, inv.known, inv.index⟩)

section Invariant

variable {σ τ : State ι} {ws vs : List Write} {x : OutboxPayload × (Time ×ₗ Uuid)}

theorem exec_index {s : Stmt} (apart : s.Apart) {choice : Choice} {world world' : World}
    {view : Store} {locked : Write → Bool} {answer : Except Exn (Answer s)} {new : List Write}
    (run : exec s choice world view locked = some (answer, new, world')) :
    world'.index = world.index := by
  by_cases inner : s.external = false
  · exact (exec_moves inner run).index
  · cases s with
    | qdrantUpsert => exact apart.elim
    | sendTask name =>
        cases choice <;> cases run
        rfl
    | _ => exact (inner rfl).elim

theorem Grounded.world (h : Grounded σ) {world : World} (same : world.index = σ.world.index) :
    Grounded { σ with world := world } :=
  ⟨h.ids, h.known, fun id point found => h.index id point (same ▸ found)⟩

theorem Grounded.deliver (h : Grounded σ) (committed : x ∈ σ.store.entries) :
    Grounded (withPoint σ x.1.eventId x.1.point) := by
  refine ⟨h.ids, h.known, fun id point found => ?_⟩
  rw [withPoint_index] at found
  by_cases same : id = x.1.eventId
  · subst same
    rw [Function.update_self] at found
    exact ⟨x, committed, rfl, Option.some.inj found⟩
  · rw [Function.update_of_ne same] at found
    exact h.index id point found

/-- A commit of pending writes keeps the invariant. -/
theorem Grounded.publish (h : Grounded σ) (i : ι) (pending : Pending σ.store ws)
    (owning : Owning ws) : Grounded (postgres.publish σ i ws) := by
  refine ⟨pending.eventIdsUnique_view h.ids, fun x hx => ?_, fun id point found => ?_⟩
  · rcases mem_entries_of_mem_view hx with old | new
    · obtain ⟨e, he, owner, key⟩ := h.known x old
      obtain ⟨y, hy, key', owner'⟩ := pending.exists_mem_view he
      exact ⟨y, hy, owner'.trans owner, key'.trans key⟩
    · obtain ⟨row, hr, owner, key⟩ := owning x new
      obtain ⟨y, hy, key', own⟩ := exists_mem_view_of_putEvent (s := σ.store) hr
      exact ⟨y, hy, ((pending.identity y row own hr).mp key').trans owner, key'.trans key⟩
  · obtain ⟨x, hx, owner, shown⟩ := h.index id point found
    exact ⟨x, mem_entries_view_of_mem hx, owner, shown⟩

theorem mem_entries_of_grounding (h : grounding.rely ws σ τ) (hx : x ∈ σ.store.entries) :
    x ∈ τ.store.entries :=
  (hosts_grounding.interference h).preserves (fun s => x ∈ s.entries)
    (fun _ _ _ _ _ kept => mem_entries_view_of_mem kept) hx

theorem owning_of_beside (h : ∀ w ∈ ws, w.Beside) : Owning ws :=
  fun _ hx => (announced_of_beside h hx).elim

theorem Owning.append (hw : Owning ws) (hv : Owning vs) : Owning (ws ++ vs) := by
  intro x hx
  rcases mem_announced_append.mp hx with old | new
  · obtain ⟨row, hr, same⟩ := hw x old
    exact ⟨row, List.mem_append_left _ hr, same⟩
  · obtain ⟨row, hr, same⟩ := hv x new
    exact ⟨row, List.mem_append_right _ hr, same⟩

/-- An upsert announces the events that it stores. -/
theorem Upserted.owning {P : Protocol postgres ι} {events : List NormalizedEventCreate}
    {changedBy : Option String} {p : UpsertPlan} (h : Upserted P events changedBy p σ ws τ) :
    Owning p.writes := by
  rintro _ ⟨o, ho, rfl⟩
  obtain ⟨row, hr, id, t, rfl⟩ := h.outbox.exists_left (mem_writes_addOutbox.mp ho)
  exact ⟨row, mem_writes_putEvent.mpr hr, rfl, rfl⟩

end Invariant

section Parts

variable {σ : State ι} {ws : List Write} {settings : Settings}

/-- Sessions can upsert. -/
theorem grounding_upserts (sources : Set String) (i : ι) :
    Sustains grounding i (UpsertPart sources) Stmt.Apart
      (fun σ ws => Pending σ.store ws ∧ Owning ws) where
  stable clean rely _ := ⟨clean.1.rely hosts_grounding rely, clean.2⟩
  empty _ := ⟨Pending.nil _, owning_of_beside (by simp)⟩
  step here inv run := by
    have beside := exec_beside here.beside run
    exact ⟨Protocol.interleaved_guarantees_world (inv.world (exec_index here run)) (exec_later run),
      fun clean => ⟨clean.1.append_beside beside, clean.2.append (owning_of_beside beside)⟩⟩
  commits clean inv :=
    Protocol.interleaved_guarantees_publish (inv.publish _ clean.1 clean.2) trivial
  part here inv clean := by
    cases here with
    | bulk events changedBy own =>
        refine wp_upsertEventsBulk hosts_grounding (fun _ inv => inv.ids) inv clean.1
          (fun _ _ _ _ _ impossible => (nomatch impossible)) ?_
        exact fun p τ _ upserted _ _ => ⟨upserted.pending, clean.2.append upserted.owning⟩

/-- A pass delivers committed rows only. -/
theorem wp_deliverPending {i : ι} (own : ∀ w ∈ ws, w.Beside) :
    wp grounding i (deliverPending settings)
      (fun r _ vs => ∀ b, r = .ok b → ∀ w ∈ vs, w.Beside) σ ws := by
  unfold deliverPending fetchPending
  rw [wp_bind]
  refine wp_selectPending hosts_grounding (fun τ _ _ => ⟨fun e _ impossible => ?_, ?_⟩)
  · cases impossible
  intro locked rows selected
  rw [Post.andThen_ok]
  refine wp_foldlM (fun _ rest υ vs => (∀ w ∈ vs, w.Beside) ∧ ∀ o ∈ rest, o.entry ∈ υ.store.entries)
    ?_ ?_ 0 rows ⟨fun w hw => ?_, fun o ho => ?_⟩
  · rintro published o rest υ vs ⟨beside, committed⟩
    have patched : ∀ patch, ∀ w ∈ vs ++ [.patchOutbox o.id patch], w.Beside := by
      intro patch w hw
      rcases List.mem_append.mp hw with old | new
      · exact beside w old
      · rw [List.mem_singleton.mp new]
        trivial
    have here : o.entry ∈ υ.store.entries := committed o List.mem_cons_self
    have others : ∀ o' ∈ rest, o'.entry ∈ υ.store.entries :=
      fun o' ho' => committed o' (List.mem_cons_of_mem _ ho')
    refine wp_publishRow hosts_grounding (fun φ error rely _ => ?_) (fun φ rely inv _ => ⟨?_, ?_⟩)
    · exact ⟨patched _, fun o' ho' => mem_entries_of_grounding rely (others o' ho')⟩
    · exact Protocol.interleaved_guarantees_world
        (inv.deliver (mem_entries_of_grounding rely here)) (Clock.Le.refl _)
    · intro χ now rely' _
      refine ⟨patched _, fun o' ho' => ?_⟩
      have before : o'.entry ∈ φ.store.entries := mem_entries_of_grounding rely (others o' ho')
      exact mem_entries_of_grounding rely' before
  · rintro published υ vs ⟨beside, -⟩ _ _
    exact beside
  · rcases List.mem_append.mp hw with old | new
    · exact own w old
    · obtain ⟨o, -, rfl⟩ := List.mem_map.mp new
      trivial
  · have seen := (List.mem_filter.mp (selected.mem o ho)).1
    exact (mem_entries_of_mem_view ⟨o, seen, rfl⟩).resolve_right (announced_of_beside own)

/-- Sessions can publish. -/
theorem grounding_delivers (i : ι) :
    Sustains grounding i (DeliveryPart settings) Stmt.Apart (fun _ ws => ∀ w ∈ ws, w.Beside) where
  stable clean _ _ := clean
  empty _ := by simp
  step here inv run := by
    refine ⟨Protocol.interleaved_guarantees_world (inv.world (exec_index here run))
      (exec_later run), fun clean w hw => ?_⟩
    rcases List.mem_append.mp hw with old | new
    · exact clean w old
    · exact exec_beside here.beside run w new
  commits clean inv := Protocol.interleaved_guarantees_publish
    (inv.publish _ ((Pending.nil _).append_beside clean) (owning_of_beside clean)) trivial
  part here _ clean := by
    cases here
    exact wp_deliverPending clean

/-- What is known of the pending work of an operation. -/
def Operation.Settled : Operation → State ι → List Write → Prop
  | publishOutbox, _, ws => ∀ w ∈ ws, w.Beside
  | _, σ, ws => Pending σ.store ws ∧ Owning ws

theorem grounding_sustains (c : SystemConfig) (op : Operation) (i : ι) :
    Sustains grounding i (op.parts c) Stmt.Apart op.Settled := by
  cases op with
  | publishOutbox => exact grounding_delivers i
  | _ => exact grounding_upserts _ i

end Parts

section Search

variable {Score : Type} {lib : QdrantLib Score} {connected : Bool} {query : String}
variable {source eventType : Option String} {limit : Nat} {σ : State ι}

/-- A search finds points of the index that match, each of them once, and not more than it is
asked for. -/
structure QdrantLib.Finds (lib : QdrantLib Score) : Prop where
  few : ∀ index query filter limit hits, lib.search index query filter limit = .ok hits →
    hits.length ≤ limit
  once : ∀ index query filter limit hits, lib.search index query filter limit = .ok hits →
    (hits.map Hit.eventId).Nodup
  found : ∀ index query filter limit hits, lib.search index query filter limit = .ok hits →
    ∀ hit ∈ hits, index hit.eventId = some hit.point ∧ filter.accepts hit.point = true

/-- The result shows what the feed has announced of an event that is stored. -/
structure Shows (s : Store) (result : SearchResult Score) (e : NormalizedEvent)
    (announcement : OutboxPayload) : Prop where
  stored : e ∈ s.normalizedEvents
  event : result.eventId = e.id
  source : result.source = e.source
  committed : ∃ o ∈ s.outboxEvents, o.payload = announcement
  owner : announcement.eventId = e.id
  eventType : result.eventType = announcement.eventType
  content : result.content = slice announcement.content 1000

theorem mem_searchEvents {index : Uuid → Option IndexPoint} {result : SearchResult Score}
    (finds : lib.Finds)
    (h : result ∈ searchEvents connected lib index query source eventType limit) :
    ∃ point, index result.eventId = some point ∧
      (queryFilter source eventType).accepts point = true ∧ result.source = point.source ∧
        result.eventType = point.eventType ∧ result.content = point.content := by
  unfold searchEvents at h
  split at h
  · cases h
  · cases answer : lib.search index query (queryFilter source eventType) limit with
    | error e =>
        rw [answer] at h
        cases h
    | ok hits =>
        rw [answer] at h
        obtain ⟨hit, member, rfl⟩ := List.mem_map.mp h
        obtain ⟨held, accepted⟩ := finds.found _ _ _ _ hits answer hit member
        exact ⟨hit.point, held, accepted, rfl, rfl, rfl⟩

theorem searchEvents_few (finds : lib.Finds) (connected : Bool) (index : Uuid → Option IndexPoint)
    (query : String) (source eventType : Option String) (limit : Nat) :
    (searchEvents connected lib index query source eventType limit).length ≤ limit ∧
      ((searchEvents connected lib index query source eventType limit).map
        SearchResult.eventId).Nodup := by
  unfold searchEvents
  split
  · exact ⟨Nat.zero_le _, .nil⟩
  · cases answer : lib.search index query (queryFilter source eventType) limit with
    | error e => exact ⟨Nat.zero_le _, .nil⟩
    | ok hits =>
        dsimp only
        rw [List.length_map, List.map_map]
        exact ⟨finds.few _ _ _ _ hits answer, finds.once _ _ _ _ hits answer⟩

/-- What the filters say, with empty ones left out. -/
theorem accepts_queryFilter_iff {point : IndexPoint} :
    (queryFilter source eventType).accepts point = true ↔
      (∀ value ∈ source, value ≠ "" → point.source = value) ∧
        ∀ value ∈ eventType, value ≠ "" → point.eventType = value := by
  have each (value : Option String) (column : String) :
      (value.filter (fun text => decide (text ≠ ""))).all (fun text => decide (column = text)) =
        true ↔ ∀ text ∈ value, text ≠ "" → column = text := by
    cases value with
    | none => simp
    | some text =>
        by_cases empty : text = ""
        · simp [empty]
        · simp [empty]
  unfold QueryFilter.accepts queryFilter
  rw [Bool.and_eq_true]
  exact and_congr (each _ _) (each _ _)

theorem Grounded.shows (h : Grounded σ) {result : SearchResult Score} {point : IndexPoint}
    (held : σ.world.index result.eventId = some point) (source : result.source = point.source)
    (eventType : result.eventType = point.eventType) (content : result.content = point.content) :
    ∃ e announcement, Shows σ.store result e announcement := by
  obtain ⟨x, hx, owner, shown⟩ := h.index _ _ held
  obtain ⟨e, he, id, key⟩ := h.known x hx
  obtain ⟨o, ho, rfl⟩ := hx
  have sourceOf : e.source = point.source := by
    rw [← shown]
    exact congrArg Prod.fst key
  refine ⟨e, o.payload, he, ?_, source.trans sourceOf.symm, ⟨o, ho, rfl⟩, id.symm, ?_, ?_⟩
  · exact owner.symm.trans id.symm
  · rw [eventType, ← shown]
    rfl
  · rw [content, ← shown]
    rfl

/-- However any operations have interleaved on an empty database with an empty index, and wherever
they have failed: a search shows at most `limit` events, each of them once. They are stored, match
the filters, and what is shown of each of them was announced by the feed. -/
theorem search_grounded [Fintype ι] [DecidableEq ι] (c : SystemConfig) {world : World}
    (empty : ∀ id, world.index id = none) (finds : lib.Finds) (ops : ι → Operation)
    {st : Cluster Answer Exn Store Write World ι Unit}
    (run : Cluster.Reachable postgres
      (Cluster.start ⟨world, ∅, []⟩ (fun i => (ops i).run c)) st)
    (connected : Bool) (query : String) (source eventType : Option String) (limit : Nat) :
    (searchEvents connected lib st.shared.world.index query source eventType limit).length ≤ limit ∧
    ((searchEvents connected lib st.shared.world.index query source eventType limit).map
      SearchResult.eventId).Nodup ∧
    ∀ result ∈ searchEvents connected lib st.shared.world.index query source eventType limit,
      (∀ value ∈ source, value ≠ "" → result.source = value) ∧
        (∀ value ∈ eventType, value ≠ "" → result.eventType = value) ∧
          ∃ e announcement, Shows st.shared.store result e announcement := by
  have start : Grounded (⟨world, ∅, []⟩ : State ι) := by
    refine ⟨fun _ hx => (List.not_mem_nil hx).elim, ?_, fun id point found => ?_⟩
    · rintro _ ⟨o, ho, -⟩
      exact (List.not_mem_nil ho).elim
    · cases (empty id).symm.trans found
  have reached : Grounded st.shared := Cluster.Composed.inv (P := grounding)
    Protocol.interleaved_coherent (fun i => grounding_sustains c (ops i) i)
    (fun i => (ops i).composed c) start run
  obtain ⟨few, once⟩ :=
    searchEvents_few finds connected st.shared.world.index query source eventType limit
  refine ⟨few, once, fun result member => ?_⟩
  obtain ⟨point, held, accepted, same, same', content⟩ := mem_searchEvents finds member
  obtain ⟨bySource, byType⟩ := accepts_queryFilter_iff.mp accepted
  exact ⟨fun value hv filled => same.trans (bySource value hv filled),
    fun value hv filled => same'.trans (byType value hv filled),
    reached.shows held same same' content⟩

end Search

section Example

/-- An index in which the point of one event is looked for. -/
def singleLib (eventId : Uuid) : QdrantLib Nat where
  search index _ filter limit :=
    if limit = 0 then .ok []
    else .ok (((index eventId).filter filter.accepts).map (fun point =>
      Hit.mk eventId point 1)).toList

theorem singleLib_finds (eventId : Uuid) : (singleLib eventId).Finds := by
  have answer : ∀ index query filter limit hits,
      (singleLib eventId).search index query filter limit = .ok hits →
        hits = [] ∨ ∃ point, 0 < limit ∧ hits = [⟨eventId, point, 1⟩] ∧
          index eventId = some point ∧ filter.accepts point = true := by
    intro index query filter limit hits found
    simp only [singleLib] at found
    split at found
    · cases found
      exact .inl rfl
    · next positive =>
        cases found
        cases held : (index eventId).filter filter.accepts with
        | none => exact .inl rfl
        | some point =>
            obtain ⟨here, accepted⟩ := Option.filter_eq_some_iff.mp held
            exact .inr ⟨point, Nat.pos_of_ne_zero positive, rfl, here, accepted⟩
  refine ⟨fun index query filter limit hits found => ?_,
    fun index query filter limit hits found => ?_,
    fun index query filter limit hits found hit member => ?_⟩
  · rcases answer _ _ _ _ _ found with rfl | ⟨point, positive, rfl, -⟩
    · exact Nat.zero_le _
    · exact positive
  · rcases answer _ _ _ _ _ found with rfl | ⟨point, -, rfl, -⟩
    · exact .nil
    · exact List.nodup_singleton _
  · rcases answer _ _ _ _ _ found with rfl | ⟨point, -, rfl, held⟩
    · cases member
    · rw [List.mem_singleton.mp member]
      exact held

/-- The publisher delivers the first row and is lost before it commits. -/
def lostSchedule : List (Bool × Move Exn Choice) :=
  chatMoves.map (Prod.mk false) ++
    [(true, .step (.rows [12, 22])), (true, .step (.flag true)), (true, .step .none),
      (true, .crash ⟨"WorkerLostError", "Worker exited prematurely"⟩)]

/-- A search shows the text that the message had first, although no row is published. -/
theorem search_grounded_lost :
    ∃ st, chatStart.play postgres (fun _ _ _ => True) lostSchedule = some st ∧
      st.shared.store.outboxEvents.rows.map OutboxEvent.status = [.pending, .pending] ∧
        ∃ result ∈ searchEvents true (singleLib 10) st.shared.world.index "hi" (some "telegram")
          (some "") 10, result.content = "[chat:100] hi" ∧
            ∃ e announcement, Shows st.shared.store result e announcement := by
  have shape : (chatStart.play postgres (fun _ _ _ => True) lostSchedule).map (fun st =>
      (st.shared.store.outboxEvents.rows.map OutboxEvent.status,
        (searchEvents true (singleLib 10) st.shared.world.index "hi" (some "telegram") (some "")
          10).map SearchResult.content)) =
            some ([.pending, .pending], ["[chat:100] hi"]) := by decide +kernel
  obtain ⟨st, run, rows⟩ := Option.map_eq_some_iff.mp shape
  rw [Prod.mk.injEq] at rows
  obtain ⟨result, one, content⟩ := List.map_eq_singleton_iff.mp rows.2
  have member : result ∈ searchEvents true (singleLib 10) st.shared.world.index "hi"
      (some "telegram") (some "") 10 := by
    rw [one]
    exact List.mem_singleton.mpr rfl
  have reached : Cluster.Reachable postgres chatStart st := Cluster.run_of_play run
  have grounded := search_grounded chatConfig (fun _ => rfl) (singleLib_finds 10) chatOperations
    reached true "hi" (some "telegram") (some "") 10
  exact ⟨st, run, rows.1, result, member, content, (grounded.2.2 result member).2.2⟩

end Example

end OmniSync
