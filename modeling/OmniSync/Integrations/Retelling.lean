import OmniSync.Agent.Paging
import OmniSync.Data.Destutter
import OmniSync.Integrations.History

/-!
# The change feed tells the version history

The versions of an event are recorded when its content changes; the feed announces an event
whenever it is submitted. Operations run one after the other, each of them however far it gets,
and raw payloads are removed in between. What the feed tells of an event is then its recorded
history, with some versions told several times in a row.
-/

namespace OmniSync

open Txn
open NormalizedEventService (getEventHistory)

/-- What the feed tells of an event, in feed order. -/
def Store.told (s : Store) (eventId : Uuid) : List ChangeItem :=
  (s.feed none).filter (fun item => decide (item.payload.eventId = eventId))

/-- The version and the content that an item announces. -/
def ChangeItem.revision (item : ChangeItem) : Nat × String :=
  (item.payload.version, item.payload.content)

/-- The version and the content that are recorded. -/
def EventVersion.revision (v : EventVersion) : Nat × String := (v.version, v.content)

/-- A history with the numbers of its versions. -/
def revisions (past : List String) : List (Nat × String) :=
  (List.range' 1 past.length).zip past

section Revisions

variable {past : List String} {content : String}

theorem revisions_concat : revisions (past ++ [content]) =
    revisions past ++ [(past.length + 1, content)] := by
  unfold revisions
  rw [List.length_append, List.length_singleton, List.range'_1_concat, List.zip_append]
  · rw [Nat.add_comm 1]
    rfl
  · rw [List.length_range']

theorem getLast?_revisions : (revisions past).getLast? =
    past.getLast?.map (fun content => (past.length, content)) := by
  induction past using List.reverseRecOn with
  | nil => rfl
  | append_singleton past content _ =>
      rw [revisions_concat, List.getLast?_concat, List.getLast?_concat, List.length_append,
        List.length_singleton]
      rfl

theorem HistoryOf.map_revision {s : Store} {e : NormalizedEvent} (h : HistoryOf s e past) :
    (getEventHistory s e.id).map EventVersion.revision = revisions past := by
  calc (getEventHistory s e.id).map EventVersion.revision
    _ = ((getEventHistory s e.id).map EventVersion.version).zip
          ((getEventHistory s e.id).map EventVersion.content) := List.zip_map'.symm
    _ = revisions past := by
          rw [h.versions, h.contents, ← h.length]
          rfl

end Revisions

section Told

variable {s t : Store} {p : UpsertPlan} {id : Uuid} {item : ChangeItem}

theorem mem_told : item ∈ s.told id ↔
    (∃ o ∈ s.outboxEvents, ChangeItem.modelValidate o = item) ∧ item.payload.eventId = id := by
  simp [Store.told, mem_feed]

theorem told_ascending (s : Store) (id : Uuid) :
    Keyset.Ascending ChangeItem.position (s.told id) :=
  List.Pairwise.filter _ (feed_ascending s none)

/-- What is told of an event depends on the items only. -/
theorem told_eq (same : ∀ item, item.payload.eventId = id →
    ((∃ o ∈ t.outboxEvents, ChangeItem.modelValidate o = item) ↔
      ∃ o ∈ s.outboxEvents, ChangeItem.modelValidate o = item)) : t.told id = s.told id := by
  refine (told_ascending t id).eq_of_mem_iff (told_ascending s id) (fun item => ?_)
  rw [mem_told, mem_told]
  exact and_congr_left (same item)

/-- An upsert that announces an event after all that was told of it. -/
theorem Committing.told_concat (h : Committing s p) {o : OutboxEvent} (ho : o ∈ p.outbox)
    (later : ∀ o' ∈ s.outboxEvents, o'.payload.eventId = o.payload.eventId →
      o'.createdAt < o.createdAt) :
    (postgres.view s p.writes).told o.payload.eventId =
      s.told o.payload.eventId ++ [ChangeItem.modelValidate o] := by
  have sorted : Keyset.Ascending ChangeItem.position
      (s.told o.payload.eventId ++ [ChangeItem.modelValidate o]) := by
    refine List.pairwise_append.mpr ⟨told_ascending s _, List.pairwise_singleton _ _, ?_⟩
    intro a ha b hb
    obtain ⟨⟨o', ho', rfl⟩, owner⟩ := mem_told.mp ha
    rw [List.mem_singleton.mp hb]
    exact Prod.Lex.toLex_lt_toLex.mpr (.inl (later o' ho' owner))
  refine (told_ascending _ _).eq_of_mem_iff sorted (fun item => ?_)
  rw [List.mem_append, List.mem_singleton, mem_told, mem_told]
  constructor
  · rintro ⟨⟨o', ho', rfl⟩, owner⟩
    rcases h.mem_outbox.mp ho' with old | new
    · exact .inl ⟨⟨o', old, rfl⟩, owner⟩
    · exact .inr (congrArg ChangeItem.modelValidate (h.announced_once ho new owner))
  · rintro (⟨⟨o', old, rfl⟩, owner⟩ | rfl)
    · exact ⟨⟨o', h.mem_outbox.mpr (.inl old), rfl⟩, owner⟩
    · exact ⟨⟨o, h.mem_outbox.mpr (.inr ho), rfl⟩, rfl⟩

/-- An upsert tells nothing of an event that it does not store. -/
theorem Committing.told_untouched (h : Committing s p) {e : NormalizedEvent}
    (he : e ∈ s.normalizedEvents) (free : ∀ row ∈ p.rows, row.key ≠ e.key) :
    (postgres.view s p.writes).told e.id = s.told e.id := by
  refine told_eq (fun item owner => ⟨?_, ?_⟩)
  · rintro ⟨o, ho, rfl⟩
    exact ⟨o, (h.mem_outbox.mp ho).resolve_right
      (fun new => h.not_enqueued he free new owner), rfl⟩
  · rintro ⟨o, ho, rfl⟩
    exact ⟨o, h.mem_outbox.mpr (.inl ho), rfl⟩

end Told

/-- The histories are `past`, and the feed tells them. -/
structure Retold (s : Store) (past : String × String → List String) : Prop where
  histories : Histories s past
  known : ∀ o ∈ s.outboxEvents, ∃ e ∈ s.normalizedEvents, e.id = o.payload.eventId
  told : ∀ e ∈ s.normalizedEvents,
    ((s.told e.id).map ChangeItem.revision).destutter (· ≠ ·) = revisions (past e.key)

namespace Retold

variable {s t : Store} {past : String × String → List String} {ws : List Write}
variable {events : List NormalizedEventCreate} {changedBy : Option String} {p : UpsertPlan}

theorem empty : Retold ∅ (fun _ => []) :=
  ⟨.empty, fun _ ho => (List.not_mem_nil ho).elim, fun _ he => (List.not_mem_nil he).elim⟩

theorem congr (h : Retold s past) (events : t.normalizedEvents = s.normalizedEvents)
    (versions : t.eventVersions = s.eventVersions)
    (items : ∀ item, (∃ o ∈ t.outboxEvents, ChangeItem.modelValidate o = item) ↔
      ∃ o ∈ s.outboxEvents, ChangeItem.modelValidate o = item) : Retold t past := by
  refine ⟨h.histories.congr events versions, fun o ho => ?_, fun e he => ?_⟩
  · rw [events]
    obtain ⟨o', ho', same⟩ := (items _).mp ⟨o, ho, rfl⟩
    obtain ⟨e, he, owner⟩ := h.known o' ho'
    exact ⟨e, he, owner.trans (congrArg (fun item => item.payload.eventId) same)⟩
  · rw [events] at he
    rw [told_eq (fun item _ => items item)]
    exact h.told e he

theorem view_beside (h : Retold s past) (beside : ∀ w ∈ ws, w.Beside) :
    Retold (postgres.view s ws) past := by
  refine h.congr
    (view_look Store.normalizedEvents
      (fun _ w hw => Store.put_normalizedEvents_of_beside (beside w hw)))
    (view_look Store.eventVersions (fun _ w hw => Store.put_eventVersions_of_beside (beside w hw)))
    (fun item => ⟨?_, ?_⟩)
  · rintro ⟨o, ho, rfl⟩
    refine (exists_of_mem_view_outboxEvents ChangeItem.modelValidate (fun _ _ => rfl)
      ho).resolve_right ?_
    rintro ⟨o', own, -⟩
    exact beside _ own
  · rintro ⟨o, ho, rfl⟩
    exact exists_mem_view_outboxEvents ChangeItem.modelValidate (fun _ _ => rfl) ws ho

/-- What was told before an event is upserted. -/
theorem told_before (h : Retold s past) (upserted : UpsertedAlone s events changedBy p)
    {row : NormalizedEvent} (hr : row ∈ p.rows) :
    ((s.told row.id).map ChangeItem.revision).destutter (· ≠ ·) = revisions (past row.key) := by
  have committing := upserted.committing
  cases found : s.normalizedEvents.find row.key with
  | some e =>
      obtain ⟨he, key⟩ := Table.find_eq_some_iff.mp found
      rw [← (committing.key_eq_iff hr he).mp key, ← key]
      exact h.told e he
  | none =>
      have nothing : s.told row.id = [] := by
        refine List.eq_nil_iff_forall_not_mem.mpr (fun item hi => ?_)
        obtain ⟨⟨o, ho, rfl⟩, owner⟩ := mem_told.mp hi
        obtain ⟨e, he, id⟩ := h.known o ho
        have key := (committing.key_eq_iff hr he).mpr (id.trans owner)
        exact Table.find_eq_none_iff.mp found e he key
      rw [nothing, h.histories.absent _ found]
      rfl

/-- An upsert that announces its events after all that was told of them. -/
theorem upsert (h : Retold s past) (upserted : UpsertedAlone s events changedBy p)
    (later : ∀ o ∈ p.outbox, ∀ o' ∈ s.outboxEvents, o'.payload.eventId = o.payload.eventId →
      o'.createdAt < o.createdAt) :
    Retold (postgres.view s p.writes) (extendAll past events) := by
  have committing := upserted.committing
  have histories := h.histories.step upserted
  refine ⟨histories, committing.known h.known, fun e he => ?_⟩
  have history := histories.event e he
  rcases committing.mem_events.mp he with stored | ⟨old, free⟩
  · obtain ⟨_, ho, id, t, rfl⟩ := committing.enqueued.exists_right stored
    have told := committing.told_concat ho (later _ ho)
    change (postgres.view s p.writes).told e.id = s.told e.id ++ _ at told
    obtain ⟨submission, member, columns⟩ := upserted.exists_event stored
    have extended : extendAll past events e.key = extend (past e.key) e.content := by
      unfold extendAll
      rw [columns.key, submittedIn_of_mem member, columns.content]
    rw [extended] at history ⊢
    rw [told, List.map_append, List.map_singleton, List.destutter_concat,
      ← List.getLast?_destutter, h.told_before upserted stored, getLast?_revisions]
    unfold extend at history ⊢
    by_cases again : (past e.key).getLast? = some e.content
    · -- The version that was told last is told again.
      rw [if_pos again] at history
      rw [if_pos again, again, Option.map_some, if_pos]
      rw [history.length]
      rfl
    · rw [if_neg again] at history
      rw [if_neg again, if_neg, revisions_concat, ← List.length_singleton (a := e.content),
        ← List.length_append, history.length]
      · rfl
      · intro same
        obtain ⟨content, last, revision⟩ := Option.map_eq_some_iff.mp same
        exact again (last.trans (congrArg some (congrArg Prod.snd revision)))
  · have untouched : extendAll past events e.key = past e.key := by
      unfold extendAll
      rw [submittedIn_of_not_mem]
      intro submission member same
      obtain ⟨row, hr, columns⟩ := upserted.exists_row member
      exact free row hr (columns.key.trans same)
    rw [untouched, committing.told_untouched old free]
    exact h.told e old

end Retold

/-- The feed tells the histories, and the clock has passed it. -/
def Retelling (σ : State Unit) : Prop := (∃ past, Retold σ.store past) ∧ Stamped σ

theorem Retelling.withClock {σ : State Unit} {c : Clock} (h : Retelling σ)
    (le : σ.world.clock.Le c) : Retelling (withClock σ c) := ⟨h.1, h.2.withClock le⟩

/-- The protocol of operations that run one after the other. -/
def retelling : Protocol postgres Unit := alone Retelling (fun _ _ _ => True)

/-- The protocol of a part that starts in `σ`: the clock has not been set back since. -/
def retellingSince (σ : State Unit) : Protocol postgres Unit :=
  alone (fun φ => Retelling φ ∧ σ.world.Later φ.world) (fun _ _ _ => True)

theorem hosts_retellingSince {σ : State Unit} : Hosts (retellingSince σ) :=
  hosts_alone_of_le (fun _ _ inv le => ⟨inv.1.withClock le, inv.2.trans le⟩)

theorem Retelling.upserted {events : List NormalizedEventCreate} {changedBy : Option String}
    {p : UpsertPlan} {σ τ : State Unit} {ws : List Write}
    (upserted : Upserted (retellingSince σ) events changedBy p σ ws τ)
    (pending : Pending σ.store ws)
    (clean : Retelling { σ with store := postgres.view σ.store ws }) :
    Retelling { τ with store := postgres.view τ.store (ws ++ p.writes) } := by
  obtain ⟨⟨past, retold⟩, stamped⟩ := clean
  have store : τ.store = σ.store := alone_store upserted.rely
  have later := upserted.announces_later (fun inv => ⟨inv.1.2, inv.2⟩)
    (fun before _ committed _ => alone_store before ▸ committed) pending stamped
  rw [store] at later
  have before : Stamped { τ with store := postgres.view τ.store ws } := by
    refine stamped.of_shown (alone_world upserted.rely).1 (fun x hx => ?_)
    rwa [store] at hx
  refine ⟨⟨extendAll past events, ?_⟩, upserted.stamped_view (fun inv => inv.1.2) before⟩
  rw [store, postgres.view_append]
  exact retold.upsert upserted.alone later

/-- Sessions can run the parts of the operations. -/
theorem retelling_sustains (sources : Set String) :
    Sustains retelling () (UpsertPart sources) Stmt.Beside (fun σ ws =>
      Pending σ.store ws ∧ Retelling { σ with store := postgres.view σ.store ws }) where
  stable clean rely _ := by
    have store : _ = _ := alone_store rely
    refine ⟨store ▸ clean.1, store ▸ clean.2.1, clean.2.2.of_shown (alone_world rely).1 ?_⟩
    exact fun x hx => store ▸ hx
  empty inv := ⟨Pending.nil _, inv⟩
  step here inv run := by
    have beside := exec_beside here run
    have later := exec_later run
    refine ⟨alone_guarantees (inv.withClock later), fun clean => ?_⟩
    obtain ⟨past, retold⟩ := clean.2.1
    refine ⟨clean.1.append_beside beside, ⟨past, ?_⟩, clean.2.2.of_shown later (fun x hx => ?_)⟩
    · rw [postgres.view_append]
      exact retold.view_beside beside
    · rw [postgres.view_append] at hx
      exact (mem_entries_of_mem_view hx).resolve_right (announced_of_beside beside)
  commits clean _ := alone_guarantees clean.2
  part here inv clean := by
    cases here with
    | bulk events changedBy own =>
        rename_i σ ws
        refine wp_of_assuming (K := fun φ => σ.world.Later φ.world)
          (fun now rely => now.trans (alone_world rely).1) (.refl _) ?_
        refine wp_upsertEventsBulk (P := retellingSince σ) hosts_retellingSince ?_ ⟨inv, .refl _⟩
          clean.1 (fun _ _ _ _ _ impossible => (nomatch impossible)) ?_
        · rintro φ ⟨⟨⟨past, retold⟩, -⟩, -⟩
          exact retold.histories.unique
        · exact fun p τ _ upserted _ _ =>
            ⟨upserted.pending, Retelling.upserted upserted clean.1 clean.2⟩

/-- The event turns `σ` into `τ`. An operation may end anywhere. The services may change at any
time, and the clock is not set back. -/
def SystemEvent.Happens (c : SystemConfig) (σ : State Unit) (event : SystemEvent)
    (τ : State Unit) : Prop :=
  match event with
  | operation op => ∃ φ : State Unit, φ.store = σ.store ∧ σ.world.Later φ.world ∧
      postgres.Visits () (op.run c) φ τ
  | cleanupOldPayloads now => OmniSync.cleanupOldPayloads c.settings now σ.store = .ok τ.store ∧
      σ.world.Later τ.world

theorem SystemEvent.Happens.retelling {c : SystemConfig} {event : SystemEvent} {σ τ : State Unit}
    (here : Retelling σ) (happens : SystemEvent.Happens c σ event τ) : Retelling τ := by
  cases event with
  | operation op =>
      obtain ⟨φ, store, later, run⟩ := happens
      have start : Retelling φ :=
        ⟨store ▸ here.1, here.2.of_shown later (fun x hx => store ▸ hx)⟩
      exact (op.orderly c).visits (retelling_sustains _) (fun _ _ _ => trivial) start run
  | cleanupOldPayloads now =>
      obtain ⟨cleaned, later⟩ := happens
      obtain ⟨-, same⟩ := Store.deletePayloads_eq_ok.mp cleaned
      obtain ⟨⟨past, retold⟩, stamped⟩ := here
      refine ⟨⟨past, retold.congr (by rw [same]) (by rw [same]) (fun item => by rw [same])⟩, ?_⟩
      refine stamped.of_shown later ?_
      rintro _ ⟨o, ho, rfl⟩
      rw [same] at ho
      exact ⟨o, ho, rfl⟩

/-- Whatever operations run one after the other on an empty database, each of them however far it
gets, under a clock that increases between flushes: what the feed tells of an event, without
consecutive repeats, is its recorded history. -/
theorem feed_tells_history (c : SystemConfig) {start last : State Unit} {now : Time} {gap : Nat}
    {steps : List (Taken (State Unit) SystemEvent)} (empty : start.store = ∅)
    (clock : start.world.clock = .shared now gap) (strict : 0 < gap)
    (run : Trace (SystemEvent.Happens c) start steps last) :
    ∀ e ∈ last.store.normalizedEvents,
      ((last.store.told e.id).map ChangeItem.revision).destutter (· ≠ ·) =
        (getEventHistory last.store e.id).map EventVersion.revision := by
  have begin' : Retelling start := by
    refine ⟨⟨_, empty ▸ Retold.empty⟩, now, gap, clock, strict, fun o ho => ?_⟩
    rw [empty] at ho
    exact (List.not_mem_nil ho).elim
  obtain ⟨⟨past, retold⟩, -⟩ := run.invariant begin' (fun here happens => happens.retelling here)
  intro e he
  rw [retold.told e he, (retold.histories.event e he).map_revision]

section Example

def chatSync : SystemEvent := .operation (.request .telegramSync)

/-- Two messages with one id are to be synced. -/
def twoToSync : State Unit :=
  { unpolled twoChats with world := { (unpolled twoChats).world with clock := .shared 0 1 } }

/-- Later on there is an update with the text of the second one. -/
def oneToSync (σ : State Unit) : State Unit :=
  { σ with world := { (unpolled [chatUpdate 3 200 "hello"]).world with clock := σ.world.clock } }

/-- Both requests are cut off after their commits. -/
def chatTold : Option (State Unit × State Unit) := do
  let (_, synced) ← postgres.drive (fun _ _ _ => True) () chatMoves
    (⟨(Operation.request .telegramSync).run chatConfig, []⟩, twoToSync)
  let (_, again) ← postgres.drive (fun _ _ _ => True) ()
    [.step (.text "d"), .step (.draw 31 2), .step (.items []), .step .none, .step (.draw 32 2),
      .step (.time 2), .step (.time 2), .step .none, .step (.draw 40 2), .step .none, .step .none,
      .step .none, .step (.draws [(42, 2)]), .step .none]
    (⟨(Operation.request .telegramSync).run chatConfig, []⟩, oneToSync synced)
  return (synced, again)

theorem trace_of_chatTold {σ τ : State Unit} (h : chatTold = some (σ, τ)) :
    Trace (SystemEvent.Happens chatConfig) ⟨twoToSync.world, ∅, []⟩
      [⟨⟨twoToSync.world, ∅, []⟩, chatSync, σ⟩, ⟨σ, chatSync, τ⟩] τ := by
  simp only [chatTold, Option.bind_eq_bind, Option.bind_eq_some_iff, Prod.exists, Option.pure_def,
    Option.some.injEq, Prod.mk.injEq] at h
  obtain ⟨_, synced, first, _, again, second, rfl, rfl⟩ := h
  have event : SystemEvent.Happens chatConfig ⟨twoToSync.world, ∅, []⟩ chatSync synced :=
    ⟨twoToSync, rfl, .refl _, _, Engine.solo_of_drive first⟩
  have event' : SystemEvent.Happens chatConfig synced chatSync again :=
    ⟨oneToSync synced, rfl, Clock.Le.refl _, _, Engine.solo_of_drive second⟩
  exact .concat (.concat .nil event) event'

/-- The second version is recorded once and told twice. -/
theorem feed_tells_history_chat : ∃ σ τ, chatTold = some (σ, τ) ∧
    ∃ e ∈ τ.store.normalizedEvents,
      (τ.store.told e.id).map ChangeItem.revision =
        [(1, "[chat:100] hi"), (2, "[chat:200] hello"), (2, "[chat:200] hello")] ∧
      (getEventHistory τ.store e.id).map EventVersion.revision =
        [(1, "[chat:100] hi"), (2, "[chat:200] hello")] := by
  have shape : chatTold.map (fun x => x.2.store.normalizedEvents.rows.map (fun e =>
      (x.2.store.told e.id).map ChangeItem.revision)) =
        some [[(1, "[chat:100] hi"), (2, "[chat:200] hello"), (2, "[chat:200] hello")]] := by
    decide +kernel
  obtain ⟨⟨σ, τ⟩, run, told⟩ := Option.map_eq_some_iff.mp shape
  obtain ⟨e, one, tells⟩ := List.map_eq_singleton_iff.mp told
  have member : e ∈ τ.store.normalizedEvents := by
    rw [Table.mem_def, one]
    exact List.mem_singleton.mpr rfl
  have empty : (⟨twoToSync.world, ∅, []⟩ : State Unit).store = ∅ := rfl
  have history :=
    feed_tells_history chatConfig empty rfl Nat.one_pos (trace_of_chatTold run) e member
  rw [tells] at history
  exact ⟨σ, τ, run, e, member, tells, history.symm⟩

end Example

end OmniSync
