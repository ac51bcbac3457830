import OmniSync.Events.History
import OmniSync.Integrations.Feed
import OmniSync.RawPayloads.Retention

/-!
# The version history of the whole system

Operations run one after the other, each of them however far it gets, and raw payloads are
removed in between. A property of the store that upserts keep, and that depends on the events
and their versions only, is kept by all of this: `KeptByUpserts`. So the histories of the events
only grow.
-/

namespace OmniSync

open Txn
open NormalizedEventService (getEventHistory)

/-- The property depends on the events and their versions only, and upserts that run alone
keep it. -/
structure KeptByUpserts (K : Store → Prop) : Prop where
  ids : ∀ {s}, K s → s.EventIdsUnique
  congr : ∀ {s t}, K s → t.normalizedEvents = s.normalizedEvents →
    t.eventVersions = s.eventVersions → K t
  upsert : ∀ {s events changedBy p}, K s → UpsertedAlone s events changedBy p →
    K (postgres.view s p.writes)

section Keeping

variable {K : Store → Prop}

theorem KeptByUpserts.view_beside (h : KeptByUpserts K) {s : Store} {ws : List Write} (kept : K s)
    (beside : ∀ w ∈ ws, w.Beside) : K (postgres.view s ws) :=
  h.congr kept
    (view_look Store.normalizedEvents
      (fun _ w hw => Store.put_normalizedEvents_of_beside (beside w hw)))
    (view_look Store.eventVersions (fun _ w hw => Store.put_eventVersions_of_beside (beside w hw)))

theorem keeping_sustains (h : KeptByUpserts K) (sources : Set String) :
    Sustains (keeping K) () (UpsertPart sources) Stmt.Beside (fun σ ws =>
      Pending σ.store ws ∧ K (postgres.view σ.store ws)) where
  stable clean rely _ := by
    rwa [alone_store rely]
  empty inv := ⟨Pending.nil _, inv⟩
  step here inv run := by
    have beside := exec_beside here run
    refine ⟨alone_guarantees inv, fun clean => ⟨clean.1.append_beside beside, ?_⟩⟩
    rw [postgres.view_append]
    exact h.view_beside clean.2 beside
  commits clean _ := alone_guarantees clean.2
  part here inv clean := by
    cases here with
    | bulk events changedBy _ =>
        refine wp_upsertEventsBulk hosts_keeping (fun _ kept => h.ids kept) inv clean.1
          (fun _ _ _ _ _ impossible => (nomatch impossible)) ?_
        intro p τ _ upserted _ _
        refine ⟨upserted.pending, ?_⟩
        rw [alone_store upserted.rely, postgres.view_append]
        exact h.upsert clean.2 upserted.alone

end Keeping

/-- What changes the database. -/
inductive SystemEvent where
  | operation (op : Operation)
  | cleanupOldPayloads (now : Time)

/-- The event turns the store `s` into `t`. An operation may end anywhere, and the services may
have changed since the event before. -/
def SystemEvent.Steps (c : SystemConfig) (s : Store) (event : SystemEvent) (t : Store) : Prop :=
  match event with
  | operation op => ∃ σ τ : State Unit,
      σ.store = s ∧ τ.store = t ∧ postgres.Visits () (op.run c) σ τ
  | cleanupOldPayloads now => OmniSync.cleanupOldPayloads c.settings now s = .ok t

theorem SystemEvent.Steps.keeps {K : Store → Prop} (h : KeptByUpserts K) {c : SystemConfig}
    {event : SystemEvent} {s t : Store} (kept : K s) (happens : SystemEvent.Steps c s event t) :
    K t := by
  cases event with
  | operation op =>
      obtain ⟨σ, τ, rfl, rfl, run⟩ := happens
      exact (op.orderly c).visits (keeping_sustains h _) (fun _ _ _ => trivial) kept run
  | cleanupOldPayloads now =>
      obtain ⟨-, rfl⟩ := Store.deletePayloads_eq_ok.mp happens
      exact h.congr kept rfl rfl

section Chronicle

variable {s t : Store} {past : String × String → List String}

theorem extend_isChain {past : List String} (h : past.IsChain (· ≠ ·)) (content : String) :
    (extend past content).IsChain (· ≠ ·) := by
  unfold extend
  split
  · exact h
  · rename_i different
    refine h.append (List.IsChain.singleton _) ?_
    rintro last hl _ hc rfl
    cases hc
    exact different hl

theorem extendAll_isChain (h : ∀ k, (past k).IsChain (· ≠ ·))
    (events : List NormalizedEventCreate) (k : String × String) :
    (extendAll past events k).IsChain (· ≠ ·) := by
  unfold extendAll
  cases submittedIn events k with
  | none => exact h k
  | some content => exact extend_isChain (h k) content

theorem Histories.congr (h : Histories s past) (events : t.normalizedEvents = s.normalizedEvents)
    (versions : t.eventVersions = s.eventVersions) : Histories t past where
  unique := by
    unfold Store.EventIdsUnique
    rw [events]
    exact h.unique
  event e he := by
    rw [events] at he
    have old := h.event e he
    refine ⟨old.length, old.last, fun n c => ?_⟩
    unfold HistoryRow
    rw [versions]
    exact old.rows n c
  absent k := by
    rw [events]
    exact h.absent k
  owned := by
    rw [events, versions]
    exact h.owned

/-- The history of `s` goes on in `t`: nothing of it has been lost, and no two consecutive
versions have one content. -/
structure GoesOn (s t : Store) : Prop where
  histories : ∃ past, Histories t past ∧ ∀ k, (past k).IsChain (· ≠ ·)
  versions : ∀ v ∈ s.eventVersions, v ∈ t.eventVersions
  events : ∀ e ∈ s.normalizedEvents, ∃ e' ∈ t.normalizedEvents, e'.key = e.key ∧ e'.id = e.id

theorem goesOn_keptByUpserts (s : Store) : KeptByUpserts (GoesOn s) where
  ids h := by
    obtain ⟨past, histories, -⟩ := h.histories
    exact histories.unique
  congr h events versions := by
    obtain ⟨past, histories, changes⟩ := h.histories
    refine ⟨⟨past, histories.congr events versions, changes⟩, ?_, ?_⟩
    · rw [versions]
      exact h.versions
    · rw [events]
      exact h.events
  upsert h upserted := by
    obtain ⟨past, histories, changes⟩ := h.histories
    refine ⟨⟨_, histories.step upserted, extendAll_isChain changes _⟩, ?_, fun e he => ?_⟩
    · exact fun v hv => mem_view_eventVersions (h.versions v hv)
    · obtain ⟨e', he', key, id⟩ := h.events e he
      obtain ⟨y, hy, key', id'⟩ := upserted.pending.exists_mem_view he'
      exact ⟨y, hy, key'.trans key, id'.trans id⟩

theorem goesOn_empty : GoesOn ∅ ∅ :=
  ⟨⟨_, Histories.empty, fun _ => .nil⟩, fun _ hv => hv, fun _ he => (List.not_mem_nil he).elim⟩

theorem GoesOn.restart (h : GoesOn s t) : GoesOn t t :=
  ⟨h.histories, fun _ hv => hv, fun e he => ⟨e, he, rfl, rfl⟩⟩

/-- Lists that are numbered from one position on, the first within the second. -/
theorem prefix_of_numbered {α : Type} {f : α → Nat} {xs ys : List α} {start n m : Nat}
    (hx : xs.map f = List.range' start n) (hy : ys.map f = List.range' start m)
    (within : ∀ x ∈ xs, x ∈ ys) : xs <+: ys := by
  have number : ∀ {zs : List α} {l : Nat}, zs.map f = List.range' start l →
      ∀ i (hi : i < zs.length), f zs[i] = start + i := by
    intro zs l numbered i hi
    have at' := congrArg (fun l => l[i]?) numbered
    have bound : i < l := by
      have := congrArg List.length numbered
      rw [List.length_map, List.length_range'] at this
      omega
    simp only [List.getElem?_map, List.getElem?_eq_getElem hi, Option.map_some,
      List.getElem?_range' bound, Option.some.injEq, Nat.one_mul] at at'
    exact at'
  have same : ∀ i (hi : i < xs.length), ∃ hj : i < ys.length, xs[i] = ys[i] := by
    intro i hi
    obtain ⟨j, hj, eq⟩ := List.getElem_of_mem (within _ (List.getElem_mem hi))
    have there := number hy j hj
    rw [eq, number hx i hi] at there
    obtain rfl : i = j := by omega
    exact ⟨hj, eq.symm⟩
  refine List.prefix_iff_getElem.mpr ⟨?_, fun i hi => (same i hi).2⟩
  by_contra longer
  obtain ⟨impossible, -⟩ := same ys.length (by omega)
  omega

/-- What is known of an event at any time: its versions are recorded without gaps, each of them
has changed the content, and the last one is current. -/
structure Chronicled (s : Store) (e : NormalizedEvent) : Prop where
  versions : (getEventHistory s e.id).map EventVersion.version = List.range' 1 e.version
  changes : ((getEventHistory s e.id).map EventVersion.content).IsChain (· ≠ ·)
  current : ((getEventHistory s e.id).map EventVersion.content).getLast? = some e.content

theorem GoesOn.chronicled (h : GoesOn s t) {e : NormalizedEvent} (he : e ∈ t.normalizedEvents) :
    Chronicled t e := by
  obtain ⟨past, histories, changes⟩ := h.histories
  have history := histories.event e he
  refine ⟨history.versions, ?_, ?_⟩
  · rw [history.contents]
    exact changes e.key
  · rw [history.contents]
    exact history.last

end Chronicle

/-- Whatever operations have run one after the other on an empty database, each of them however
far it has got: the versions of every event are recorded without gaps, each with a new content
and the last one with the current content. Whatever runs afterwards only extends this record,
and no event is lost or takes another identity. -/
theorem event_histories_grow (c : SystemConfig) {s t : Store}
    {steps steps' : List (Taken Store SystemEvent)}
    (before : Trace (SystemEvent.Steps c) ∅ steps s)
    (after : Trace (SystemEvent.Steps c) s steps' t) :
    (∀ e ∈ t.normalizedEvents, Chronicled t e) ∧
      ∀ e ∈ s.normalizedEvents, ∃ e' ∈ t.normalizedEvents, e'.key = e.key ∧ e'.id = e.id ∧
        getEventHistory s e.id <+: getEventHistory t e.id := by
  have first : GoesOn ∅ s := before.invariant goesOn_empty
    (fun kept happens => SystemEvent.Steps.keeps (goesOn_keptByUpserts ∅) kept happens)
  have rest : GoesOn s t := after.invariant first.restart
    (fun kept happens => SystemEvent.Steps.keeps (goesOn_keptByUpserts s) kept happens)
  refine ⟨fun e he => rest.chronicled he, fun e he => ?_⟩
  obtain ⟨e', he', key, id⟩ := rest.events e he
  refine ⟨e', he', key, id, prefix_of_numbered (first.chronicled he).versions
    (id ▸ (rest.chronicled he').versions) (fun v hv => ?_)⟩
  obtain ⟨stored, owner⟩ := mem_getEventHistory.mp hv
  exact mem_getEventHistory.mpr ⟨rest.versions v stored, owner⟩

section Example

/-- Two messages with one id are synced, and the request is cut off after its commit. Later on
there is a third one. -/
def chatStores : Option (Store × Store) := do
  let (_, synced) ← postgres.drive (fun _ _ _ => True) () chatMoves
    (⟨(Operation.request .telegramSync).run chatConfig, []⟩, unpolled twoChats)
  let (_, again) ← postgres.drive (fun _ _ _ => True) ()
    ([.step (.text "d"), .step (.draw 31 0), .step (.items []), .step .none, .step (.draw 32 0),
      .step (.time 0)] ++ changeScript 40)
    (⟨(Operation.request .telegramSync).run chatConfig, []⟩,
      ⟨(unpolled [chatUpdate 3 100 "bye"]).world, synced.store, []⟩)
  return (synced.store, again.store)

theorem trace_of_chatStores {s t : Store} (h : chatStores = some (s, t)) :
    (∃ steps, Trace (SystemEvent.Steps chatConfig) ∅ steps s) ∧
      ∃ steps, Trace (SystemEvent.Steps chatConfig) s steps t := by
  simp only [chatStores, Option.bind_eq_bind, Option.bind_eq_some_iff, Prod.exists,
    Option.pure_def, Option.some.injEq, Prod.mk.injEq] at h
  obtain ⟨_, synced, first, _, again, second, rfl, rfl⟩ := h
  have event : SystemEvent.Steps chatConfig ∅ (.operation (.request .telegramSync)) synced.store :=
    ⟨unpolled twoChats, synced, rfl, rfl, _, Engine.solo_of_drive first⟩
  have event' : SystemEvent.Steps chatConfig synced.store (.operation (.request .telegramSync))
      again.store :=
    ⟨⟨(unpolled [chatUpdate 3 100 "bye"]).world, synced.store, []⟩, again, rfl, rfl, _,
      Engine.solo_of_drive second⟩
  exact ⟨⟨_, .concat .nil event⟩, _, .concat .nil event'⟩

/-- The history of a message grows from two versions to three. -/
theorem event_histories_grow_chat : ∃ s t, chatStores = some (s, t) ∧
    ∃ e ∈ s.normalizedEvents, e.version = 2 ∧
      getEventHistory s e.id <+: getEventHistory t e.id ∧
        ∃ e' ∈ t.normalizedEvents, e'.id = e.id ∧ e'.version = 3 ∧
          (getEventHistory t e'.id).map EventVersion.version = [1, 2, 3] := by
  have shape : chatStores.map (fun x => (x.1.normalizedEvents.rows.map NormalizedEvent.version,
      x.2.normalizedEvents.rows.map NormalizedEvent.version)) = some ([2], [3]) := by
    decide +kernel
  obtain ⟨⟨s, t⟩, run, versions⟩ := Option.map_eq_some_iff.mp shape
  obtain ⟨two, three⟩ := Prod.mk.inj versions
  obtain ⟨e, one, version⟩ := List.map_eq_singleton_iff.mp two
  obtain ⟨e', one', version'⟩ := List.map_eq_singleton_iff.mp three
  obtain ⟨⟨_, before⟩, _, after⟩ := trace_of_chatStores run
  obtain ⟨all, grown⟩ := event_histories_grow chatConfig before after
  have member : e ∈ s.normalizedEvents := by
    rw [Table.mem_def, one]
    exact List.mem_singleton.mpr rfl
  obtain ⟨e'', he'', -, id, extended⟩ := grown e member
  obtain rfl : e'' = e' := by
    rw [Table.mem_def, one'] at he''
    exact List.mem_singleton.mp he''
  refine ⟨s, t, run, e, member, version, extended, e'', he'', id, version', ?_⟩
  have numbered := (all e'' he'').versions
  rw [version'] at numbered
  exact numbered

end Example

end OmniSync
