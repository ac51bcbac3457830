import OmniSync.Agent.Feed
import OmniSync.Data.Keyset

/-!
# Paging through a feed that grows at its end

As long as rows become visible in the order of their positions, what a consumer has
received is a segment of the feed: it starts right after the position at which the
consumer began, and it ends where the feed after its cursor starts. The same holds for
the stream, which reads the feed in rounds and moves its cursor row by row.
-/

namespace OmniSync

open Txn

variable {ι α : Type}

/-- The items of the feed after a position, in feed order. -/
def Store.feed (s : Store) (after : Option (Time × Uuid)) : List ChangeItem :=
  (s.changes after).map ChangeItem.modelValidate

/-- From `s` to `t`, rows have become visible beyond all rows that were visible. -/
def Appends (s t : Store) : Prop :=
  ∀ o ∈ t.outboxEvents.rows, (∃ o' ∈ s.outboxEvents.rows, o'.id = o.id) ∨
    ∀ o' ∈ s.outboxEvents.rows, o'.position < o.position

instance (s t : Store) : Decidable (Appends s t) :=
  inferInstanceAs (Decidable (∀ o ∈ t.outboxEvents.rows,
    (∃ o' ∈ s.outboxEvents.rows, o'.id = o.id) ∨
      ∀ o' ∈ s.outboxEvents.rows, o'.position < o.position))

/-- Every item of `s` is an item of `t`. -/
def ItemsKept (s t : Store) : Prop :=
  ∀ o ∈ s.outboxEvents, ∃ o' ∈ t.outboxEvents,
    ChangeItem.modelValidate o' = ChangeItem.modelValidate o

section Feed

variable {s t : Store} {after : Option (Time × Uuid)} {item : ChangeItem}

theorem past_position {k : Time ×ₗ Uuid} :
    Keyset.Past (after.map toLex) k ↔ ∀ p ∈ after, toLex p < k := by
  cases after <;> simp

theorem mem_feed : item ∈ s.feed after ↔
    (∃ o ∈ s.outboxEvents, ChangeItem.modelValidate o = item) ∧
      Keyset.Past (after.map toLex) item.position := by
  simp only [Store.feed, List.mem_map, mem_changes, past_position]
  constructor
  · rintro ⟨o, ⟨ho, past⟩, rfl⟩
    exact ⟨⟨o, ho, rfl⟩, past⟩
  · rintro ⟨⟨o, ho, rfl⟩, past⟩
    exact ⟨o, ⟨ho, past⟩, rfl⟩

theorem feed_ascending (s : Store) (after : Option (Time × Uuid)) :
    Keyset.Ascending ChangeItem.position (s.feed after) :=
  List.pairwise_map.mpr ((changes_pairwise s after).imp id)

theorem ItemsKept.feed (kept : ItemsKept s t) (h : item ∈ s.feed after) : item ∈ t.feed after := by
  obtain ⟨⟨o, ho, rfl⟩, past⟩ := mem_feed.mp h
  obtain ⟨o', ho', same⟩ := kept o ho
  exact mem_feed.mpr ⟨⟨o', ho', same⟩, past⟩

/-- Rows that become visible at the end extend the feed after any position. -/
theorem Appends.feed_isPrefix (appends : Appends s t) (kept : ItemsKept s t)
    (after : Option (Time × Uuid)) : s.feed after <+: t.feed after := by
  refine (feed_ascending s after).isPrefix (feed_ascending t after) ?_ ?_
  · exact fun item hi => kept.feed hi
  · intro item hi
    obtain ⟨⟨o, ho, rfl⟩, past⟩ := mem_feed.mp hi
    rcases appends o ho with ⟨o', old, id⟩ | new
    · obtain ⟨o'', ho'', same⟩ := kept o' old
      have own : o'' = o := Table.eq_of_key_eq ho'' ho ((congrArg ChangeItem.id same).trans id)
      exact .inl (mem_feed.mpr ⟨⟨o', old, own ▸ same.symm⟩, past⟩)
    · refine .inr (fun y hy => ?_)
      obtain ⟨⟨o', ho', rfl⟩, _⟩ := mem_feed.mp hy
      exact new o' ho'

/-- What comes after the first `n` items of a segment of the feed. -/
theorem feed_next (s : Store) (after : Option (Time × Uuid)) (n : Nat) :
    s.feed ((((s.feed after).take n).getLast?.map (fun item => (item.createdAt, item.id))).or after) =
      (s.feed after).drop n := by
  have ascending := feed_ascending s after
  have beyond : ∀ x ∈ s.feed after, Keyset.Past (after.map toLex) x.position :=
    fun x hx => (mem_feed.mp hx).2
  have cursor : ((((s.feed after).take n).getLast?.map
      (fun item => (item.createdAt, item.id))).or after).map toLex =
        Keyset.next ChangeItem.position (after.map toLex) ((s.feed after).take n) := by
    unfold Keyset.next
    cases ((s.feed after).take n).getLast? <;> rfl
  refine (feed_ascending s _).eq_of_mem_iff (ascending.sublist (List.drop_sublist n _)) ?_
  intro x
  rw [mem_feed, cursor]
  constructor
  · rintro ⟨known, past⟩
    have here : x ∈ s.feed after := mem_feed.mpr ⟨known,
      ((Keyset.past_next (ascending.sublist (List.take_sublist n _))
        (fun y hy => beyond y (List.mem_of_mem_take hy))).mp past).1⟩
    exact (Keyset.past_next_iff_mem_drop ascending beyond here).mp past
  · intro hx
    have here := List.mem_of_mem_drop hx
    exact ⟨(mem_feed.mp here).1, (Keyset.past_next_iff_mem_drop ascending beyond here).mpr hx⟩

end Feed

/-- What was received since the position `start` is the segment of the feed between
`start` and the cursor. -/
structure Paged (s : Store) (start cursor : Option (Time × Uuid)) (received : List ChangeItem) :
    Prop where
  split : s.feed start = received ++ s.feed cursor
  reached : (cursor = start ∧ received = []) ∨
    ∃ item ∈ received, cursor = some (item.createdAt, item.id)

namespace Paged

variable {s t : Store} {start cursor : Option (Time × Uuid)} {received : List ChangeItem}

theorem initial (s : Store) (start : Option (Time × Uuid)) : Paged s start start [] :=
  ⟨rfl, .inl ⟨rfl, rfl⟩⟩

/-- The next `n` items are received. -/
theorem receive (h : Paged s start cursor received) (n : Nat) :
    Paged s start ((((s.feed cursor).take n).getLast?.map
        (fun item => (item.createdAt, item.id))).or cursor)
      (received ++ (s.feed cursor).take n) := by
  constructor
  · rw [feed_next, List.append_assoc, List.take_append_drop]
    exact h.split
  · cases end' : ((s.feed cursor).take n).getLast? with
    | none =>
        rw [List.getLast?_eq_none_iff] at end'
        simpa [end'] using h.reached
    | some last =>
        refine .inr ⟨last, List.mem_append_right _ (List.mem_of_getLast? end'), rfl⟩

/-- What is past the cursor is past the start. -/
theorem past_start (h : Paged s start cursor received) {k : Time ×ₗ Uuid}
    (past : Keyset.Past (cursor.map toLex) k) : Keyset.Past (start.map toLex) k := by
  rcases h.reached with ⟨rfl, _⟩ | ⟨item, hi, rfl⟩
  · exact past
  · have member : item ∈ s.feed start := by
      rw [h.split]
      exact List.mem_append_left _ hi
    exact (mem_feed.mp member).2.trans_lt (Keyset.past_some.mp past)

/-- The feed grows beyond the cursor. -/
theorem extend (h : Paged s start cursor received) (kept : ItemsKept s t)
    (added : ∀ x ∈ t.feed start, x ∈ s.feed start ∨ Keyset.Past (cursor.map toLex) x.position) :
    Paged t start cursor received := by
  refine ⟨?_, h.reached⟩
  have parts := h.split ▸ feed_ascending s start
  obtain ⟨first, _, across⟩ := List.pairwise_append.mp parts
  have known : ∀ x ∈ received, x ∈ s.feed start := by
    intro x hx
    rw [h.split]
    exact List.mem_append_left _ hx
  have sorted : Keyset.Ascending ChangeItem.position (received ++ t.feed cursor) := by
    refine List.pairwise_append.mpr ⟨first, feed_ascending t cursor, ?_⟩
    intro a ha b hb
    -- An item that was received is not after the cursor.
    refine lt_of_not_ge (fun ge => ?_)
    have past : Keyset.Past (cursor.map toLex) a.position := by
      intro c hc
      exact ((mem_feed.mp hb).2 c hc).trans_le ge
    have again : a ∈ s.feed cursor := mem_feed.mpr ⟨(mem_feed.mp (known a ha)).1, past⟩
    exact lt_irrefl _ (across a ha a again)
  refine (feed_ascending t start).eq_of_mem_iff sorted (fun x => ?_)
  rw [List.mem_append]
  constructor
  · intro hx
    rcases added x hx with old | past
    · rw [h.split, List.mem_append] at old
      exact old.imp id (fun later => kept.feed later)
    · exact .inr (mem_feed.mpr ⟨(mem_feed.mp hx).1, past⟩)
  · rintro (old | later)
    · exact kept.feed (known x old)
    · exact mem_feed.mpr ⟨(mem_feed.mp later).1, h.past_start (mem_feed.mp later).2⟩

/-- The feed grows at its end. -/
theorem append (h : Paged s start cursor received) (appends : Appends s t)
    (kept : ItemsKept s t) : Paged t start cursor received := by
  refine h.extend kept (fun x hx => or_iff_not_imp_left.mpr (fun new => ?_))
  rcases h.reached with ⟨rfl, _⟩ | ⟨item, hi, rfl⟩
  · exact (mem_feed.mp hx).2
  · have member : item ∈ s.feed start := by
      rw [h.split]
      exact List.mem_append_left _ hi
    obtain ⟨later, grown⟩ := appends.feed_isPrefix kept start
    rw [← grown, List.mem_append] at hx
    have parts := grown ▸ feed_ascending t start
    exact Keyset.past_some.mpr ((List.pairwise_append.mp parts).2.2 item member x
      (hx.resolve_left new))

end Paged

section Runs

variable [Fintype ι] [DecidableEq ι]

/-- Writers, the polls of one consumer and the steps of one stream interleave. Both
readers begin at the position `start`, and rows become visible in the order of their
positions. -/
inductive PagingRun (start : Option (Time × Uuid))
    (before : Cluster Answer Exn Store Write World ι α) :
    Cluster Answer Exn Store Write World ι α → Consumer → EventGenerator → Prop where
  | start : PagingRun start before before { cursor := start } { after := start }
  | write {st next : Cluster Answer Exn Store Write World ι α} {c : Consumer}
      {g : EventGenerator} {i : ι} {m : Move Exn Choice} : PagingRun start before st c g →
        st.act postgres i m = some next → Appends st.shared.store next.shared.store →
          PagingRun start before next c g
  | poll {st : Cluster Answer Exn Store Write World ι α} {c : Consumer} {g : EventGenerator}
      {i : ι} {limit : Nat} {r : ChangeFeedResponse} {τ : State ι} :
        PagingRun start before st c g → 1 ≤ limit → limit ≤ 500 →
          postgres.Completes i (pollChanges c.cursor limit) st.shared r τ →
            PagingRun start before st (c.receive r) g
  | fetch {st : Cluster Answer Exn Store Write World ι α} {c : Consumer} {g : EventGenerator}
      {i : ι} {rows : List OutboxEvent} {τ : State ι} : PagingRun start before st c g →
        g.rows = [] → postgres.Completes i g.fetch st.shared rows τ →
          PagingRun start before st c { g with rows := rows }
  | send {st : Cluster Answer Exn Store Write World ι α} {c : Consumer} {g : EventGenerator}
      {row : OutboxEvent} {rest : List OutboxEvent} : PagingRun start before st c g →
        g.rows = row :: rest → PagingRun start before st c (g.send row rest)

theorem itemsKept_of_act {st next : Cluster Answer Exn Store Write World ι α} {i : ι}
    {m : Move Exn Choice} (step : st.act postgres i m = some next) :
    ItemsKept st.shared.store next.shared.store := by
  obtain ⟨session, shared, advanced, rfl⟩ := Cluster.act_eq_some_iff.mp step
  intro o ho
  rcases Engine.advance_shared advanced with ⟨store, _⟩ | ⟨_, rfl⟩
  · exact ⟨o, store ▸ ho, rfl⟩
  · exact exists_mem_view_outboxEvents ChangeItem.modelValidate (fun _ _ => rfl) _ ho

/-- A page consists of the next items, and its cursor is the position of the last one. -/
theorem page_eq_take (s : Store) (cursor : Option (Time × Uuid)) (limit : Nat) :
    (s.page cursor limit).items = (s.feed cursor).take limit ∧
      (s.page cursor limit).nextCursor = (((s.feed cursor).take limit).getLast?.map
        (fun item => (item.createdAt, item.id))).or cursor := by
  have items := @page_items s { cursor := cursor } limit
  have next := @page_nextCursor s { cursor := cursor } limit
  rw [List.map_take] at items
  refine ⟨items, next.trans ?_⟩
  rw [Store.feed, ← List.map_take, List.getLast?_map, Option.map_map]
  rfl

theorem page_hasMore (s : Store) (cursor : Option (Time × Uuid)) (limit : Nat) :
    (s.page cursor limit).hasMore = true ↔ limit < (s.feed cursor).length := by
  simp only [Store.page, ChangeFeedResponse.ofRows, Store.feed, List.length_map,
    List.length_take, decide_eq_true_eq]
  omega

/-- The invariant of both readers. -/
structure Reading (s : Store) (start : Option (Time × Uuid)) (c : Consumer) (g : EventGenerator) :
    Prop where
  polled : Paged s start c.cursor c.received
  streamed : Paged s start g.after g.sent
  rows : g.rows.map ChangeItem.modelValidate <+: s.feed g.after

theorem Reading.send {s : Store} {start : Option (Time × Uuid)} {c : Consumer}
    {g : EventGenerator} {row : OutboxEvent} {rest : List OutboxEvent}
    (h : Reading s start c g) (head : g.rows = row :: rest) :
    Reading s start c (g.send row rest) := by
  obtain ⟨later, feed⟩ := h.rows
  rw [head, List.map_cons, List.cons_append] at feed
  have one : (s.feed g.after).take 1 = [ChangeItem.modelValidate row] := by
    rw [← feed]
    rfl
  have streamed := h.streamed.receive 1
  have after := feed_next s g.after 1
  rw [one] at streamed after
  refine ⟨h.polled, streamed, ?_⟩
  change rest.map ChangeItem.modelValidate <+: s.feed (some (row.createdAt, row.id))
  refine ⟨later, Eq.trans ?_ after.symm⟩
  rw [← feed]
  rfl

theorem PagingRun.reading {start : Option (Time × Uuid)}
    {before st : Cluster Answer Exn Store Write World ι α} {c : Consumer} {g : EventGenerator}
    (run : PagingRun start before st c g) : Reading st.shared.store start c g := by
  induction run with
  | start => exact ⟨.initial _ _, .initial _ _, List.nil_prefix⟩
  | write _ step appends ih =>
      have kept := itemsKept_of_act step
      exact ⟨ih.polled.append appends kept, ih.streamed.append appends kept,
        ih.rows.trans (appends.feed_isPrefix kept _)⟩
  | @poll st c g i limit r τ _ _ _ completes ih =>
      obtain ⟨items, next⟩ := page_eq_take st.shared.store c.cursor limit
      have received := ih.polled.receive limit
      rw [pollChanges_completes completes]
      refine ⟨?_, ih.streamed, ih.rows⟩
      rw [Consumer.receive, items, next]
      exact received
  | @fetch st c g i rows τ _ _ completes ih =>
      refine ⟨ih.polled, ih.streamed, ?_⟩
      rw [fetch_completes completes, List.map_take]
      exact List.take_prefix _ _
  | send _ head ih => exact ih.send head

/-- What the polls have returned is the segment of the feed right after the starting
position, and so is what the stream has sent; `has_more` of any poll tells whether there
were rows beyond the returned ones. -/
theorem paging_contiguous {start : Option (Time × Uuid)} {shared : State ι} {progs : ι → Tx α}
    {st : Cluster Answer Exn Store Write World ι α} {c : Consumer} {g : EventGenerator}
    (run : PagingRun start (Cluster.start shared progs) st c g) :
    st.shared.store.feed start = c.received ++ st.shared.store.feed c.cursor ∧
      st.shared.store.feed start = g.sent ++ st.shared.store.feed g.after ∧
      (c.received <+: g.sent ∨ g.sent <+: c.received) ∧
      (c.received.map ChangeItem.id).Nodup ∧
      c.received.Pairwise (fun a b => a.position < b.position) ∧
      ∀ (i : ι) (limit : Nat) (r : ChangeFeedResponse) (τ : State ι),
        postgres.Completes i (pollChanges c.cursor limit) st.shared r τ →
          (r.hasMore = true ↔ (st.shared.store.feed c.cursor).drop r.items.length ≠ []) := by
  obtain ⟨⟨polled, _⟩, ⟨streamed, _⟩, _⟩ := run.reading
  have ascending : c.received.Pairwise (fun a b => a.position < b.position) :=
    (List.pairwise_append.mp (polled ▸ feed_ascending st.shared.store start)).1
  refine ⟨polled, streamed, ?_, ?_, ascending, ?_⟩
  · exact List.prefix_or_prefix_of_prefix ⟨_, polled.symm⟩ ⟨_, streamed.symm⟩
  · refine List.pairwise_map.mpr (ascending.imp_of_mem ?_)
    intro a b ha hb lt same
    have known : ∀ x ∈ c.received, ∃ o ∈ st.shared.store.outboxEvents,
        ChangeItem.modelValidate o = x := by
      intro x hx
      have member : x ∈ st.shared.store.feed start := by
        rw [polled]
        exact List.mem_append_left _ hx
      exact (mem_feed.mp member).1
    obtain ⟨o, ho, rfl⟩ := known a ha
    obtain ⟨o', ho', rfl⟩ := known b hb
    rw [Table.eq_of_key_eq ho ho' same] at lt
    exact lt_irrefl _ lt
  · intro i limit r τ completes
    rw [pollChanges_completes completes, (page_eq_take _ _ _).1, page_hasMore, List.length_take,
      ne_eq, List.drop_eq_nil_iff]
    omega

/-- The successive moves of writers, each of which lets rows become visible at the end. -/
def playAppending : Cluster Answer Exn Store Write World ι α → List (ι × Move Exn Choice) →
    Option (Cluster Answer Exn Store Write World ι α)
  | st, [] => some st
  | st, (i, m) :: schedule =>
      (st.act postgres i m).bind (fun next =>
        if Appends st.shared.store next.shared.store then playAppending next schedule else none)

theorem PagingRun.writes {start : Option (Time × Uuid)}
    {before st next : Cluster Answer Exn Store Write World ι α} {c : Consumer}
    {g : EventGenerator} {schedule : List (ι × Move Exn Choice)}
    (run : PagingRun start before st c g) (h : playAppending st schedule = some next) :
    PagingRun start before next c g := by
  induction schedule generalizing st with
  | nil =>
      cases h
      exact run
  | cons move schedule ih =>
      obtain ⟨i, m⟩ := move
      obtain ⟨mid, step, rest⟩ := Option.bind_eq_some_iff.mp h
      split at rest
      · rename_i appends
        exact ih (run.write step appends) rest
      · cases rest

end Runs

/-- A writer of two commits. -/
def twoCommits : Cluster Answer Exn Store Write World Unit (List NormalizedEvent) :=
  Cluster.start ⟨{}, ∅, []⟩ (fun _ => upsertTransaction
    [sampleCommit "a", { sampleCommit "b" with externalId := "def456" }] none)

/-- The moves of the writer. -/
def twoCommitsScript : List (Unit × Move Exn Choice) :=
  [.step (.time 0), .step .none, .step (.draw 10 0), .step (.draw 20 0), .step .none, .step .none,
    .step .none, .step .none, .step (.draw 11 0), .step .none, .step (.draw 21 0),
    .step (.draws [(12, 0), (22, 1)]), .step .none].map (Prod.mk ())

/-- Two polls with limit 1, and a round of the stream that is cut off after one row. -/
def twoPolls : Option (Cluster Answer Exn Store Write World Unit (List NormalizedEvent) ×
    Consumer × EventGenerator) := do
  let st ← playAppending twoCommits twoCommitsScript
  let (first, _) ← postgres.outcome () [.step .none] (pollChanges none 1) st.shared
  let c := Consumer.receive { cursor := none } first
  let (second, _) ← postgres.outcome () [.step .none] (pollChanges c.cursor 1) st.shared
  let (rows, _) ← postgres.outcome () [.step .none] (EventGenerator.fetch { after := none })
    st.shared
  match rows with
  | row :: rest => return (st, c.receive second, EventGenerator.send { rows := rows } row rest)
  | [] => none

theorem pagingRun_of_twoPolls
    {st : Cluster Answer Exn Store Write World Unit (List NormalizedEvent)} {c : Consumer}
    {g : EventGenerator} (h : twoPolls = some (st, c, g)) : PagingRun none twoCommits st c g := by
  simp only [twoPolls, Option.bind_eq_bind, Option.bind_eq_some_iff, Prod.exists] at h
  obtain ⟨st, writes, first, τ, polled, second, τ', polled', rows, τ'', fetched, h⟩ := h
  have run := ((PagingRun.start.writes writes).poll (by decide) (by decide)
    (Engine.completes_of_outcome polled)).poll (by decide) (by decide)
      (Engine.completes_of_outcome polled')
  have fetching := run.fetch rfl (Engine.completes_of_outcome fetched)
  cases rows with
  | nil => cases h
  | cons row rest =>
      cases h
      exact fetching.send rfl

/-- Both commits have been polled, and the stream has sent the first one. -/
theorem paging_contiguous_two : ∃ st c g, PagingRun none twoCommits st c g ∧
    c.received.map ChangeItem.id = [12, 22] ∧ g.sent.map ChangeItem.id = [12] ∧
      st.shared.store.feed none = c.received ++ st.shared.store.feed c.cursor ∧
      (c.received <+: g.sent ∨ g.sent <+: c.received) := by
  have shape : twoPolls.map (fun x => (x.2.1.received.map ChangeItem.id,
      x.2.2.sent.map ChangeItem.id)) = some ([12, 22], [12]) := by decide +kernel
  obtain ⟨⟨st, c, g⟩, run, ids⟩ := Option.map_eq_some_iff.mp shape
  rw [Prod.mk.injEq] at ids
  have reached := pagingRun_of_twoPolls run
  obtain ⟨segment, _, comparable, _⟩ := paging_contiguous reached
  exact ⟨st, c, g, reached, ids.1, ids.2, segment, comparable⟩

end OmniSync
