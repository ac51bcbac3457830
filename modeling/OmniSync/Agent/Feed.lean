import OmniSync.Agent.Router
import OmniSync.Events.Transaction

/-!
# Following the change feed

One consumer polls the feed while any programs write to the database. It sends back
the cursor that it has received and keeps all items. A page of the feed is a segment
of it, so a poll never skips a committed row; a row that is committed at or below the
cursor is never seen again. `feed_delivers` says that this is the only way to miss a
row, and `feed_skips` that it happens: the stamp of a row is taken before its commit.
-/

namespace OmniSync

open Txn

variable {ι α : Type}

/-- A consumer of the feed: its cursor, and what it has received. -/
structure Consumer where
  cursor : Option (Time × Uuid) := none
  received : List ChangeItem := []

/-- The consumer keeps the items and the next cursor of a response. -/
def Consumer.receive (c : Consumer) (r : ChangeFeedResponse) : Consumer :=
  { cursor := r.nextCursor, received := c.received ++ r.items }

/-- The cursor has reached a position. -/
def Reaches (cursor : Option (Time × Uuid)) (p : Time ×ₗ Uuid) : Prop :=
  ∃ c ∈ cursor, p ≤ toLex c

/-- What a session is about to commit lies beyond the cursor. -/
def Beyond (st : Cluster Answer Exn Store Write World ι α) (c : Consumer) (i : ι) : Prop :=
  ∀ next, (st.sessions i).prog = .commit next →
    ∀ o, .addOutbox o ∈ (st.sessions i).writes → ¬ Reaches c.cursor o.position

/-- Before the first poll, everything lies beyond the cursor. -/
theorem Beyond.start (st : Cluster Answer Exn Store Write World ι α) (i : ι) : Beyond st {} i := by
  rintro k _ o _ ⟨_, impossible, _⟩
  cases impossible

section Runs

variable [Fintype ι] [DecidableEq ι]

/-- Writers and the polls of one consumer interleave. Every step of a writer meets
`admits`. -/
inductive FeedRun (admits : Cluster Answer Exn Store Write World ι α → Consumer → ι → Prop)
    (start : Cluster Answer Exn Store Write World ι α) :
    Cluster Answer Exn Store Write World ι α → Consumer → Prop where
  | start : FeedRun admits start start {}
  | write {st next : Cluster Answer Exn Store Write World ι α} {c : Consumer} {i : ι}
      {m : Move Exn Choice} : FeedRun admits start st c → admits st c i →
        st.act postgres i m = some next → FeedRun admits start next c
  | poll {st : Cluster Answer Exn Store Write World ι α} {c : Consumer} {i : ι} {limit : Nat}
      {r : ChangeFeedResponse} {τ : State ι} : FeedRun admits start st c →
        1 ≤ limit → limit ≤ 500 →
          postgres.Completes i (pollChanges c.cursor limit) st.shared r τ →
            FeedRun admits start st (c.receive r)

end Runs

/-- Every committed row that the cursor has reached was returned exactly once. -/
def Delivered (s : Store) (c : Consumer) : Prop :=
  ∀ o ∈ s.outboxEvents, Reaches c.cursor o.position → (c.received.map ChangeItem.id).count o.id = 1

/-- The position of an item. -/
def ChangeItem.position (item : ChangeItem) : Time ×ₗ Uuid := toLex (item.createdAt, item.id)

@[simp] theorem ChangeItem.modelValidate_position (o : OutboxEvent) :
    (ChangeItem.modelValidate o).position = o.position := rfl

@[simp] theorem ChangeItem.modelValidate_id (o : OutboxEvent) :
    (ChangeItem.modelValidate o).id = o.id := rfl

/-- The invariant of a consumer that has missed nothing. -/
structure Following (s : Store) (c : Consumer) : Prop where
  once : (c.received.map ChangeItem.id).Nodup
  seen : ∀ item ∈ c.received, Reaches c.cursor item.position ∧
    ∃ o ∈ s.outboxEvents, o.position = item.position
  complete : ∀ o ∈ s.outboxEvents, Reaches c.cursor o.position →
    o.id ∈ c.received.map ChangeItem.id

theorem Following.start (s : Store) : Following s {} where
  once := List.nodup_nil
  seen _ member := (List.not_mem_nil member).elim
  complete _ _ reached := by
    obtain ⟨_, impossible, _⟩ := reached
    cases impossible

theorem Following.delivered {s : Store} {c : Consumer} (h : Following s c) : Delivered s c :=
  fun o ho reached => List.count_eq_one_of_mem h.once (h.complete o ho reached)

section Poll

/-- In a sorted list, whatever is not after the end of a segment is in the segment. -/
theorem mem_take_of_le_getLast {β κ : Type} [LinearOrder κ] {position : β → κ} {l : List β}
    {n : Nat} {x last : β} (sorted : l.Pairwise (fun a b => position a < position b)) (hx : x ∈ l)
    (end' : (l.take n).getLast? = some last) (le : position x ≤ position last) : x ∈ l.take n := by
  rw [← List.take_append_drop n l] at sorted hx
  refine (List.mem_append.mp hx).resolve_right ?_
  intro beyond
  have before := (List.pairwise_append.mp sorted).2.2 last (List.mem_of_getLast? end') x beyond
  exact absurd le (not_le.mpr before)

theorem le_getLast_of_mem {β κ : Type} [LinearOrder κ] {position : β → κ} {l : List β} {x last : β}
    (sorted : l.Pairwise (fun a b => position a < position b)) (hx : x ∈ l)
    (end' : l.getLast? = some last) : position x ≤ position last := by
  obtain ⟨first, rfl⟩ := List.getLast?_eq_some_iff.mp end'
  rcases List.mem_append.mp hx with old | new
  · exact ((List.pairwise_append.mp sorted).2.2 x old last (by simp)).le
  · rw [List.mem_singleton.mp new]

variable {s : Store} {c : Consumer} {limit : Nat}

theorem page_items : (s.page c.cursor limit).items =
    ((s.changes c.cursor).take limit).map ChangeItem.modelValidate := by
  simp [Store.page, ChangeFeedResponse.ofRows, List.take_take]

theorem page_nextCursor : (s.page c.cursor limit).nextCursor =
    (((s.changes c.cursor).take limit).getLast?.map (fun row => (row.createdAt, row.id))).or
      c.cursor := by
  simp [Store.page, ChangeFeedResponse.ofRows, List.take_take]

/-- After a poll the cursor has reached the rows that it had reached before, and the
rows of the page. -/
theorem reaches_page {o : OutboxEvent} (ho : o ∈ s.outboxEvents) :
    Reaches (s.page c.cursor limit).nextCursor o.position ↔
      Reaches c.cursor o.position ∨ o ∈ (s.changes c.cursor).take limit := by
  rw [page_nextCursor]
  have sorted := changes_pairwise s c.cursor
  cases end' : ((s.changes c.cursor).take limit).getLast? with
  | none => simp [List.getLast?_eq_none_iff.mp end']
  | some last =>
      have member := List.mem_of_mem_take (List.mem_of_getLast? end')
      constructor
      · rintro ⟨_, ⟨⟩, le⟩
        by_cases old : Reaches c.cursor o.position
        · exact .inl old
        · refine .inr (mem_take_of_le_getLast sorted (mem_changes.mpr ⟨ho, ?_⟩) end' le)
          exact fun p hp => not_le.mp (fun reached => old ⟨p, hp, reached⟩)
      · rintro (⟨p, hp, le⟩ | new)
        · exact ⟨_, rfl, le.trans ((mem_changes.mp member).2 p hp).le⟩
        · exact ⟨_, rfl, le_getLast_of_mem (sorted.sublist (List.take_sublist _ _)) new end'⟩

theorem Following.poll (h : Following s c) : Following s (c.receive (s.page c.cursor limit)) where
  once := by
    rw [Consumer.receive, page_items, List.map_append, List.map_map]
    refine List.nodup_append.mpr ⟨h.once, ?_, ?_⟩
    · have rows := (changes_pairwise s c.cursor).sublist
        (List.take_sublist limit _)
      refine List.pairwise_map.mpr (rows.imp_of_mem ?_)
      intro a b ha hb lt same
      have owna := (mem_changes.mp (List.mem_of_mem_take ha)).1
      have ownb := (mem_changes.mp (List.mem_of_mem_take hb)).1
      rw [Table.eq_of_key_eq owna ownb same] at lt
      exact lt_irrefl _ lt
    · -- A row of the page was not received before: its position is beyond the cursor.
      intro id hid id' hid' same
      obtain ⟨item, hi, rfl⟩ := List.mem_map.mp hid
      obtain ⟨o, ho, rfl⟩ := List.mem_map.mp hid'
      obtain ⟨⟨p, hp, le⟩, o', ho', position⟩ := h.seen item hi
      obtain ⟨own, beyond⟩ := mem_changes.mp (List.mem_of_mem_take ho)
      have equal : o' = o := Table.eq_of_key_eq ho' own
        ((congrArg (fun q => (ofLex q).2) position).trans same)
      rw [← position, equal] at le
      exact absurd le (not_le.mpr (beyond p hp))
  seen item hi := by
    rw [Consumer.receive, page_items] at hi
    rcases List.mem_append.mp hi with old | new
    · obtain ⟨reached, o, ho, position⟩ := h.seen item old
      refine ⟨?_, o, ho, position⟩
      rw [← position] at reached ⊢
      exact (reaches_page ho).mpr (.inl reached)
    · obtain ⟨o, ho, rfl⟩ := List.mem_map.mp new
      have own := (mem_changes.mp (List.mem_of_mem_take ho)).1
      exact ⟨(reaches_page own).mpr (.inr ho), o, own, rfl⟩
  complete o ho reached := by
    rw [Consumer.receive, page_items, List.map_append, List.mem_append, List.map_map]
    rcases (reaches_page ho).mp reached with old | new
    · exact .inl (h.complete o ho old)
    · exact .inr (List.mem_map.mpr ⟨o, new, rfl⟩)

end Poll

/-- A commit of rows beyond the cursor. -/
theorem Following.view {s : Store} {c : Consumer} {ws : List Write} (h : Following s c)
    (beyond : ∀ o, .addOutbox o ∈ ws → ¬ Reaches c.cursor o.position) :
    Following (postgres.view s ws) c where
  once := h.once
  seen item hi := by
    obtain ⟨reached, o, ho, position⟩ := h.seen item hi
    obtain ⟨o', ho', same⟩ := exists_mem_view_outboxEvents OutboxEvent.position (fun _ _ => rfl) ws ho
    exact ⟨reached, o', ho', same.trans position⟩
  complete o ho reached := by
    rcases exists_of_mem_view_outboxEvents OutboxEvent.position (fun _ _ => rfl) ho with
      ⟨o', old, same⟩ | ⟨o', new, same⟩
    · have id : o'.id = o.id := congrArg (fun q => (ofLex q).2) same
      exact id ▸ h.complete o' old (same ▸ reached)
    · exact (beyond o' new (same ▸ reached)).elim

section Runs

variable [Fintype ι] [DecidableEq ι]

theorem Following.write {st next : Cluster Answer Exn Store Write World ι α} {c : Consumer} {i : ι}
    {m : Move Exn Choice} (h : Following st.shared.store c) (beyond : Beyond st c i)
    (step : st.act postgres i m = some next) : Following next.shared.store c := by
  obtain ⟨session, shared, advanced, rfl⟩ := Cluster.act_eq_some_iff.mp step
  rcases Engine.advance_shared advanced with ⟨store, _⟩ | ⟨⟨k, committing⟩, rfl⟩
  · exact store ▸ h
  · exact h.view (beyond k committing)

/-- In every run in which no writer commits rows at or below the cursor, every committed
row that the cursor has reached was returned exactly once. -/
theorem feed_delivers {shared : State ι} {progs : ι → Tx α}
    {st : Cluster Answer Exn Store Write World ι α} {c : Consumer}
    (run : FeedRun Beyond (Cluster.start shared progs) st c) : Delivered st.shared.store c := by
  suffices Following st.shared.store c from this.delivered
  induction run with
  | start => exact .start _
  | write _ beyond step ih => exact ih.write beyond step
  | poll _ _ _ completes ih => exact pollChanges_completes completes ▸ ih.poll

end Runs

/-- The writers run between two polls. -/
theorem FeedRun.writes [Fintype ι] [DecidableEq ι]
    {admits : Cluster Answer Exn Store Write World ι α → Consumer → ι → Prop}
    {start st next : Cluster Answer Exn Store Write World ι α} {c : Consumer}
    (run : FeedRun admits start st c) (always : ∀ st i, admits st c i)
    (h : Cluster.Reachable postgres st next) : FeedRun admits start next c := by
  induction h with
  | refl => exact run
  | tail _ _ step ih => exact .write ih (always _ _) step

/-- A slow and a fast writer of two events. -/
def slowAndFast : Cluster Answer Exn Store Write World Bool (List NormalizedEvent) :=
  Cluster.start ⟨{ clock := .shared 0 1 }, ∅, []⟩ (fun fast =>
    upsertTransaction [{ sampleCommit "text" with externalId := if fast then "fast" else "slow" }]
      none)

/-- The moves of the fast writer, whose stamp is the later one. -/
def fastScript : List (Move Exn Choice) :=
  [.step (.time 1), .step .none, .step (.draw 20 1), .step .none, .step .none, .step .none,
    .step (.draw 21 1), .step (.draws [(22, 1)]), .step .none]

/-- The slow writer has taken its stamp and has not committed yet; the fast one takes a
later stamp and commits. -/
def untilPoll : List (Bool × Move Exn Choice) :=
  ((createScript 10).take 8).map (Prod.mk false) ++ fastScript.map (Prod.mk true)

/-- A poll between the two commits. -/
def pollBetween : Option (Cluster Answer Exn Store Write World Bool (List NormalizedEvent) ×
    ChangeFeedResponse × Cluster Answer Exn Store Write World Bool (List NormalizedEvent)) := do
  let st ← slowAndFast.play postgres (fun _ _ _ => True) untilPoll
  let (r, _) ← postgres.outcome true [.step .none] (pollChanges none 100) st.shared
  let next ← st.play postgres (fun _ _ _ => True) [(false, .step .none)]
  return (st, r, next)

theorem feedRun_of_pollBetween {st next : Cluster Answer Exn Store Write World Bool
      (List NormalizedEvent)} {r : ChangeFeedResponse} (h : pollBetween = some (st, r, next)) :
    FeedRun Beyond slowAndFast st (Consumer.receive {} r) ∧
      FeedRun (fun _ _ _ => True) slowAndFast next (Consumer.receive {} r) := by
  simp only [pollBetween, Option.bind_eq_bind, Option.bind_eq_some_iff, Prod.exists,
    Option.pure_def, Option.some.injEq, Prod.mk.injEq] at h
  obtain ⟨st, writes, r, τ, polled, next, commit, rfl, rfl, rfl⟩ := h
  constructor
  · exact .poll (FeedRun.start.writes Beyond.start (Cluster.run_of_play writes)) (by decide) (by decide)
      (Engine.completes_of_outcome polled)
  · have polling : FeedRun (fun _ _ _ => True) slowAndFast st (Consumer.receive {} r) :=
      .poll (FeedRun.start.writes (fun _ _ => trivial) (Cluster.run_of_play writes)) (by decide)
        (by decide) (Engine.completes_of_outcome polled)
    exact polling.writes (fun _ _ => trivial) (Cluster.run_of_play commit)

/-- The row of the slow writer is committed below the cursor and is never returned. -/
theorem feed_skips : ∃ st c, FeedRun (fun _ _ _ => True) slowAndFast st c ∧
    ¬ Delivered st.shared.store c := by
  have shape : pollBetween.map (fun x => decide (x.2.1.nextCursor = some (1, 22) ∧
      x.2.1.items.map ChangeItem.id = [22] ∧
        x.2.2.shared.store.outboxEvents.rows.map (fun o => (o.createdAt, o.id)) =
          [(1, 22), (0, 12)])) = some true := by decide +kernel
  obtain ⟨⟨st, r, next⟩, run, facts⟩ := Option.map_eq_some_iff.mp shape
  obtain ⟨cursor, items, rows⟩ := of_decide_eq_true facts
  refine ⟨next, Consumer.receive {} r, (feedRun_of_pollBetween run).2, ?_⟩
  intro delivered
  have listed : ((0 : Time), (12 : Uuid)) ∈
      next.shared.store.outboxEvents.rows.map (fun o => (o.createdAt, o.id)) := by
    rw [rows]
    simp
  obtain ⟨o, ho, stamp⟩ := List.mem_map.mp listed
  rw [Prod.mk.injEq] at stamp
  have once := delivered o ho ⟨_, cursor, by
    rw [OutboxEvent.position, stamp.1, stamp.2]
    decide⟩
  rw [Consumer.receive, List.nil_append, items, stamp.2] at once
  exact absurd once (by decide)

/-- The slow writer commits, the consumer polls, the fast writer commits, and the
consumer polls with the cursor that it has received. -/
def pollsInOrder : Option (Cluster Answer Exn Store Write World Bool (List NormalizedEvent) ×
    ChangeFeedResponse × Cluster Answer Exn Store Write World Bool (List NormalizedEvent) ×
      ChangeFeedResponse) := do
  let st ← slowAndFast.play postgres (fun _ _ _ => True)
    ((createScript 10).map (Prod.mk false) ++ (fastScript.take 8).map (Prod.mk true))
  let (r, _) ← postgres.outcome true [.step .none] (pollChanges none 100) st.shared
  let next ← st.act postgres true (.step .none)
  let (r', _) ← postgres.outcome true [.step .none] (pollChanges r.nextCursor 100) next.shared
  return (st, r, next, r')

/-- The second poll finds a commit beyond the cursor of the first one, and the consumer
has received both rows. -/
theorem feed_delivers_in_order : ∃ st c, FeedRun Beyond slowAndFast st c ∧
    c.received.map ChangeItem.id = [12, 22] ∧ Delivered st.shared.store c := by
  have shape : pollsInOrder.map (fun x => decide (x.2.1.nextCursor = some (0, 12) ∧
      x.2.1.items.map ChangeItem.id = [12] ∧ x.2.2.2.items.map ChangeItem.id = [22] ∧
        ((x.1.sessions true).writes.filterMap Write.outboxRow).all (fun o =>
          decide (toLex ((0 : Time), (12 : Uuid)) < o.position)) = true)) = some true := by
    decide +kernel
  obtain ⟨⟨st, r, next, r'⟩, run, facts⟩ := Option.map_eq_some_iff.mp shape
  obtain ⟨cursor, first, second, beyond⟩ := of_decide_eq_true facts
  simp only [pollsInOrder, Option.bind_eq_bind, Option.bind_eq_some_iff, Prod.exists,
    Option.pure_def, Option.some.injEq, Prod.mk.injEq] at run
  obtain ⟨st, writes, r, _, polled, next, commit, r', _, again, rfl, rfl, rfl, rfl⟩ := run
  have once : FeedRun Beyond slowAndFast st (Consumer.receive {} r) :=
    .poll (FeedRun.start.writes Beyond.start (Cluster.run_of_play writes)) (by decide) (by decide)
      (Engine.completes_of_outcome polled)
  have fast : Beyond st (Consumer.receive {} r) true := by
    rintro k _ o written ⟨c, reached, le⟩
    change c ∈ r.nextCursor at reached
    rw [cursor, Option.mem_some_iff] at reached
    subst reached
    have own : o ∈ ((st.sessions true).writes.filterMap Write.outboxRow) :=
      List.mem_filterMap.mpr ⟨_, written, rfl⟩
    exact absurd (of_decide_eq_true (List.all_eq_true.mp beyond o own)) (not_lt.mpr le)
  have twice : FeedRun Beyond slowAndFast next ((Consumer.receive {} r).receive r') :=
    .poll (.write once fast commit) (by decide) (by decide) (Engine.completes_of_outcome again)
  refine ⟨next, _, twice, ?_, feed_delivers twice⟩
  rw [Consumer.receive, Consumer.receive, List.nil_append, List.map_append, first, second]
  rfl

end OmniSync
