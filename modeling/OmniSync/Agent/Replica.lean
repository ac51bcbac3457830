import OmniSync.Agent.Paging
import OmniSync.Integrations.Feed

/-!
# A consumer's copy of the events

A consumer that keeps the last payload of each event has a copy of the events. As long as nothing
is committed at or below its cursor, what it has received is the feed up to the cursor. The newest
row of an event carries its state, so either the copy has the state of the event, or that row is
still ahead of the cursor; and every poll comes nearer to the end of the feed.
-/

namespace OmniSync

open Txn

variable {ι α : Type}

/-- The payloads that the consumer has received last, by event. -/
def Consumer.replica (c : Consumer) : Uuid → Option OutboxPayload :=
  lastWrite (fun item => item.payload.eventId) ChangeItem.payload c.received

section Runs

variable [Fintype ι] [DecidableEq ι] {start st : Cluster Answer Exn Store Write World ι α}
variable {c : Consumer}

theorem FeedRun.reachable {admits : Cluster Answer Exn Store Write World ι α → Consumer → ι → Prop}
    (run : FeedRun admits start st c) : Cluster.Reachable postgres start st := by
  induction run with
  | start => exact .refl
  | write _ _ step ih => exact .tail ih (fun _ _ _ => trivial) step
  | poll _ _ _ _ ih => exact ih

/-- A commit beyond the cursor shows nothing else at or below it. -/
theorem Beyond.feed {next : Cluster Answer Exn Store Write World ι α} {i : ι}
    {m : Move Exn Choice} (beyond : Beyond st c i) (step : st.act postgres i m = some next)
    {item : ChangeItem} {after : Option (Time × Uuid)} (h : item ∈ next.shared.store.feed after) :
    item ∈ st.shared.store.feed after ∨ Keyset.Past (c.cursor.map toLex) item.position := by
  obtain ⟨session, shared, advanced, rfl⟩ := Cluster.act_eq_some_iff.mp step
  rcases Engine.advance_shared advanced with ⟨store, _⟩ | ⟨⟨k, committing⟩, rfl⟩
  · exact .inl (store ▸ h)
  · obtain ⟨⟨o, ho, rfl⟩, past⟩ := mem_feed.mp h
    rcases exists_of_mem_view_outboxEvents ChangeItem.modelValidate (fun _ _ => rfl) ho with
      ⟨o', old, same⟩ | ⟨o', new, same⟩
    · exact .inl (mem_feed.mpr ⟨⟨o', old, same⟩, past⟩)
    · right
      rw [← same]
      refine past_position.mpr (fun p hp => lt_of_not_ge (fun reached => ?_))
      exact beyond k committing o' new ⟨p, hp, reached⟩

/-- A consumer whose cursor nothing is committed below has received the feed up to it. -/
theorem FeedRun.paged (run : FeedRun Beyond start st c) :
    Paged st.shared.store none c.cursor c.received := by
  induction run with
  | start => exact .initial _ _
  | write _ beyond step ih => exact ih.extend (itemsKept_of_act step) (fun _ => beyond.feed step)
  | @poll st c i limit r τ _ _ _ completes ih =>
      obtain ⟨items, next⟩ := page_eq_take st.shared.store c.cursor limit
      rw [pollChanges_completes completes, Consumer.receive, items, next]
      exact ih.receive limit

end Runs

section Copy

variable {s : Store} {c : Consumer}

/-- Nothing is received of an event that is not stored. -/
theorem Paged.replica_of_not_mem (h : Paged s none c.cursor c.received) (current : Current s)
    {id : Uuid} (absent : ∀ e ∈ s.normalizedEvents, e.id ≠ id) : c.replica id = none := by
  refine lastWrite_eq_none _ _ (fun item hi same => ?_)
  have known : item ∈ s.feed none := by
    rw [h.split]
    exact List.mem_append_left _ hi
  obtain ⟨⟨o, ho, rfl⟩, -⟩ := mem_feed.mp known
  obtain ⟨e, he, owner⟩ := current.known o ho
  exact absent e he (owner.trans same)

/-- The copy has the state of an event, or the state is ahead of the cursor. -/
theorem Paged.replica_of_mem (h : Paged s none c.cursor c.received) (current : Current s)
    {e : NormalizedEvent} (he : e ∈ s.normalizedEvents) :
    c.replica e.id = some e.state ∨ ∃ item ∈ s.feed c.cursor, item.payload = e.state := by
  obtain ⟨o, ho, payload, last⟩ := current.last e he
  have newest : ChangeItem.modelValidate o ∈ s.feed none := mem_feed.mpr ⟨⟨o, ho, rfl⟩, by simp⟩
  rw [h.split, List.mem_append] at newest
  refine newest.imp (fun received => ?_) (fun ahead => ⟨_, ahead, payload⟩)
  have owner : o.payload.eventId = e.id := congrArg OutboxPayload.eventId payload
  have sorted := (List.pairwise_append.mp (h.split ▸ feed_ascending s none)).1
  rw [← owner, ← payload]
  refine lastWrite_eq_some (fun item : ChangeItem => item.payload.eventId) ChangeItem.payload
    sorted received (fun item hi same => ?_)
  have known : item ∈ s.feed none := by
    rw [h.split]
    exact List.mem_append_left _ hi
  obtain ⟨⟨o', ho', rfl⟩, -⟩ := mem_feed.mp known
  exact last o' ho' (same.trans owner)

/-- A page brings the consumer nearer to the end of the feed. -/
theorem page_progress (s : Store) (cursor : Option (Time × Uuid)) (limit : Nat) :
    s.feed (s.page cursor limit).nextCursor = (s.feed cursor).drop limit := by
  rw [(page_eq_take s cursor limit).2]
  exact feed_next s cursor limit

end Copy

/-- A consumer polls while any operations interleave on a database that was empty, under a clock
that increases between flushes, and nothing is committed at or below its cursor. Its copy has no
event that is not stored, and of every stored event it has the current state or will poll it. A
poll takes as many rows off what is ahead as it asks for, and after a poll that says that there is
no more, the copy has the state of every event. -/
theorem consumer_catches_up [Fintype ι] [DecidableEq ι] (c : SystemConfig) {world : World}
    {now : Time} {gap : Nat} (clock : world.clock = .shared now gap) (strict : 0 < gap)
    (ops : ι → Operation) {st : Cluster Answer Exn Store Write World ι Unit} {consumer : Consumer}
    (run : FeedRun Beyond (Cluster.start ⟨world, ∅, []⟩ (fun i => (ops i).run c)) st consumer) :
    (∀ id, (∀ e ∈ st.shared.store.normalizedEvents, e.id ≠ id) → consumer.replica id = none) ∧
    (∀ e ∈ st.shared.store.normalizedEvents, consumer.replica e.id = some e.state ∨
      ∃ item ∈ st.shared.store.feed consumer.cursor, item.payload = e.state) ∧
    ∀ (i : ι) (limit : Nat) (r : ChangeFeedResponse) (τ : State ι), 1 ≤ limit → limit ≤ 500 →
      postgres.Completes i (pollChanges consumer.cursor limit) st.shared r τ →
        (st.shared.store.feed (consumer.receive r).cursor).length =
          (st.shared.store.feed consumer.cursor).length - limit ∧
        (r.hasMore = false → ∀ e ∈ st.shared.store.normalizedEvents,
          (consumer.receive r).replica e.id = some e.state) := by
  have current := (operations_ready c clock strict ops run.reachable).1
  refine ⟨fun id absent => run.paged.replica_of_not_mem current absent,
    fun e he => run.paged.replica_of_mem current he, ?_⟩
  intro i limit r τ positive bounded completes
  have received := (run.poll positive bounded completes).paged
  have answer := pollChanges_completes completes
  have ahead : st.shared.store.feed (consumer.receive r).cursor =
      (st.shared.store.feed consumer.cursor).drop limit := by
    rw [answer]
    exact page_progress _ _ _
  refine ⟨by rw [ahead, List.length_drop], fun last e he => ?_⟩
  have few : ¬ limit < (st.shared.store.feed consumer.cursor).length := by
    rw [← page_hasMore, ← answer, last]
    exact Bool.false_ne_true
  refine (received.replica_of_mem current he).resolve_right ?_
  rintro ⟨item, member, -⟩
  rw [ahead, List.drop_of_length_le (not_lt.mp few)] at member
  cases member

section Example

/-- Two polls, of one row each, after the sync. -/
def chatPolls : Option (Cluster Answer Exn Store Write World Bool Unit × ChangeFeedResponse ×
    ChangeFeedResponse) := do
  let st ← chatStart.play postgres (fun _ _ _ => True) (chatMoves.map (Prod.mk false))
  let (first, _) ← postgres.outcome true [.step .none] (pollChanges none 1) st.shared
  let (second, _) ← postgres.outcome true [.step .none] (pollChanges first.nextCursor 1) st.shared
  return (st, first, second)

/-- After the first poll the copy has the text that the message had first, after the second one
its current text. -/
theorem consumer_catches_up_chat : ∃ st first second, ∃ e ∈ st.shared.store.normalizedEvents,
    FeedRun Beyond chatStart st ((Consumer.receive {} first).receive second) ∧
      first.hasMore = true ∧
      ((Consumer.receive {} first).replica e.id).map OutboxPayload.content =
        some "[chat:100] hi" ∧
      second.hasMore = false ∧ e.content = "[chat:200] hello" ∧
        ((Consumer.receive {} first).receive second).replica e.id = some e.state := by
  have shape : chatPolls.map (fun x =>
      (x.2.1.hasMore, x.2.2.hasMore, x.1.shared.store.normalizedEvents.rows.map (fun e =>
        (e.content, ((Consumer.receive {} x.2.1).replica e.id).map OutboxPayload.content)))) =
          some (true, false, [("[chat:200] hello", some "[chat:100] hi")]) := by decide +kernel
  obtain ⟨⟨st, first, second⟩, polls, facts⟩ := Option.map_eq_some_iff.mp shape
  simp only [Prod.mk.injEq] at facts
  obtain ⟨more, done, rows⟩ := facts
  obtain ⟨e, one, texts⟩ := List.map_eq_singleton_iff.mp rows
  simp only [Prod.mk.injEq] at texts
  have member : e ∈ st.shared.store.normalizedEvents := by
    rw [Table.mem_def, one]
    exact List.mem_singleton.mpr rfl
  simp only [chatPolls, Option.bind_eq_bind, Option.bind_eq_some_iff, Prod.exists, Option.pure_def,
    Option.some.injEq, Prod.mk.injEq] at polls
  obtain ⟨st, writes, first, τ, polled, second, τ', again, rfl, rfl, rfl⟩ := polls
  have nothing : ∀ (st : Cluster Answer Exn Store Write World Bool Unit) i, Beyond st {} i := by
    rintro st i k _ o _ ⟨_, impossible, _⟩
    cases impossible
  have run : FeedRun Beyond chatStart st (Consumer.receive {} first) :=
    .poll (FeedRun.start.writes nothing (Cluster.run_of_play writes)) (by decide) (by decide)
      (Engine.completes_of_outcome polled)
  have completes := Engine.completes_of_outcome again
  refine ⟨st, first, second, e, member, run.poll (by decide) (by decide) completes, more, texts.2,
    done, texts.1, ?_⟩
  exact ((consumer_catches_up chatConfig rfl Nat.one_pos chatOperations run).2.2 true 1 second τ'
    (by decide) (by decide) completes).2 done e member

end Example

end OmniSync
