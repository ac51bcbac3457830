import OmniSync.Data.Keyset
import OmniSync.Events.Transaction

/-!
# Paging through the events

`listEvents` returns one page of a listing, newest events first. Between two pages events
may be inserted, edited and moved to another timestamp. A client that follows the cursor
receives positions that decrease strictly, and an event that matches and keeps its
timestamp is never passed over: at each page it is either among the returned ones or past
the cursor.
-/

namespace OmniSync

open Txn

variable {ι α : Type}

structure EventResponse where
  id : Uuid
  externalId : String
  source : String
  authorId : String
  authorName : String
  content : String
  eventType : String
  timestamp : Time
  createdAt : Time
  updatedAt : Time
  version : Nat
  schemaVersion : Int
  deriving DecidableEq, Repr

def EventResponse.modelValidate (row : NormalizedEvent) : EventResponse :=
  { id := row.id
    externalId := row.externalId
    source := row.source
    authorId := row.authorId
    authorName := row.authorName
    content := row.content
    eventType := row.eventType
    timestamp := row.timestamp
    createdAt := row.createdAt
    updatedAt := row.updatedAt
    version := row.version
    schemaVersion := row.schemaVersion }

/-- The position of an item. -/
def EventResponse.position (item : EventResponse) : Time ×ₗ Uuid := toLex (item.timestamp, item.id)

@[simp] theorem EventResponse.modelValidate_position (row : NormalizedEvent) :
    (EventResponse.modelValidate row).position = row.position := rfl

structure PaginatedResponse where
  items : List EventResponse
  hasMore : Bool
  nextCursor : Option (Time × Uuid) := none
  limit : Nat
  deriving DecidableEq, Repr

/-- The response for the rows of one query, which has asked for one row more than
`limit`. -/
def PaginatedResponse.ofRows (events : List NormalizedEvent) (limit : Nat) : PaginatedResponse :=
  { items := (events.take limit).map EventResponse.modelValidate
    hasMore := decide (limit < events.length)
    nextCursor :=
      if limit < events.length then
        (events.take limit).getLast?.map (fun last => (last.timestamp, last.id))
      else none
    limit := limit }

namespace NormalizedEventService

def listEvents (filters : EventFilterParams) (limit : Nat) : Tx PaginatedResponse := do
  let events ← Db.selectListing filters (limit + 1)
  return PaginatedResponse.ofRows events limit

end NormalizedEventService

section Listing

variable {s : Store} {filters : EventFilterParams}

/-- The cursor as a position of the listing, in which later events come first. -/
def EventFilterParams.start (filters : EventFilterParams) : Option (Time ×ₗ Uuid)ᵒᵈ :=
  filters.cursor.map (fun c => OrderDual.toDual (toLex c))

/-- The place of a row in the listing. -/
def NormalizedEvent.place (row : NormalizedEvent) : (Time ×ₗ Uuid)ᵒᵈ :=
  OrderDual.toDual row.position

theorem resumes_iff {row : NormalizedEvent} :
    filters.resumes row = true ↔ Keyset.Past filters.start row.place := by
  unfold EventFilterParams.resumes EventFilterParams.start
  cases filters.cursor with
  | none => simp
  | some c =>
      simp only [Option.all_some, Option.map_some, Keyset.past_some, NormalizedEvent.place,
        NormalizedEvent.position, OrderDual.toDual_lt_toDual, Prod.Lex.toLex_lt_toLex,
        Bool.or_eq_true, Bool.and_eq_true, decide_eq_true_eq]

theorem mem_listing {row : NormalizedEvent} :
    row ∈ s.listing filters ↔ row ∈ s.normalizedEvents ∧ filters.accepts row = true ∧
      Keyset.Past filters.start row.place := by
  simp [Store.listing, Table.mem_def, resumes_iff]

/-- The listing goes down strictly. -/
theorem listing_ascending (ids : s.EventIdsUnique) :
    Keyset.Ascending NormalizedEvent.place (s.listing filters) := by
  have sorted : (s.listing filters).Pairwise (fun a b => b.position ≤ a.position) :=
    List.pairwise_insertionSort _ _
  have distinct : (s.listing filters).Nodup :=
    (List.perm_insertionSort _ _).nodup_iff.mpr (s.normalizedEvents.rows_nodup.filter _)
  refine (sorted.and distinct).imp_of_mem ?_
  rintro a b ha hb ⟨le, different⟩
  refine lt_of_le_of_ne (OrderDual.toDual_le_toDual.mpr le) (fun same => different ?_)
  have id : a.id = b.id := congrArg (fun p => (ofLex (OrderDual.ofDual p)).2) same
  exact Table.eq_of_key_eq (mem_listing.mp ha).1 (mem_listing.mp hb).1
    (ids a (mem_listing.mp ha).1 b (mem_listing.mp hb).1 id)

end Listing

/-- What the listing answers when `s` is committed. -/
def Store.listingPage (s : Store) (filters : EventFilterParams) (limit : Nat) :
    PaginatedResponse :=
  PaginatedResponse.ofRows ((s.listing filters).take (limit + 1)) limit

theorem listEvents_completes {i : ι} {filters : EventFilterParams} {limit : Nat} {σ τ : State ι}
    {r : PaginatedResponse}
    (h : postgres.Completes i (NormalizedEventService.listEvents filters limit) σ r τ) :
    r = σ.store.listingPage filters limit :=
  query_completes (s := .selectListing filters (limit + 1))
    (f := fun s => (s.listing filters).take (limit + 1))
    (fun choice _ _ _ => by cases choice <;> rfl) h

section Page

variable {s : Store} {filters : EventFilterParams} {limit : Nat}

theorem listingPage_items : (s.listingPage filters limit).items =
    ((s.listing filters).take limit).map EventResponse.modelValidate := by
  simp [Store.listingPage, PaginatedResponse.ofRows, List.take_take]

theorem listingPage_hasMore :
    (s.listingPage filters limit).hasMore = true ↔ limit < (s.listing filters).length := by
  simp only [Store.listingPage, PaginatedResponse.ofRows, List.length_take, decide_eq_true_eq]
  omega

theorem listingPage_nextCursor : (s.listingPage filters limit).nextCursor =
    if limit < (s.listing filters).length then
      ((s.listing filters).take limit).getLast?.map (fun last => (last.timestamp, last.id))
    else none := by
  have longer : limit < ((s.listing filters).take (limit + 1)).length ↔
      limit < (s.listing filters).length := by
    rw [List.length_take]
    omega
  simp only [Store.listingPage, PaginatedResponse.ofRows, longer, List.take_take]
  simp

theorem listingPage_nextCursor_isSome (positive : 1 ≤ limit) :
    (s.listingPage filters limit).nextCursor.isSome = (s.listingPage filters limit).hasMore := by
  rw [listingPage_nextCursor, Bool.eq_iff_iff, listingPage_hasMore]
  by_cases more : limit < (s.listing filters).length
  · have filled : (s.listing filters).take limit ≠ [] := by
      rw [← List.length_pos_iff, List.length_take]
      omega
    rw [if_pos more, List.getLast?_eq_some_getLast filled]
    exact iff_of_true rfl more
  · rw [if_neg more]
    exact iff_of_false Bool.false_ne_true more

end Page

/-- A client that follows the cursor: the cursor, whether `has_more` was false, what it
has received, and the committed states that its pages were read from. -/
structure Traversal where
  cursor : Option (Time × Uuid) := none
  finished : Bool := false
  items : List EventResponse := []
  reads : List Store := []

/-- The client keeps the items and the next cursor of a page. -/
def Traversal.receive (t : Traversal) (r : PaginatedResponse) (s : Store) : Traversal :=
  { cursor := r.nextCursor
    finished := !r.hasMore
    items := t.items ++ r.items
    reads := t.reads ++ [s] }

/-- The rows that are listed after the cursor. -/
def Traversal.remaining (t : Traversal) (filters : EventFilterParams) (s : Store) :
    List NormalizedEvent := s.listing { filters with cursor := t.cursor }

section Runs

variable [Fintype ι] [DecidableEq ι]

/-- Writers and the page requests of one client interleave. Each request chooses its
limit. -/
inductive ListingRun (filters : EventFilterParams)
    (start : Cluster Answer Exn Store Write World ι α) :
    Cluster Answer Exn Store Write World ι α → Traversal → Prop where
  | start : ListingRun filters start start {}
  | write {st next : Cluster Answer Exn Store Write World ι α} {t : Traversal} {i : ι}
      {m : Move Exn Choice} : ListingRun filters start st t →
        st.act postgres i m = some next → ListingRun filters start next t
  | page {st : Cluster Answer Exn Store Write World ι α} {t : Traversal} {i : ι} {limit : Nat}
      {r : PaginatedResponse} {τ : State ι} : ListingRun filters start st t →
        t.finished = false → 1 ≤ limit → limit ≤ 100 →
          postgres.Completes i
            (NormalizedEventService.listEvents { filters with cursor := t.cursor } limit)
            st.shared r τ →
              ListingRun filters start st (t.receive r st.shared.store)

theorem ListingRun.writers {filters : EventFilterParams}
    {start st : Cluster Answer Exn Store Write World ι α} {t : Traversal}
    (run : ListingRun filters start st t) : Cluster.Reachable postgres start st := by
  induction run with
  | start => exact .refl
  | write _ step ih => exact .tail ih (fun _ _ _ => trivial) step
  | page _ _ _ _ _ ih => exact ih

end Runs

/-- In the committed state `s`, event `id` has the timestamp `ts` and matches the filters. -/
def Listed (filters : EventFilterParams) (id : Uuid) (ts : Time) (s : Store) : Prop :=
  ∃ e ∈ s.normalizedEvents, e.id = id ∧ e.timestamp = ts ∧ filters.accepts e = true

/-- The cursor of a traversal as a position of the listing. -/
def Traversal.place (t : Traversal) : Option (Time ×ₗ Uuid)ᵒᵈ :=
  t.cursor.map (fun c => OrderDual.toDual (toLex c))

/-- The invariant of a traversal. -/
structure Follows (filters : EventFilterParams) (t : Traversal) : Prop where
  ids : ∀ s ∈ t.reads, s.EventIdsUnique
  descending : t.items.Pairwise (fun a b => b.position < a.position)
  sound : ∀ item ∈ t.items, ∃ s ∈ t.reads, ∃ e ∈ s.normalizedEvents,
    filters.accepts e = true ∧ EventResponse.modelValidate e = item
  passed : t.finished = false → ∀ k : Time ×ₗ Uuid,
    Keyset.Past t.place (OrderDual.toDual k) ↔ ∀ item ∈ t.items, k < item.position
  complete : ∀ id ts, (∀ s ∈ t.reads, Listed filters id ts s) →
    (∃ item ∈ t.items, item.id = id ∧ item.timestamp = ts) ∨
      (t.finished = false ∧ Keyset.Past t.place (OrderDual.toDual (toLex (ts, id))))

namespace Follows

variable {filters : EventFilterParams} {t : Traversal} {s : Store} {limit : Nat}

theorem initial (filters : EventFilterParams) : Follows filters {} where
  ids _ member := (List.not_mem_nil member).elim
  descending := List.Pairwise.nil
  sound _ member := (List.not_mem_nil member).elim
  passed _ k := by simp [Traversal.place]
  complete _ _ _ := .inr ⟨rfl, by simp [Traversal.place]⟩

theorem mem_remaining {row : NormalizedEvent} : row ∈ t.remaining filters s ↔
    row ∈ s.normalizedEvents ∧ filters.accepts row = true ∧ Keyset.Past t.place row.place :=
  mem_listing

/-- The cursor of a page with a further one is the place of its last row. -/
theorem place_receive (more : limit < (t.remaining filters s).length) (positive : 1 ≤ limit) :
    (t.receive (s.listingPage { filters with cursor := t.cursor } limit) s).place =
      Keyset.next NormalizedEvent.place t.place ((t.remaining filters s).take limit) := by
  unfold Traversal.place Traversal.receive Keyset.next
  rw [listingPage_nextCursor]
  change Option.map _ (if limit < (t.remaining filters s).length then _ else none) = _
  rw [if_pos more]
  change Option.map _ (((t.remaining filters s).take limit).getLast?.map _) = _
  cases end' : ((t.remaining filters s).take limit).getLast? with
  | none =>
      have empty := congrArg List.length (List.getLast?_eq_none_iff.mp end')
      rw [List.length_take, List.length_nil] at empty
      omega
  | some last => rfl

/-- One page is read. -/
theorem receive (h : Follows filters t) (unfinished : t.finished = false)
    (ids : s.EventIdsUnique) (positive : 1 ≤ limit) :
    Follows filters (t.receive (s.listingPage { filters with cursor := t.cursor } limit) s) := by
  have ascending : Keyset.Ascending NormalizedEvent.place (t.remaining filters s) :=
    listing_ascending ids
  have beyond : ∀ x ∈ t.remaining filters s, Keyset.Past t.place x.place :=
    fun x hx => (mem_remaining.mp hx).2.2
  have first := ascending.sublist (List.take_sublist limit _)
  have earlier : ∀ x ∈ (t.remaining filters s).take limit, Keyset.Past t.place x.place :=
    fun x hx => beyond x (List.mem_of_mem_take hx)
  have items : (t.receive (s.listingPage { filters with cursor := t.cursor } limit) s).items =
      t.items ++ ((t.remaining filters s).take limit).map EventResponse.modelValidate :=
    congrArg (t.items ++ ·) listingPage_items
  have finished : (t.receive (s.listingPage { filters with cursor := t.cursor } limit) s).finished =
      false ↔ limit < (t.remaining filters s).length := by
    rw [Traversal.receive, Bool.not_eq_false']
    exact listingPage_hasMore
  refine ⟨?_, ?_, ?_, ?_, ?_⟩
  · intro s' member
    rcases List.mem_append.mp member with old | new
    · exact h.ids s' old
    · exact List.mem_singleton.mp new ▸ ids
  · rw [items]
    refine List.pairwise_append.mpr ⟨h.descending, ?_, ?_⟩
    · exact List.pairwise_map.mpr (first.imp (fun lt => OrderDual.toDual_lt_toDual.mp lt))
    · intro a ha b hb
      obtain ⟨row, hr, rfl⟩ := List.mem_map.mp hb
      exact (h.passed unfinished _).mp (earlier row hr) a ha
  · intro item hi
    rw [items] at hi
    rcases List.mem_append.mp hi with old | new
    · obtain ⟨s', member, e, he, facts⟩ := h.sound item old
      exact ⟨s', List.mem_append_left _ member, e, he, facts⟩
    · obtain ⟨row, hr, rfl⟩ := List.mem_map.mp new
      obtain ⟨member, accepted, _⟩ := mem_remaining.mp (List.mem_of_mem_take hr)
      exact ⟨s, by simp [Traversal.receive], row, member, accepted, rfl⟩
  · intro more k
    rw [place_receive (finished.mp more) positive, Keyset.past_next first earlier, items,
      h.passed unfinished]
    simp only [List.mem_append, List.mem_map, or_imp, forall_and, forall_exists_index, and_imp,
      forall_apply_eq_imp_iff₂, EventResponse.modelValidate_position]
    rfl
  · intro id ts listed
    rw [items]
    rcases h.complete id ts (fun s' hs => listed s' (List.mem_append_left _ hs)) with
      ⟨item, hi, same⟩ | ⟨_, past⟩
    · exact .inl ⟨item, List.mem_append_left _ hi, same⟩
    · obtain ⟨e, he, rfl, rfl, accepted⟩ := listed s (by simp [Traversal.receive])
      have here : e ∈ t.remaining filters s := mem_remaining.mpr ⟨he, accepted, past⟩
      by_cases shown : e ∈ (t.remaining filters s).take limit
      · exact .inl ⟨_, List.mem_append_right _ (List.mem_map_of_mem shown), rfl, rfl⟩
      · -- The row lies beyond the page, so there is a further page and the row is on it.
        have later : e ∈ (t.remaining filters s).drop limit := by
          have split := here
          rw [← List.take_append_drop limit (t.remaining filters s)] at split
          exact (List.mem_append.mp split).resolve_left shown
        have more : limit < (t.remaining filters s).length := by
          by_contra short
          rw [List.drop_eq_nil_of_le (not_lt.mp short)] at later
          exact List.not_mem_nil later
        refine .inr ⟨finished.mpr more, ?_⟩
        rw [place_receive more positive]
        exact (Keyset.past_next_iff_mem_drop ascending beyond here).mpr later

/-- An event that has matched with one timestamp on every page is returned once. -/
theorem once (h : Follows filters t) (finished : t.finished = true) {id : Uuid} {ts : Time}
    (listed : ∀ s ∈ t.reads, Listed filters id ts s) :
    (t.items.map EventResponse.id).count id = 1 := by
  obtain ⟨item, hi, rfl, rfl⟩ := (h.complete id ts listed).resolve_right
    (fun open' => Bool.false_ne_true (open'.1.symm.trans finished))
  have distinct : (t.items.map EventResponse.position).Nodup :=
    List.pairwise_map.mpr (h.descending.imp (fun lt => lt.ne'))
  have only : ∀ x ∈ t.items, x.id = item.id → x = item := by
    intro x hx same
    obtain ⟨s, hs, e, he, _, rfl⟩ := h.sound x hx
    obtain ⟨e', he', id, ts, _⟩ := listed s hs
    have one : e = e' := Table.eq_of_key_eq he he' (h.ids s hs e he e' he' (same.trans id.symm))
    refine List.inj_on_of_nodup_map distinct hx hi ?_
    change toLex (e.timestamp, e.id) = toLex (item.timestamp, item.id)
    rw [one, id, ts]
  rw [List.count_eq_countP, List.countP_map, ← List.count_eq_one_of_mem distinct.of_map hi,
    List.count_eq_countP]
  refine List.countP_congr (fun x hx => ?_)
  simp only [Function.comp_apply, beq_iff_eq]
  exact ⟨only x hx, fun same => same ▸ rfl⟩

/-- The listing goes on beyond a page if some matching event is below all items so far. -/
theorem further_iff (h : Follows filters t) (unfinished : t.finished = false)
    (ids : s.EventIdsUnique) :
    limit < (t.remaining filters s).length ↔ ∃ e ∈ s.normalizedEvents, filters.accepts e = true ∧
      ∀ item ∈ t.items ++ ((t.remaining filters s).take limit).map EventResponse.modelValidate,
        e.position < item.position := by
  have split := List.take_append_drop limit (t.remaining filters s)
  have ascending : Keyset.Ascending NormalizedEvent.place
      ((t.remaining filters s).take limit ++ (t.remaining filters s).drop limit) :=
    split.symm ▸ listing_ascending ids
  constructor
  · intro longer
    obtain ⟨e, he⟩ := List.exists_mem_of_ne_nil ((t.remaining filters s).drop limit)
      (fun none => absurd (List.drop_eq_nil_iff.mp none) (not_le.mpr longer))
    obtain ⟨member, accepted, past⟩ := mem_remaining.mp (List.mem_of_mem_drop he)
    refine ⟨e, member, accepted, fun item hi => ?_⟩
    rcases List.mem_append.mp hi with old | new
    · exact (h.passed unfinished _).mp past item old
    · obtain ⟨row, hr, rfl⟩ := List.mem_map.mp new
      exact OrderDual.toDual_lt_toDual.mp ((List.pairwise_append.mp ascending).2.2 row hr e he)
  · rintro ⟨e, he, accepted, below⟩
    have past : Keyset.Past t.place e.place :=
      (h.passed unfinished _).mpr (fun item hi => below item (List.mem_append_left _ hi))
    have here : e ∈ t.remaining filters s := mem_remaining.mpr ⟨he, accepted, past⟩
    by_contra short
    rw [List.take_of_length_le (not_lt.mp short)] at below
    exact lt_irrefl _ (below _ (List.mem_append_right _ (List.mem_map_of_mem here)))

end Follows

/-- The commit that a party stores. -/
def ownCommit : Party → NormalizedEventCreate
  | .first => sampleCommit "first"
  | .second => { sampleCommit "second" with externalId := "def456" }
  | .third => { sampleCommit "third" with externalId := "0789ab", timestamp := 1 }

section Runs

variable [Fintype ι] [DecidableEq ι] {filters : EventFilterParams} {shared : State ι}
variable {batch : ι → List NormalizedEventCreate} {changedBy : ι → Option String}

theorem ListingRun.follows (ids : shared.store.EventIdsUnique)
    {st : Cluster Answer Exn Store Write World ι (List NormalizedEvent)} {t : Traversal}
    (run : ListingRun filters
      (Cluster.start shared (fun i => upsertTransaction (batch i) (changedBy i))) st t) :
    Follows filters t := by
  induction run with
  | start => exact .initial filters
  | write _ _ ih => exact ih
  | page before unfinished positive _ completes ih =>
      rw [listEvents_completes completes]
      exact ih.receive unfinished (upsertTransactions_ids ids before.writers) positive

/-- Whatever upserts are committed between the pages: the items go down strictly by
timestamp and id; once `has_more` is false, every event that has matched with the same
timestamp on each page was returned exactly once; and `has_more` of the next page tells
whether the listing goes on after it. -/
theorem listing_traversal (ids : shared.store.EventIdsUnique)
    {st : Cluster Answer Exn Store Write World ι (List NormalizedEvent)} {t : Traversal}
    (run : ListingRun filters
      (Cluster.start shared (fun i => upsertTransaction (batch i) (changedBy i))) st t) :
    t.items.Pairwise (fun a b => b.position < a.position) ∧
      (∀ item ∈ t.items, ∃ s ∈ t.reads, ∃ e ∈ s.normalizedEvents,
        filters.accepts e = true ∧ EventResponse.modelValidate e = item) ∧
      (t.finished = true → ∀ id ts, (∀ s ∈ t.reads, Listed filters id ts s) →
        (t.items.map EventResponse.id).count id = 1) ∧
      ∀ (i : ι) (limit : Nat) (r : PaginatedResponse) (τ : State ι), t.finished = false →
        1 ≤ limit → limit ≤ 100 →
          postgres.Completes i
            (NormalizedEventService.listEvents { filters with cursor := t.cursor } limit)
            st.shared r τ →
              r.nextCursor.isSome = r.hasMore ∧
              (r.hasMore = true ↔ ∃ e ∈ st.shared.store.normalizedEvents,
                filters.accepts e = true ∧
                  ∀ item ∈ t.items ++ r.items, e.position < item.position) := by
  have follows := run.follows ids
  refine ⟨follows.descending, follows.sound,
    fun finished _ _ listed => follows.once finished listed, ?_⟩
  intro i limit r τ unfinished positive _ completes
  have current := upsertTransactions_ids ids run.writers
  rw [listEvents_completes completes]
  refine ⟨listingPage_nextCursor_isSome positive, listingPage_hasMore.trans ?_⟩
  rw [listingPage_items]
  exact follows.further_iff unfinished current

theorem ListingRun.reach {filters : EventFilterParams}
    {start st next : Cluster Answer Exn Store Write World ι α} {t : Traversal}
    (run : ListingRun filters start st t) (steps : Cluster.Reachable postgres st next) :
    ListingRun filters start next t := by
  induction steps with
  | refl => exact run
  | tail _ _ step ih => exact ih.write step

end Runs

/-- Three transactions, each of which stores a commit of its own. -/
def storingThree : Cluster Answer Exn Store Write World Party (List NormalizedEvent) :=
  Cluster.start ⟨{}, ∅, []⟩ (fun i => upsertTransaction [ownCommit i] none)

/-- Two events share their timestamp; the newest one is stored between the two pages. -/
def twoPages : Option (Cluster Answer Exn Store Write World Party (List NormalizedEvent) ×
    Traversal) := do
  let st ← storingThree.play postgres (fun _ _ _ => True)
    ((createScript 10).map (Prod.mk .first) ++ (createScript 20).map (Prod.mk .second))
  let (r, _) ← postgres.outcome .first [.step .none] (NormalizedEventService.listEvents {} 1)
    st.shared
  let t := Traversal.receive {} r st.shared.store
  guard (t.finished = false)
  let next ← st.play postgres (fun _ _ _ => True) ((createScript 30).map (Prod.mk .third))
  let (r', _) ← postgres.outcome .first [.step .none]
    (NormalizedEventService.listEvents { cursor := t.cursor } 100) next.shared
  return (next, t.receive r' next.shared.store)

theorem listingRun_of_twoPages
    {st : Cluster Answer Exn Store Write World Party (List NormalizedEvent)} {t : Traversal}
    (h : twoPages = some (st, t)) : ListingRun {} storingThree st t := by
  simp only [twoPages, Option.bind_eq_bind, Option.bind_eq_some_iff, Prod.exists] at h
  obtain ⟨mid, writes, r, τ, first, _, unfinished, next, more, r', τ', second, h⟩ := h
  cases h
  have begun : ListingRun {} storingThree storingThree {} := .start
  have paged := (begun.reach (Cluster.run_of_play writes)).page rfl (by decide) (by decide)
    (Engine.completes_of_outcome first)
  have unread : (Traversal.receive {} r mid.shared.store).finished = false := by
    by_contra done
    rw [guard, if_neg done] at unfinished
    cases unfinished
  exact (paged.reach (Cluster.run_of_play more)).page unread (by decide) (by decide)
    (Engine.completes_of_outcome second)

/-- Both pages are returned in order, and the event that came in between is not on them. -/
theorem listing_traversal_two : ∃ st t, ListingRun {} storingThree st t ∧ t.finished = true ∧
    t.items.map EventResponse.id = [20, 10] ∧
      t.items.Pairwise (fun a b => b.position < a.position) ∧
      (t.items.map EventResponse.id).count 10 = 1 := by
  have shape : twoPages.map (fun x => decide (x.2.finished = true ∧
      x.2.items.map EventResponse.id = [20, 10] ∧ ∀ s ∈ x.2.reads,
        ∃ e ∈ s.normalizedEvents.rows, e.id = 10 ∧ e.timestamp = 0 ∧
          EventFilterParams.accepts {} e = true)) = some true := by decide +kernel
  obtain ⟨⟨st, t⟩, run, facts⟩ := Option.map_eq_some_iff.mp shape
  obtain ⟨finished, items, listed⟩ := of_decide_eq_true facts
  have reached := listingRun_of_twoPages run
  have ids : (∅ : Store).EventIdsUnique := fun _ hx => (List.not_mem_nil hx).elim
  obtain ⟨descending, _, once, _⟩ := listing_traversal ids reached
  exact ⟨st, t, reached, finished, items, descending, once finished 10 0 listed⟩

end OmniSync
