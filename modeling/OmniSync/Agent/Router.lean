import OmniSync.Database.Verification
import OmniSync.Outbox.Service

/-!
# The agent-facing change feed

One poll is one query. A cursor is the position that `decode_cursor` reads from the
text that a client sends; `encode_cursor` writes the position of the last item.
-/

namespace OmniSync

open Txn

variable {ι : Type}

structure ChangeItem where
  id : Uuid
  aggregateType : String
  aggregateId : Uuid
  eventType : String
  payload : OutboxPayload
  createdAt : Time
  deriving DecidableEq, Repr

def ChangeItem.modelValidate (row : OutboxEvent) : ChangeItem :=
  { id := row.id
    aggregateType := row.aggregateType
    aggregateId := row.aggregateId
    eventType := row.eventType
    payload := row.payload
    createdAt := row.createdAt }

structure ChangeFeedResponse where
  items : List ChangeItem
  nextCursor : Option (Time × Uuid) := none
  hasMore : Bool
  deriving DecidableEq, Repr

/-- The response for the rows of one query, which has asked for one row more than
`limit`. -/
def ChangeFeedResponse.ofRows (rows : List OutboxEvent) (cursor : Option (Time × Uuid))
    (limit : Nat) : ChangeFeedResponse :=
  { items := (rows.take limit).map ChangeItem.modelValidate
    nextCursor := ((rows.take limit).getLast?.map (fun row => (row.createdAt, row.id))).or cursor
    hasMore := decide (limit < rows.length) }

/-- Incremental change feed for downstream consumers. -/
def pollChanges (cursor : Option (Time × Uuid)) (limit : Nat) : Tx ChangeFeedResponse := do
  let rows ← fetchChanges cursor (limit + 1)
  return ChangeFeedResponse.ofRows rows cursor limit

/-- The state of the `event_generator` of `stream_changes`: its cursor, the rows that are
still to be sent, and what it has sent. -/
structure EventGenerator where
  after : Option (Time × Uuid) := none
  rows : List OutboxEvent := []
  sent : List ChangeItem := []

/-- The query of one round of the stream. -/
def EventGenerator.fetch (g : EventGenerator) : Tx (List OutboxEvent) := fetchChanges g.after 100

/-- One iteration of the loop over the rows of a round. -/
def EventGenerator.send (g : EventGenerator) (row : OutboxEvent) (rest : List OutboxEvent) :
    EventGenerator :=
  { after := some (row.createdAt, row.id)
    rows := rest
    sent := g.sent ++ [ChangeItem.modelValidate row] }

/-- What a poll answers when `s` is committed. -/
def Store.page (s : Store) (cursor : Option (Time × Uuid)) (limit : Nat) : ChangeFeedResponse :=
  ChangeFeedResponse.ofRows ((s.changes cursor).take (limit + 1)) cursor limit

theorem wp_selectChanges {P : Protocol postgres ι} (hosts : Hosts P) {i : ι} {σ : State ι}
    {ws : List Write} {after : Option (Time × Uuid)} {limit : Nat}
    {Q : Post Exn Store Write World ι (List OutboxEvent)}
    (h : ∀ τ, P.rely ws σ τ → P.inv τ → (∀ e, Q (.error e) τ ws) ∧
      Q (.ok (((postgres.view τ.store ws).changes after).take limit)) τ ws) :
    wp P i (Db.selectChanges after limit) Q σ ws :=
  wp_query hosts (fun choice _ _ _ => by cases choice <;> rfl) h

/-- A poll that returns has read one page of the feed. -/
theorem pollChanges_completes {i : ι} {cursor : Option (Time × Uuid)} {limit : Nat}
    {σ τ : State ι} {r : ChangeFeedResponse}
    (h : postgres.Completes i (pollChanges cursor limit) σ r τ) :
    r = σ.store.page cursor limit :=
  query_completes (s := .selectChanges cursor (limit + 1))
    (f := fun s => (s.changes cursor).take (limit + 1)) (fun choice _ _ _ => by cases choice <;> rfl) h

/-- A round of the stream reads the feed after its cursor. -/
theorem fetch_completes {i : ι} {g : EventGenerator} {σ τ : State ι} {rows : List OutboxEvent}
    (h : postgres.Completes i g.fetch σ rows τ) : rows = (σ.store.changes g.after).take 100 := by
  refine (wp_completes reading (Q := fun rows _ => rows = (σ.store.changes g.after).take 100)
    (fun _ _ _ => trivial) (fun same _ => same) trivial ?_ h).2
  refine wp_selectChanges hosts_reading
    (fun υ rely _ => ⟨fun _ _ impossible => (nomatch impossible), ?_⟩)
  rintro _ ⟨⟩
  rw [postgres.view_nil, alone_store rely]

end OmniSync
