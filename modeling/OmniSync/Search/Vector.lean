import OmniSync.Outbox.Service

/-!
# The vector index

An event has one point, whose identifier is derived from the event's id: indexing
again replaces the point. A search returns the payloads of the points that it finds.
-/

namespace OmniSync

open Txn

/-- Answers whether the event was indexed; a failure is logged and not raised. -/
def indexEvent (eventId : Uuid) (content source eventType : String) : Tx Bool := do
  let client ← Db.qdrantClient
  if !client then
    return false
  Prog.tryCatch
    (do
      Db.qdrantUpsert eventId
        { embedded := content
          source := source
          eventType := eventType
          content := slice content 1000 }
      return true)
    (fun _ => return false)

/-- What a search is narrowed to. -/
structure QueryFilter where
  source : Option String := none
  eventType : Option String := none
  deriving DecidableEq

/-- `if value: must_filters.append(..)`. -/
def queryFilter (source eventType : Option String) : QueryFilter where
  source := source.filter (fun value => decide (value ≠ ""))
  eventType := eventType.filter (fun value => decide (value ≠ ""))

/-- The payload of the point matches. -/
def QueryFilter.accepts (filter : QueryFilter) (point : IndexPoint) : Bool :=
  filter.source.all (fun value => decide (point.source = value)) &&
    filter.eventType.all (fun value => decide (point.eventType = value))

/-- A point that a search has found, and how well it fits. -/
structure Hit (Score : Type) where
  eventId : Uuid
  point : IndexPoint
  score : Score

structure SearchResult (Score : Type) where
  eventId : Uuid
  source : String
  eventType : String
  content : String
  score : Score
  deriving DecidableEq

/-- What the code uses of Qdrant: the hits for a text, or an error. -/
structure QdrantLib (Score : Type) where
  search : (Uuid → Option IndexPoint) → String → QueryFilter → Nat →
    Except Exn (List (Hit Score))

/-- An error is logged, and nothing is found then. -/
def searchEvents {Score : Type} (connected : Bool) (lib : QdrantLib Score)
    (index : Uuid → Option IndexPoint) (query : String) (source eventType : Option String)
    (limit : Nat) : List (SearchResult Score) :=
  if !connected then []
  else match lib.search index query (queryFilter source eventType) limit with
    | .error _ => []
    | .ok hits => hits.map (fun hit =>
        { eventId := hit.eventId
          source := hit.point.source
          eventType := hit.point.eventType
          content := hit.point.content
          score := hit.score })

end OmniSync
