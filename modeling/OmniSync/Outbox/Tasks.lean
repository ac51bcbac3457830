import OmniSync.Search.Vector

/-!
# Publication of the outbox

A pass takes a batch of pending rows, delivers each to the vector index, and records
the outcome on the row. The whole pass is one transaction; the deliveries are not
part of it.
-/

namespace OmniSync

open Txn

/-- Deliver a single outbox event to downstream consumers. -/
def publishOne (outbox : OutboxEvent) : Tx Unit := do
  let indexed ← indexEvent outbox.payload.eventId outbox.payload.content outbox.payload.source
    outbox.payload.eventType
  if !indexed then
    throw ⟨"RuntimeError", "vector index publication failed"⟩

/-- One iteration of the loop over the pending rows. -/
def publishRow (settings : Settings) (published : Nat) (outbox : OutboxEvent) : Tx Nat :=
  Prog.tryCatch
    (do
      publishOne outbox
      markPublished outbox
      return published + 1)
    (fun e => do
      markFailed settings outbox e.message
      return published)

def publishOutbox (settings : Settings) : Tx Nat := do
  let pending ← fetchPending settings none
  let published ← pending.foldlM (publishRow settings) 0
  Prog.commitWork
  return published

end OmniSync
