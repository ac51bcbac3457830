import OmniSync.Dlq.Service

/-!
# The background retrier

A scan sends the tasks of the due entries to the broker again and accounts for each.
The accounting is one transaction; the sent tasks are not part of it.
-/

namespace OmniSync

open Txn

/-- Send a task; a broker hiccup leaves the entry for the next scan. -/
def dispatch (failed : FailedEvent) : Tx Bool :=
  Prog.tryCatch
    (do
      let _ ← Db.sendTask failed.operation
      return true)
    (fun _ => return false)

/-- One iteration of the loop over the due entries. -/
def retryEntry (settings : Settings) (dispatched : Nat) (failed : FailedEvent) : Tx Nat := do
  if ← dispatch failed then
    markRetryScheduled settings failed
    return dispatched + 1
  else
    return dispatched

/-- Re-dispatch every dead-letter entry whose backoff window has elapsed. -/
def processDueRetries (settings : Settings) : Tx Nat := do
  let due ← fetchDueRetries settings none none
  due.foldlM (retryEntry settings) 0

/-- Background retrier for the dead-letter queue. -/
def retryFailedEvents (settings : Settings) : Tx Nat := do
  if !settings.DLQ_RETRY_ENABLED then
    return 0
  let dispatched ← processDueRetries settings
  Prog.commitWork
  return dispatched

end OmniSync
