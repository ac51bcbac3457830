import OmniSync.Database

/-!
# The log of sync runs

A run is logged as started and is updated when it ends. Both functions take the session
of their caller, or open one of their own, which they commit. A session of their own
never overlaps with pending work of the caller, so it is the same program session here.
-/

namespace OmniSync

open Txn

def createSyncLog (ownsSession : Bool) (correlationId source : String) : Tx Uuid := do
  let id ← Db.insertSyncLog (fun id createdAt =>
    { id := id
      correlationId := correlationId
      source := source
      status := .started
      createdAt := createdAt })
  if ownsSession then
    Prog.commitWork
  return id

def updateSyncLogStatus (ownsSession : Bool) (logId : Uuid) (status : RunStatus)
    (errorText : Option String) : Tx Unit := do
  Db.updateSyncLog logId status errorText
  if ownsSession then
    Prog.commitWork
  else
    Db.flush

end OmniSync
