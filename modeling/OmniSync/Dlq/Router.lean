import OmniSync.Dlq.Service

/-!
# Manual replay

An operator may send the task of any entry again. The entry is resolved by that.
-/

namespace OmniSync

open Txn

structure ReplayResponse where
  status : String
  failedEventId : Uuid
  taskId : String
  deriving DecidableEq, Repr

def replayFailedEvent (failedEventId : Uuid) : Tx ReplayResponse := do
  match ← getFailed failedEventId with
  | none => throw ⟨"HTTPException", "404: Failed event not found"⟩
  | some failed =>
      let taskId ← Db.sendTask failed.operation
      Db.updateFailed failed.id { replayAttempts := some (failed.replayAttempts + 1) }
      markResolved failed
      Prog.commitWork
      return ⟨"replayed", failedEventId, taskId⟩

end OmniSync
