import OmniSync.Database

/-!
# Watermarks

The position from which a poller resumes, one for each source and stream.
-/

namespace OmniSync

def getCursor (source : String) (stream : String := "default") : Tx (Option String) := do
  let state ← Db.selectCursor (source, stream)
  return state.bind SyncState.cursor

def setCursor (source : String) (cursor : Option String) (stream : String := "default") :
    Tx Unit := do
  match ← Db.selectCursor (source, stream) with
  | none =>
      let _ ← Db.insertCursor (fun id updatedAt =>
        { id := id
          source := source
          stream := stream
          cursor := cursor
          updatedAt := updatedAt })
  | some state =>
      -- Assigning the value that the row already has issues no UPDATE.
      if state.cursor ≠ cursor then
        Db.updateCursor (source, stream) cursor

end OmniSync
