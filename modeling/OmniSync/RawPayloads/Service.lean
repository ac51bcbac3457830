import OmniSync.Database

/-!
# Raw payloads

Every item is kept as it was received, once for each source and content. A large one is
kept in the object store, unless the object store fails.
-/

namespace OmniSync

open Txn

/-- Put a payload into the object store and return its address, if that succeeds. -/
def offloadPayload (rt : Runtime) (settings : Settings) (source correlationId : String)
    (payload : Json) : Tx (Option String) :=
  Prog.tryCatch
    (do
      let now ← Db.utcNow
      let key := source ++ "/" ++ correlationId ++ "/" ++ rt.isoformat now ++ ".json"
      Db.putObject key payload
      return some (settings.S3_ENDPOINT_URL ++ "/" ++ settings.S3_BUCKET ++ "/" ++ key))
    (fun _ => return none)

/-- The address of a payload that is offloaded because of its size. -/
def offloadLarge (rt : Runtime) (settings : Settings) (source correlationId : String)
    (payload : Json) : Tx (Option String) :=
  if settings.S3_PAYLOAD_THRESHOLD < rt.encodedSize payload then
    offloadPayload rt settings source correlationId payload
  else pure none

def saveRawPayload (rt : Runtime) (settings : Settings) (source : String) (payload : Json)
    (correlationId : String) : Tx Uuid := do
  let contentHash := rt.canonicalHash payload
  match ← Db.selectRawPayload source contentHash with
  | some existing => return existing
  | none =>
      let storageUrl ← offloadLarge rt settings source correlationId (rt.jsonSafe payload)
      Db.insertRawPayload (fun id receivedAt =>
        { id := id
          source := source
          payload := if storageUrl.isSome then none else some (rt.jsonSafe payload)
          contentHash := some contentHash
          correlationId := correlationId
          receivedAt := receivedAt
          storageUrl := storageUrl })

end OmniSync
