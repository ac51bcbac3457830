import OmniSync.Data.Table
import OmniSync.Integrations.Schemas

/-!
# The file store

A bucket holds one object for each key, and an upload replaces the object. The client lists
the bucket and skips the objects that are not newer than the watermark.
-/

namespace OmniSync

/-- An object as the store lists it. A key is never empty. -/
structure S3Object where
  key : String
  size : Nat
  etag : String
  lastModified : Time
  named : key ≠ ""
  deriving DecidableEq

/-- The objects, and the time of the last upload. -/
structure Bucket where
  objects : Table S3Object.key := ∅
  now : Time

/-- A timestamp in whole seconds. -/
def wholeSeconds (t : Time) : Time := t / second * second

/-- The bucket after an upload. -/
def Bucket.upload (b : Bucket) (key : String) (named : key ≠ "") (size : Nat) (etag : String)
    (now : Time) : Bucket where
  objects := b.objects.put ⟨key, size, etag, wholeSeconds now, named⟩
  now := now

/-- The key of the object begins with these characters. -/
def S3Object.under (o : S3Object) (start : String) : Bool :=
  start.toList.isPrefixOf o.key.toList

namespace FileStoreClient

/-- The text without the quotes at its ends. -/
def stripQuotes (text : String) : String :=
  let rest := text.toList.dropWhile (fun c => c = '"')
  String.ofList (rest.reverse.dropWhile (fun c => c = '"')).reverse

/-- The dictionary of an object. -/
def entry (lib : DatetimeLib) (o : S3Object) : Json :=
  .obj [("key", .str o.key), ("size", .int o.size), ("etag", .str (stripQuotes o.etag)),
    ("last_modified", .other (lib.str ⟨o.lastModified, some 0⟩) (some o.lastModified))]

/-- The object is not skipped. -/
def newer (since : Option Time) (o : S3Object) : Bool :=
  match since with
  | none => true
  | some since => decide (since < o.lastModified)

def listObjects (lib : DatetimeLib) (b : Bucket) (start : String) (since : Option Time) :
    List Json :=
  ((b.objects.rows.filter (fun o => o.under start)).filter (newer since)).map (entry lib)

end FileStoreClient

namespace FileStoreConnector

/-- `raw.get("last_modified") or datetime.now(UTC)`, where the value is a datetime. -/
def lastModifiedOr (now : Time) : Option Json → Time
  | some (.other _ (some t)) => t
  | _ => now

def normalize (rt : Runtime) (bucket : String) (now : Time) (raw : Json)
    (rawPayloadId : Option Uuid) : Except Exn (Option NormalizedEventCreate) := do
  match ← raw.get? "key" with
  | none => return none
  | some key =>
      if !key.truthy then
        return none
      let lastModified := lastModifiedOr now (← raw.get? "last_modified")
      let size := (← raw.get? "size").getD (.int 0)
      return some
        { externalId := "filestore-" ++ bucket ++ "-" ++ formatted rt key
          source := "filestore"
          authorId := bucket
          authorName := bucket
          content := "File: " ++ formatted rt key ++ " (" ++ formatted rt size ++ " bytes)"
          eventType := "file"
          timestamp := lastModified
          rawPayloadId := rawPayloadId }

/-- The connector of a bucket, whose clock shows `now`. -/
def connector (rt : Runtime) (bucket : String) (now : Time) : Connector where
  source := "filestore"
  normalize := normalize rt bucket now

end FileStoreConnector

end OmniSync
