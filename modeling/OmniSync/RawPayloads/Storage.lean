import OmniSync.Data.LastWrite
import OmniSync.Data.Text
import OmniSync.RawPayloads.Service

/-!
# Loading an offloaded payload

The address of an object is taken apart again when the object is loaded: the endpoint is
removed wherever it occurs, and the first component of what is left is the bucket.
-/

namespace OmniSync

/-- `text.split("/", 1)`: what is before the first slash, and what is behind it. -/
def splitOnce : List Char → List Char × Option (List Char)
  | [] => ([], none)
  | c :: cs =>
      if c = '/' then ([], some cs)
      else (c :: (splitOnce cs).1, (splitOnce cs).2)

/-- What the object store answers for a bucket and a key. -/
abbrev ObjectStore := String → String → Except Exn Json

def getObject (settings : Settings) (s3 : ObjectStore) (url : String) : Except Exn Json :=
  match splitOnce (removeAll (settings.S3_ENDPOINT_URL ++ "/").toList 0 url.toList) with
  | (_, none) => .error ⟨"IndexError", "list index out of range"⟩
  | (bucket, some key) => s3 (String.ofList bucket) (String.ofList key)

/-- The actual payload, from the object store if it was offloaded there. -/
def loadPayloadContent (settings : Settings) (s3 : ObjectStore) (raw : RawPayload) : Option Json :=
  match raw.storageUrl with
  | none => raw.payload
  | some url => if url = "" then raw.payload else (getObject settings s3 url).toOption

theorem loadPayloadContent_database {settings : Settings} {s3 : ObjectStore} {raw : RawPayload}
    (database : raw.storageUrl = none) : loadPayloadContent settings s3 raw = raw.payload := by
  unfold loadPayloadContent
  rw [database]

theorem loadPayloadContent_objectStore {settings : Settings} {s3 : ObjectStore} {raw : RawPayload}
    {url : String} (stored : raw.storageUrl = some url) (address : url ≠ "") :
    loadPayloadContent settings s3 raw = (getObject settings s3 url).toOption := by
  unfold loadPayloadContent
  rw [stored]
  exact if_neg address

/-- The object store returns the last object that was put under a key. -/
def Serves (settings : Settings) (world : World) (s3 : ObjectStore) : Prop :=
  ∀ key body, lastWrite Prod.fst Prod.snd world.objects key = some body →
    s3 settings.S3_BUCKET key = .ok body

/-- The object store as it is. -/
def World.objectStore (world : World) : ObjectStore := fun _ key =>
  match lastWrite Prod.fst Prod.snd world.objects key with
  | some body => .ok body
  | none => .error ⟨"NoSuchKey", key⟩

theorem World.objectStore_serves (settings : Settings) (world : World) :
    Serves settings world world.objectStore := by
  intro key body latest
  unfold World.objectStore
  rw [latest]

/-- The address of an object. -/
def objectUrl (settings : Settings) (key : String) : String :=
  settings.S3_ENDPOINT_URL ++ "/" ++ settings.S3_BUCKET ++ "/" ++ key

section Address

variable {settings : Settings} {s3 : ObjectStore}

theorem splitOnce_append {bucket key : List Char} (free : '/' ∉ bucket) :
    splitOnce (bucket ++ '/' :: key) = (bucket, some key) := by
  induction bucket with
  | nil => rfl
  | cons c cs ih =>
      rw [List.mem_cons, not_or] at free
      rw [List.cons_append, splitOnce, if_neg (Ne.symm free.1), ih free.2]

/-- The object store is asked for the object that was put there. -/
theorem getObject_objectUrl {key : String} (free : '/' ∉ settings.S3_BUCKET.toList)
    (apart : ¬ settings.S3_ENDPOINT_URL.toList <:+: (settings.S3_BUCKET ++ "/" ++ key).toList) :
    getObject settings s3 (objectUrl settings key) = s3 settings.S3_BUCKET key := by
  have address : (objectUrl settings key).toList = (settings.S3_ENDPOINT_URL ++ "/").toList ++
      (settings.S3_BUCKET ++ "/" ++ key).toList := by
    simp only [objectUrl, String.toList_append, List.append_assoc]
  have absent : ¬ (settings.S3_ENDPOINT_URL ++ "/").toList <:+:
      (settings.S3_BUCKET ++ "/" ++ key).toList := by
    rw [String.toList_append]
    exact fun occurs => apart ((List.prefix_append _ _).isInfix.trans occurs)
  have nonempty : (settings.S3_ENDPOINT_URL ++ "/").toList ≠ [] := by
    rw [String.toList_append]
    exact List.append_ne_nil_of_right_ne_nil _ (List.cons_ne_nil _ _)
  have components : (settings.S3_BUCKET ++ "/" ++ key).toList =
      settings.S3_BUCKET.toList ++ '/' :: key.toList := by
    simp only [String.toList_append, List.append_assoc]
    rfl
  unfold getObject
  rw [address, removeAll_append nonempty absent, components, splitOnce_append free]
  dsimp only
  rw [String.ofList_toList, String.ofList_toList]

theorem objectUrl_ne_empty (key : String) : objectUrl settings key ≠ "" := by
  intro empty
  have text : (objectUrl settings key).toList = [] := congrArg String.toList empty
  simp only [objectUrl, String.toList_append] at text
  simp at text

end Address

end OmniSync
