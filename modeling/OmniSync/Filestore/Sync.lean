import OmniSync.Filestore.Service
import OmniSync.Integrations.Watermark

/-!
# Polling the file store

Uploads and polls in any order. A poll stores the events of the objects that it lists, so it
overlooks an object exactly when the object is not newer than the watermark and its event is
not current. The watermark is a time in whole seconds, so an object that is uploaded after a
poll in the second of the newest object is overlooked.
-/

namespace OmniSync

open Txn

/-- What happens to the bucket and the database. -/
inductive FileEvent where
  | upload (key : String) (named : key ≠ "") (size : Nat) (etag : String) (now : Time)
  | poll (requested : Option String) (now : Time)

/-- A bucket that is polled, and the objects that the connector is configured for. -/
structure FileSource where
  bucket : String
  start : String

namespace FileSource

variable (S : FileSource) (lib : DatetimeLib) (rt : Runtime) (settings : Settings)

/-- The listing of the bucket, as the store answers it. -/
def remote (b : Bucket) : Remote
  | .fetch _ since => some (FileStoreClient.listObjects lib b S.start since)
  | _ => none

/-- The registry, with the connector of the bucket. -/
def runtime (now : Time) : Runtime :=
  { rt with getConnector := fun _ => .ok (FileStoreConnector.connector rt S.bucket now) }

/-- An upload, at a time that is not before the last one, or a poll that returns. -/
def Steps (s : Bucket × State Unit) (event : FileEvent) (t : Bucket × State Unit) : Prop :=
  match event with
  | .upload key named size etag now =>
      s.1.now ≤ now ∧ t = (s.1.upload key named size etag now, s.2)
  | .poll requested now =>
      t.1 = s.1 ∧ ∃ n, postgres.Completes ()
        (runConnectorSync (S.runtime rt now) settings "filestore" requested)
        (s.2.facing (S.remote lib s.1)) n t.2

/-- The key of the event of an object. -/
def eventKey (o : S3Object) : String × String :=
  ("filestore", "filestore-" ++ S.bucket ++ "-" ++ o.key)

/-- The object has an event that reflects its key and its size. -/
def Reflected (s : Store) (o : S3Object) : Prop :=
  ∃ row, s.normalizedEvents.find (S.eventKey o) = some row ∧
    row.content = "File: " ++ o.key ++ " (" ++ toString o.size ++ " bytes)"

/-- All the objects that the connector is configured for have current events. -/
def Complete (b : Bucket) (s : Store) : Prop :=
  ∀ o ∈ b.objects, o.under S.start = true → S.Reflected s o

/-- The object is newer than the watermark. -/
def Newer (s : Store) (o : S3Object) : Prop :=
  ∀ since, resumption rt (s.cursorOf "filestore") = .ok since →
    FileStoreClient.newer since o = true

/-- Every object is newer than the watermark or has a current event. -/
def NoneOverlooked (b : Bucket) (s : Store) : Prop :=
  ∀ o ∈ b.objects, o.under S.start = true → S.Reflected s o ∨ Newer rt s o

end FileSource

section Poll

variable {S : FileSource} {lib : DatetimeLib} {rt : Runtime} {settings : Settings}
variable {b : Bucket} {σ τ : State Unit} {now : Time} {requested : Option String}

/-- The event of an object. -/
def FileSource.eventOf (S : FileSource) (o : S3Object) (id : Uuid) : NormalizedEventCreate where
  externalId := "filestore-" ++ S.bucket ++ "-" ++ o.key
  source := "filestore"
  authorId := S.bucket
  authorName := S.bucket
  content := "File: " ++ o.key ++ " (" ++ toString o.size ++ " bytes)"
  eventType := "file"
  timestamp := o.lastModified
  rawPayloadId := some id

theorem normalize_entry (o : S3Object) (id : Uuid) :
    FileStoreConnector.normalize rt S.bucket now (FileStoreClient.entry lib o) (some id) =
      .ok (some (S.eventOf o id)) := by
  have truthy : (Json.str o.key).truthy = true := by simp [Json.truthy, o.named]
  change (if (!(Json.str o.key).truthy) = true then _ else _) = _
  rw [truthy]
  rfl

theorem eventKey_inj {o o' : S3Object} (h : S.eventKey o = S.eventKey o') : o.key = o'.key := by
  have same := (Prod.mk.inj h).2
  simpa using same

theorem mem_listObjects {start : String} {since : Option Time} {raw : Json} :
    raw ∈ FileStoreClient.listObjects lib b start since ↔ ∃ o ∈ b.objects, o.under start = true ∧
      FileStoreClient.newer since o = true ∧ FileStoreClient.entry lib o = raw := by
  simp only [FileStoreClient.listObjects, List.mem_map, List.mem_filter, Table.mem_def]
  constructor
  · rintro ⟨o, ⟨⟨ho, below⟩, newer⟩, rfl⟩
    exact ⟨o, ho, below, newer, rfl⟩
  · rintro ⟨o, ho, below, newer, rfl⟩
    exact ⟨o, ⟨⟨ho, below⟩, newer⟩, rfl⟩

/-- What a poll leaves of the events. -/
theorem reflected_of_poll {n : Nat} (unique : σ.store.EventIdsUnique)
    (h : postgres.Completes () (runConnectorSync (S.runtime rt now) settings "filestore" requested)
      (σ.facing (S.remote lib b)) n τ) :
    τ.store.EventIdsUnique ∧ ∃ since, resumption rt (σ.store.cursorOf "filestore") = .ok since ∧
      ∀ o ∈ b.objects, o.under S.start = true →
        (S.Reflected τ.store o ↔
          S.Reflected σ.store o ∨ FileStoreClient.newer since o = true) := by
  obtain ⟨_, since, items, batch, _, ⟨⟩, resumes, answered, _, normalized, ingested⟩ :=
    runConnectorSync_imports (facing_ids unique) h
  obtain rfl : items = FileStoreClient.listObjects lib b S.start since := answered _ rfl
  refine ⟨ingested.ids, since, resumes, fun o ho below => ?_⟩
  -- An event of the batch that has the key of an object is the event of this object.
  have event : ∀ e ∈ batch, e.key = S.eventKey o →
      FileStoreClient.newer since o = true ∧ ∃ id, e = S.eventOf o id := by
    intro e he same
    obtain ⟨raw, hr, id, made⟩ := normalized.exists_item he
    obtain ⟨o', ho', _, newer, rfl⟩ := mem_listObjects.mp hr
    have value : some (S.eventOf o' id) = some e :=
      Except.ok.inj ((normalize_entry o' id).symm.trans made)
    cases value
    obtain rfl : o' = o := Table.eq_of_key_eq ho' ho (eventKey_inj same)
    exact ⟨newer, id, rfl⟩
  by_cases newer : FileStoreClient.newer since o = true
  · refine ⟨fun _ => .inr newer, fun _ => ?_⟩
    obtain ⟨result, ⟨id, made⟩, mem⟩ :=
      normalized.exists_event (mem_listObjects.mpr ⟨o, ho, below, newer, rfl⟩)
    have value : some (S.eventOf o id) = result :=
      Except.ok.inj ((normalize_entry o id).symm.trans made)
    have known : S.eventKey o ∈ (deduped batch).map NormalizedEventCreate.key :=
      mem_deduped_key.mpr (List.mem_map.mpr ⟨_, mem _ value.symm, rfl⟩)
    obtain ⟨e, he, same⟩ := List.mem_map.mp known
    obtain ⟨_, id', rfl⟩ := event e (mem_of_mem_deduped he) same
    obtain ⟨row, found, holds⟩ := ingested.stored _ he
    exact ⟨row, found, holds.content⟩
  · have untouched : τ.store.normalizedEvents.find (S.eventKey o) =
        σ.store.normalizedEvents.find (S.eventKey o) := by
      refine ingested.untouched _ (fun known => newer ?_)
      obtain ⟨e, he, same⟩ := List.mem_map.mp known
      exact (event e he same).1
    unfold FileSource.Reflected
    rw [untouched]
    exact ⟨.inl, fun now => now.resolve_right newer⟩

end Poll

section Run

variable {S : FileSource} {lib : DatetimeLib} {rt : Runtime} {settings : Settings}
variable {start s t : Bucket × State Unit} {event : FileEvent}

/-- An upload does not touch the database. -/
theorem FileSource.Steps.ids (unique : s.2.store.EventIdsUnique)
    (h : S.Steps lib rt settings s event t) : t.2.store.EventIdsUnique := by
  cases event with
  | upload key named size etag now =>
      obtain ⟨_, rfl⟩ := h
      exact unique
  | poll requested now =>
      obtain ⟨_, n, run⟩ := h
      exact (reflected_of_poll unique run).1

/-- A poll is complete if and only if it overlooks nothing. -/
theorem FileSource.Steps.complete_iff {requested : Option String} {now : Time}
    (unique : s.2.store.EventIdsUnique) (h : S.Steps lib rt settings s (.poll requested now) t) :
    S.Complete t.1 t.2.store ↔ S.NoneOverlooked rt s.1 s.2.store := by
  obtain ⟨same, n, run⟩ := h
  obtain ⟨_, since, resumes, each⟩ := reflected_of_poll unique run
  rw [same]
  refine forall_congr' (fun o => forall_congr' (fun ho => forall_congr' (fun below => ?_)))
  rw [each o ho below]
  refine or_congr_right ⟨fun newer since' resumes' => ?_, fun newer => newer since resumes⟩
  cases resumes.symm.trans resumes'
  exact newer

/-- Every upload of an object is later than the watermark, counted in whole seconds. -/
def FileEvent.Timely (S : FileSource) (rt : Runtime) (s : Store) : FileEvent → Prop
  | .upload key named size etag now =>
      (S3Object.mk key size etag (wholeSeconds now) named).under S.start = true →
        FileSource.Newer rt s ⟨key, size, etag, wholeSeconds now, named⟩
  | .poll _ _ => True

theorem FileSource.Steps.noneOverlooked (unique : s.2.store.EventIdsUnique)
    (before : S.NoneOverlooked rt s.1 s.2.store) (h : S.Steps lib rt settings s event t)
    (timely : event.Timely S rt s.2.store) : S.NoneOverlooked rt t.1 t.2.store := by
  cases event with
  | poll requested now =>
      exact fun o ho below => .inl ((h.complete_iff unique).mpr before o ho below)
  | upload key named size etag now =>
      obtain ⟨_, rfl⟩ := h
      intro o ho below
      rcases Table.mem_put.mp ho with rfl | ⟨old, _⟩
      · exact .inr (timely below)
      · exact before o old below

/-- The ids are unique, and nothing would be overlooked. -/
def FileSource.Tracked (S : FileSource) (rt : Runtime) (s : Bucket × State Unit) : Prop :=
  s.2.store.EventIdsUnique ∧ S.NoneOverlooked rt s.1 s.2.store

/-- A poll is complete if and only if, when it lists the bucket, every object is newer than the
watermark or has a current event. This is so in every poll of a run in which every object is
uploaded in a later second than the watermark. -/
theorem polls_complete {steps : List (Taken (Bucket × State Unit) FileEvent)}
    (unique : start.2.store.EventIdsUnique)
    (run : Trace (S.Steps lib rt settings) start steps t) :
    (∀ x ∈ steps, ∀ requested now, x.label = .poll requested now →
      (S.Complete x.before.1 x.after.2.store ↔ S.NoneOverlooked rt x.before.1 x.before.2.store)) ∧
    (S.NoneOverlooked rt start.1 start.2.store →
      (∀ x ∈ steps, x.label.Timely S rt x.before.2.store) →
        ∀ x ∈ steps, ∀ requested now, x.label = .poll requested now →
          S.Complete x.before.1 x.after.2.store) := by
  have polls : ∀ x ∈ steps, ∀ requested now, x.label = .poll requested now →
      (S.Complete x.before.1 x.after.2.store ↔
        S.NoneOverlooked rt x.before.1 x.before.2.store) := by
    refine run.forall_taken unique (fun unique taken => taken.ids unique) ?_
    rintro s l t unique taken requested now rfl
    rw [← taken.complete_iff unique, ← taken.1]
  refine ⟨polls, fun initially timely x hx requested now poll => ?_⟩
  have kept : ∀ {s event t}, S.Tracked rt s → S.Steps lib rt settings s event t →
      event.Timely S rt s.2.store → S.Tracked rt t :=
    fun before taken timely => ⟨taken.ids before.1, taken.noneOverlooked before.1 before.2 timely⟩
  have initial : S.Tracked rt start := ⟨unique, initially⟩
  obtain ⟨_, each⟩ := run.forall_of_met initial kept timely
  exact (polls x hx requested now poll).mpr (each x hx).1.2

end Run

section Example

/-- Five seconds into a day. -/
def fiveSeconds : Time := (may 1).wall + 5 * second

def sixSeconds : Time := (may 1).wall + 6 * second

def fileDays : DatetimeLib :=
  calendar [(⟨fiveSeconds, some 0⟩, "2026-05-01T00:00:05+00:00"),
    (⟨sixSeconds, some 0⟩, "2026-05-01T00:00:06+00:00")]

def fileRuntime : Runtime :=
  { calendarRuntime fileDays notesRuntime with
    encodedSize := fun _ => 82
    canonicalHash := fun raw =>
      match raw.get? "key" with
      | .ok (some (.str "a")) =>
          "fc41b622675eaae0f2d136fa08d6dfa928d20a52fffd358902b09fd9963d449b"
      | .ok (some (.str "b")) =>
          "ef77c2d078878b656397ba548422d5af097443b2ed55e0aa91d48939574eb9a4"
      | _ => "" }

/-- A bucket of documents. -/
def docs : FileSource := ⟨"docs", ""⟩

/-- The bucket after the first upload, and after the second one, half a second later. -/
def firstUpload : Bucket :=
  (Bucket.mk ∅ 0).upload "a" (by decide) 1 "e" (fiveSeconds + 200000)

def secondUpload : Bucket := firstUpload.upload "b" (by decide) 1 "f" (fiveSeconds + 700000)

def firstPoll : Option (Nat × State Unit) :=
  postgres.outcome ()
    [.step (.text "c"), .step (.draw 1 0), .step .none, .step .none, .step (.items []),
      .step .none, .step (.draw 2 0), .step (.time 0), .step .none, .step (.draw 3 0), .step .none,
      .step .none, .step .none, .step (.draw 4 0), .step (.draws [(5, 0)]), .step .none,
      .step (.draw 6 0), .step .none, .step .none, .step .none]
    (runConnectorSync (docs.runtime fileRuntime 0) {} "filestore" none)
    (State.facing ⟨{}, ∅, []⟩ (docs.remote fileDays firstUpload))

def secondPoll : Option (Nat × State Unit) :=
  firstPoll.bind (fun x => postgres.outcome ()
    [.step (.text "d"), .step (.draw 7 0), .step .none, .step .none, .step (.items []),
      .step .none, .step .none, .step .none]
    (runConnectorSync (docs.runtime fileRuntime 0) {} "filestore" none)
    (x.2.facing (docs.remote fileDays secondUpload)))

/-- The bucket after the first upload, and after one in the next second. -/
def nextUpload : Bucket := firstUpload.upload "b" (by decide) 1 "f" (fiveSeconds + 1300000)

def nextPoll : Option (Nat × State Unit) :=
  firstPoll.bind (fun x => postgres.outcome ()
    [.step (.text "d"), .step (.draw 11 0), .step .none, .step .none, .step (.items []),
      .step .none, .step (.draw 12 0), .step (.time 0), .step .none, .step (.draw 13 0),
      .step .none, .step .none, .step .none, .step (.draw 14 0), .step (.draws [(15, 0)]),
      .step .none, .step (.time 0), .step .none, .step .none, .step .none]
    (runConnectorSync (docs.runtime fileRuntime 0) {} "filestore" none)
    (x.2.facing (docs.remote fileDays nextUpload)))

/-- An object is uploaded in a later second than the stored watermark, and the second poll is
complete. -/
theorem polls_complete_twice : ∃ υ φ, firstPoll.map Prod.snd = some υ ∧
    υ.store.cursorOf "filestore" = some "2026-05-01T00:00:05+00:00" ∧
      nextPoll.map Prod.snd = some φ ∧ docs.Complete nextUpload φ.store := by
  have shape : nextPoll.map (fun x => x.1) = some 1 := by decide +kernel
  have stored : firstPoll.map (fun x => x.2.store.cursorOf "filestore") =
      some (some "2026-05-01T00:00:05+00:00") := by decide +kernel
  obtain ⟨⟨m, φ⟩, second, _⟩ := Option.map_eq_some_iff.mp shape
  obtain ⟨⟨n, υ⟩, first, cursor⟩ := Option.map_eq_some_iff.mp stored
  have returned := second
  rw [nextPoll, first, Option.bind_some] at second
  have unique : (⟨{}, ∅, []⟩ : State Unit).store.EventIdsUnique :=
    fun x hx => (List.not_mem_nil hx).elim
  have upload : docs.Steps fileDays fileRuntime {} (⟨∅, 0⟩, ⟨{}, ∅, []⟩)
      (.upload "a" (by decide) 1 "e" (fiveSeconds + 200000)) (firstUpload, ⟨{}, ∅, []⟩) :=
    ⟨by decide, rfl⟩
  have poll : docs.Steps fileDays fileRuntime {} (firstUpload, ⟨{}, ∅, []⟩) (.poll none 0)
      (firstUpload, υ) := ⟨rfl, n, Engine.completes_of_outcome first⟩
  have later : firstUpload.now ≤ fiveSeconds + 1300000 := by decide
  have upload' : docs.Steps fileDays fileRuntime {} (firstUpload, υ)
      (.upload "b" (by decide) 1 "f" (fiveSeconds + 1300000)) (nextUpload, υ) := ⟨later, rfl⟩
  have poll' : docs.Steps fileDays fileRuntime {} (nextUpload, υ) (.poll none 0) (nextUpload, φ) :=
    ⟨rfl, m, Engine.completes_of_outcome second⟩
  have run : Trace (docs.Steps fileDays fileRuntime {}) (⟨∅, 0⟩, ⟨{}, ∅, []⟩)
      [⟨_, _, _⟩, ⟨_, _, _⟩, ⟨_, _, _⟩, ⟨_, _, _⟩] (nextUpload, φ) :=
    .concat (.concat (.concat (.concat .nil upload) poll) upload') poll'
  refine ⟨υ, φ, by rw [first]; rfl, cursor, by rw [returned]; rfl, (polls_complete unique run).2
    ?_ ?_ ⟨(nextUpload, υ), .poll none 0, (nextUpload, φ)⟩ (by simp) none 0 rfl⟩
  · exact fun o ho => (Table.not_mem_empty o ho).elim
  · intro x hx
    simp only [List.mem_cons, List.not_mem_nil, or_false] at hx
    rcases hx with rfl | rfl | rfl | rfl
    · rintro _ since resumes
      cases resumes
      rfl
    · trivial
    · -- The watermark is the second of the first upload, which is over.
      rintro _ since resumes
      have instant : resumption fileRuntime (some "2026-05-01T00:00:05+00:00") =
          .ok (some fiveSeconds) := by decide +kernel
      rw [cursor, instant] at resumes
      cases resumes
      decide
    · trivial

/-- The second upload is overlooked. -/
theorem poll_overlooks : ¬ ∀ steps t,
    Trace (docs.Steps fileDays fileRuntime {}) (⟨∅, 0⟩, ⟨{}, ∅, []⟩) steps t →
      ∀ x ∈ steps, ∀ requested now, x.label = .poll requested now →
        docs.Complete x.before.1 x.after.2.store := by
  intro complete
  have shape : secondPoll.map (fun x => x.2.store.normalizedEvents.find
      ("filestore", "filestore-docs-b")) = some none := by decide +kernel
  obtain ⟨⟨n, φ⟩, second, absent⟩ := Option.map_eq_some_iff.mp shape
  unfold secondPoll at second
  obtain ⟨⟨m, υ⟩, first, second⟩ := Option.bind_eq_some_iff.mp second
  have upload : docs.Steps fileDays fileRuntime {} (⟨∅, 0⟩, ⟨{}, ∅, []⟩)
      (.upload "a" (by decide) 1 "e" (fiveSeconds + 200000)) (firstUpload, ⟨{}, ∅, []⟩) :=
    ⟨by decide, rfl⟩
  have poll : docs.Steps fileDays fileRuntime {} (firstUpload, ⟨{}, ∅, []⟩) (.poll none 0)
      (firstUpload, υ) := ⟨rfl, m, Engine.completes_of_outcome first⟩
  have later : firstUpload.now ≤ fiveSeconds + 700000 := by decide
  have upload' : docs.Steps fileDays fileRuntime {} (firstUpload, υ)
      (.upload "b" (by decide) 1 "f" (fiveSeconds + 700000)) (secondUpload, υ) :=
    ⟨later, rfl⟩
  have poll' : docs.Steps fileDays fileRuntime {} (secondUpload, υ) (.poll none 0)
      (secondUpload, φ) := ⟨rfl, n, Engine.completes_of_outcome second⟩
  have run : Trace (docs.Steps fileDays fileRuntime {}) (⟨∅, 0⟩, ⟨{}, ∅, []⟩)
      [⟨_, _, _⟩, ⟨_, _, _⟩, ⟨_, _, _⟩, ⟨_, _, _⟩] (secondUpload, φ) :=
    .concat (.concat (.concat (.concat .nil upload) poll) upload') poll'
  obtain ⟨row, found, _⟩ := complete _ _ run ⟨(secondUpload, υ), .poll none 0, (secondUpload, φ)⟩
    (by simp) none 0 rfl _ Table.mem_put_self (by decide)
  change φ.store.normalizedEvents.find ("filestore", "filestore-docs-b") = some row at found
  rw [absent] at found
  cases found

end Example

end OmniSync
