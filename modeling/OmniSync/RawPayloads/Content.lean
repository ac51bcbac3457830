import Mathlib.Tactic.NormNum.NatLog
import OmniSync.Data.Trace
import OmniSync.RawPayloads.Columns
import OmniSync.RawPayloads.Saving
import OmniSync.Txn.Steps

/-!
# What was saved is what is loaded

A sequence of calls, in any number of transactions. A row is shared by the calls with its
source whose payloads have its canonical JSON. What is loaded for it is the payload of each of
them if the body has been put into the object store. A body in the database may have passed
through `JSONB`, which not every float survives.
-/

namespace OmniSync

open Txn

/-- The functions of the libraries that the payloads go through. -/
structure JsonLib (rt : Runtime) : Prop where
  hash : ∃ sha256 : String → String, ∀ j, rt.canonicalHash j = sha256 j.canonical
  safe : ∀ j, rt.jsonSafe j = j.coerce
  isoformat : Function.Injective rt.isoformat
  slash : ∀ t, '/' ∉ (rt.isoformat t).toList

/-- One call, with its answer. -/
structure SaveCall where
  source : String
  correlationId : String
  payload : Json
  threshold : Nat
  id : Uuid

inductive SaveEvent where
  | call (c : SaveCall)
  | commit

/-- The database and its clock, with the pending work of the session that saves payloads. -/
structure Saving where
  shared : State Unit
  pending : List Write

/-- What the session sees. -/
def Saving.view (x : Saving) : Store := postgres.view x.shared.store x.pending

/-- A call returns, and the clock goes on. -/
def SaveCall.Runs (rt : Runtime) (settings : Settings) (x : Saving) (c : SaveCall) (y : Saving) :
    Prop :=
  ∃ (τ : State Unit) (now now' : Time) (gap : Nat), postgres.Steps ()
    (⟨saveRawPayload rt { settings with S3_PAYLOAD_THRESHOLD := c.threshold } c.source c.payload
      c.correlationId, x.pending⟩, x.shared) (⟨.ret c.id, y.pending⟩, τ) ∧
    τ.world.clock = .shared now gap ∧ now < now' ∧ y.shared = withClock τ (.shared now' gap)

def SaveEvent.Runs (rt : Runtime) (settings : Settings) (x : Saving) (event : SaveEvent)
    (y : Saving) : Prop :=
  match event with
  | .call c => c.Runs rt settings x y
  | .commit => y = ⟨postgres.publish x.shared () x.pending, []⟩

section Keys

variable {rt : Runtime}

/-- What follows the last slash. -/
theorem eq_of_last_slash {a b x y : List Char} (hx : '/' ∉ x) (hy : '/' ∉ y)
    (same : a ++ '/' :: x = b ++ '/' :: y) : x = y := by
  have ends : ∀ l : List Char, ∀ c rest, '/' :: l = c :: rest → ¬ c ≠ '/' := by
    rintro l _ _ ⟨⟩
    exact not_not.mpr rfl
  have flipped : x.reverse ++ '/' :: a.reverse = y.reverse ++ '/' :: b.reverse := by
    simpa using congrArg List.reverse same
  have symbols : ∀ {l : List Char}, '/' ∉ l → ∀ c ∈ l.reverse, c ≠ '/' := by
    rintro l free _ member rfl
    exact free (List.mem_reverse.mp member)
  exact List.reverse_injective
    (append_inj_of_symbols (symbols hx) (symbols hy) (ends _) (ends _) flipped).1

/-- Objects that are put at different times have different keys. -/
theorem JsonLib.objectKey_inj (lib : JsonLib rt) {source source' cid cid' : String} {t t' : Time}
    (same : objectKey rt source cid t = objectKey rt source' cid' t') : t = t' := by
  have texts := congrArg String.toList same
  simp only [objectKey, String.toList_append] at texts
  refine lib.isoformat (String.toList_inj.mp ?_)
  refine eq_of_last_slash (lib.slash t) (lib.slash t') (a := source.toList ++ '/' :: cid.toList)
    (b := source'.toList ++ '/' :: cid'.toList) ?_
  simpa using List.append_cancel_right texts

end Keys

section Saved

variable {rt : Runtime} {settings : Settings} {x y : Saving} {c : SaveCall} {w w' : World}
variable {row : RawPayload} {payload : Json}

/-- The body of a row is that of `payload`, and no later object can take its place. -/
inductive RawPayload.Carries (rt : Runtime) (settings : Settings) (world : World) (row : RawPayload)
    (payload : Json) : Prop where
  | database (stored : row.payload = some payload.coerce) (url : row.storageUrl = none)
  | objectStore (source correlationId : String) (t : Time)
      (url : row.storageUrl = some (objectUrl settings (objectKey rt source correlationId t)))
      (latest : lastWrite Prod.fst Prod.snd world.objects (objectKey rt source correlationId t) =
        some payload.coerce)
      (past : world.clock.shows t = false)

/-- What holds between the calls. `Saved` are the payloads of the calls so far. -/
structure PayloadsConsistent (rt : Runtime) (settings : Settings) (Saved : Json → Prop)
    (x : Saving) : Prop where
  carried : ∀ row ∈ x.view.rawPayloads, ∃ payload, Saved payload ∧
    row.contentHash = some (rt.canonicalHash payload) ∧
      row.Carries rt settings x.shared.world payload
  unique : ∀ row ∈ x.view.rawPayloads, ∀ other ∈ x.view.rawPayloads,
    row.source = other.source → row.contentHash = other.contentHash → row = other

theorem Clock.not_shows_of_le {c d : Clock} {t : Time} (le : c.Le d) (past : c.shows t = false) :
    d.shows t = false := by
  by_contra shown
  rw [Clock.shows_of_le le ((Bool.not_eq_false _).mp shown)] at past
  cases past

/-- Time passes, and another object may be put into the object store. -/
theorem RawPayload.Carries.later (lib : JsonLib rt) (h : row.Carries rt settings w payload)
    (le : w.clock.Le w'.clock)
    (objects : w'.objects = w.objects ∨ ∃ source correlationId t body, w.clock.shows t = true ∧
      w'.objects = w.objects ++ [(objectKey rt source correlationId t, body)]) :
    row.Carries rt settings w' payload := by
  cases h with
  | database stored url => exact .database stored url
  | objectStore source cid t url latest past =>
      refine .objectStore source cid t url ?_ (Clock.not_shows_of_le le past)
      rcases objects with same | ⟨source', cid', t', body, shown, put⟩
      · rw [same]
        exact latest
      · have other : objectKey rt source cid t ≠ objectKey rt source' cid' t' := by
          intro same
          rw [lib.objectKey_inj same, shown] at past
          cases past
        rw [put, lastWrite_concat, if_neg other]
        exact latest

/-- What a call has done, up to the moment `w` at which it returns. -/
structure CallSaved (rt : Runtime) (settings : Settings) (x y : Saving) (c : SaveCall)
    (row : RawPayload) (new : List Write) (w : World) : Prop where
  id : row.id = c.id
  view : y.view = postgres.view x.view new
  saved : PayloadSaved rt { settings with S3_PAYLOAD_THRESHOLD := c.threshold } c.source
    c.correlationId c.payload x.view x.shared.world w row new
  objects : y.shared.world.objects = w.objects
  later : w.clock.Le y.shared.world.clock
  past : ∀ t, x.shared.world.clock.Showed t w.clock → y.shared.world.clock.shows t = false

theorem SaveCall.Runs.saved (h : c.Runs rt settings x y) :
    ∃ row new w, CallSaved rt settings x y c row new w := by
  obtain ⟨τ, now, now', gap, run, clock, lt, shared⟩ := h
  have free : ∀ s σ ws, (reading (ι := Unit)).admits s σ ws := fun _ _ _ => trivial
  obtain ⟨_, post⟩ := Engine.Steps.wp reading free trivial
    (wp_saveRawPayload_saved ⟨fun _ _ _ => trivial, fun _ _ _ => trivial⟩) run
  obtain ⟨store, row, new, id, writes, saved⟩ := post c.id rfl
  change τ.store = x.shared.store at store
  change y.pending = x.pending ++ new at writes
  refine ⟨row, new, τ.world, id, ?_, saved, ?_, ?_, fun t showed => ?_⟩
  · rw [Saving.view, Saving.view, shared, withClock_store, store, writes, postgres.view_append]
  · rw [shared]
    rfl
  · rw [shared, clock]
    exact ⟨Int.le_of_lt lt, rfl⟩
  · rw [shared]
    rw [clock] at showed
    have le := showed.2
    cases start : x.shared.world.clock with
    | free =>
        rw [start] at le
        exact le.elim
    | shared earlier gap' =>
        rw [start] at le
        exact decide_eq_false (Int.not_le.mpr (Int.lt_of_le_of_lt le.1 lt))

/-- A call keeps what holds between the calls, and every row that was there. -/
theorem PayloadsConsistent.call {Saved : Json → Prop} (lib : JsonLib rt)
    (h : PayloadsConsistent rt settings Saved x) (runs : c.Runs rt settings x y)
    (saved : Saved c.payload) :
    PayloadsConsistent rt settings Saved y ∧ (∀ row ∈ x.view.rawPayloads, row ∈ y.view.rawPayloads) ∧
      ∃ row ∈ y.view.rawPayloads, row.id = c.id ∧ row.Matches rt c.source c.payload := by
  obtain ⟨row, new, w, done⟩ := runs.saved
  have le := done.saved.later.trans done.later
  rcases done.saved.outcome with ⟨stored, rfl, same⟩ | ⟨fresh, absent, rfl, body⟩
  · have view : y.view = x.view := done.view
    refine ⟨⟨?_, ?_⟩, ?_, row, ?_, done.id, done.saved.columns⟩
    · intro other ho
      rw [view] at ho
      obtain ⟨payload, ser, hash, carries⟩ := h.carried other ho
      exact ⟨payload, ser, hash, carries.later lib le (.inl (done.objects.trans same))⟩
    · rw [view]
      exact h.unique
    · rw [view]
      exact fun _ stored => stored
    · rw [view]
      exact stored
  · have view : y.view = x.view.put (.addRawPayload row) := done.view
    have member : ∀ other ∈ y.view.rawPayloads, other ∈ x.view.rawPayloads ∨ other = row := by
      intro other ho
      rw [view] at ho
      exact Table.mem_of_mem_add ho
    have fresh' : ∀ other ∈ x.view.rawPayloads, other.source = row.source →
        other.contentHash ≠ row.contentHash := by
      intro other ho source hash
      refine fresh other ho ⟨source.trans done.saved.columns.1, hash.trans done.saved.columns.2⟩
    refine ⟨⟨?_, ?_⟩, ?_, row, ?_, done.id, done.saved.columns⟩
    · intro other ho
      rcases member other ho with old | rfl
      · obtain ⟨payload, ser, hash, carries⟩ := h.carried other old
        refine ⟨payload, ser, hash, carries.later lib le ?_⟩
        cases body with
        | database stored url same => exact .inl (done.objects.trans same)
        | objectStore t showed stored url put =>
            exact .inr ⟨_, _, t, _, showed.1, done.objects.trans put⟩
      · refine ⟨c.payload, saved, done.saved.columns.2, ?_⟩
        rw [lib.safe] at body
        cases body with
        | database stored url same => exact .database stored url
        | objectStore t showed stored url put =>
            refine .objectStore _ _ t url ?_ (done.past t showed)
            rw [done.objects, put, lastWrite_concat, if_pos rfl]
    · intro a ha b hb source hash
      rcases member a ha with olda | rfl
      · rcases member b hb with oldb | rfl
        · exact h.unique a olda b oldb source hash
        · exact (fresh' a olda source hash).elim
      · rcases member b hb with oldb | rfl
        · exact (fresh' b oldb source.symm hash.symm).elim
        · rfl
    · intro other ho
      rw [view]
      exact Table.mem_add_of_mem ho
    · rw [view]
      exact mem_put_addRawPayload absent

/-- A payload of one of the calls. -/
def SavedIn (steps : List (Taken Saving SaveEvent)) (payload : Json) : Prop :=
  ∃ x ∈ steps, ∃ c, x.label = .call c ∧ c.payload = payload

/-- What a session has saved so far. -/
structure SavedBy (rt : Runtime) (settings : Settings) (steps : List (Taken Saving SaveEvent))
    (x : Saving) : Prop where
  consistent : PayloadsConsistent rt settings (SavedIn steps) x
  calls : ∀ step ∈ steps, ∀ c, step.label = .call c →
    ∃ row ∈ x.view.rawPayloads, row.id = c.id ∧ row.Matches rt c.source c.payload

theorem SavedIn.concat {steps : List (Taken Saving SaveEvent)} {step : Taken Saving SaveEvent}
    (h : SavedIn steps payload) : SavedIn (steps ++ [step]) payload := by
  obtain ⟨x, hx, saved⟩ := h
  exact ⟨x, List.mem_append_left _ hx, saved⟩

theorem savedBy {start last : Saving} {steps : List (Taken Saving SaveEvent)} (lib : JsonLib rt)
    (h : Trace (SaveEvent.Runs rt settings) start steps last)
    (fresh : ∀ row, row ∉ start.view.rawPayloads) : SavedBy rt settings steps last := by
  induction h with
  | nil =>
      refine ⟨⟨fun row hr => (fresh row hr).elim, fun row hr => (fresh row hr).elim⟩, ?_⟩
      exact fun step hs => (List.not_mem_nil hs).elim
  | @concat steps x y event run taken ih =>
      obtain ⟨⟨carried, unique⟩, calls⟩ := ih
      have consistent : PayloadsConsistent rt settings (SavedIn (steps ++ [⟨x, event, y⟩])) x := by
        refine ⟨fun row hr => ?_, unique⟩
        obtain ⟨payload, saved, body⟩ := carried row hr
        exact ⟨payload, saved.concat, body⟩
      cases event with
      | commit =>
          obtain rfl : y = ⟨postgres.publish x.shared () x.pending, []⟩ := taken
          refine ⟨⟨consistent.carried, consistent.unique⟩, fun step hs c label => ?_⟩
          rcases List.mem_append.mp hs with old | new
          · exact calls step old c label
          · rw [List.mem_singleton.mp new] at label
            cases label
      | call c =>
          have here : SavedIn (steps ++ [⟨x, .call c, y⟩]) c.payload :=
            ⟨_, List.mem_append_right _ (List.mem_singleton_self _), c, rfl, rfl⟩
          obtain ⟨next, kept, own⟩ := consistent.call lib taken here
          refine ⟨next, fun step hs d label => ?_⟩
          rcases List.mem_append.mp hs with old | new
          · obtain ⟨row, stored, same⟩ := calls step old d label
            exact ⟨row, kept row stored, same⟩
          · rw [List.mem_singleton.mp new] at label
            cases label
            exact own

end Saved

section Loaded

variable {rt : Runtime} {settings : Settings} {s3 : ObjectStore} {world : World} {row : RawPayload}
variable {dialect : Dialect}

theorem RawPayload.loaded_database (url : row.storageUrl = none) :
    loadPayloadContent settings s3 (row.read dialect) =
      row.payload.map (JSONBType.column dialect) :=
  loadPayloadContent_database url

theorem RawPayload.loaded_objectStore {key : String}
    (url : row.storageUrl = some (objectUrl settings key)) :
    loadPayloadContent settings s3 (row.read dialect) =
      (getObject settings s3 (objectUrl settings key)).toOption :=
  loadPayloadContent_objectStore url (objectUrl_ne_empty _)

/-- What is loaded for a row is what it carries. A body in the database comes out of its column. -/
theorem RawPayload.Carries.loaded {payload : Json} (h : row.Carries rt settings world payload)
    (slash : '/' ∉ settings.S3_BUCKET.toList) (serves : Serves settings world s3)
    (apart : ∀ o ∈ world.objects,
      ¬ settings.S3_ENDPOINT_URL.toList <:+: (settings.S3_BUCKET ++ "/" ++ o.1).toList) :
    loadPayloadContent settings s3 (row.read dialect) = some
      (if row.storageUrl = none then JSONBType.column dialect payload.coerce
      else payload.coerce) := by
  cases h with
  | database stored url =>
      rw [if_pos url, loaded_database url, stored]
      rfl
  | objectStore source cid t url latest past =>
      have put : ∃ o ∈ world.objects, o.1 = objectKey rt source cid t := by
        by_contra absent
        rw [not_exists] at absent
        rw [lastWrite_eq_none Prod.fst Prod.snd (fun o ho same => absent o ⟨ho, same⟩)] at latest
        cases latest
      obtain ⟨o, ho, same⟩ := put
      have offloaded : row.storageUrl ≠ none := by
        rw [url]
        exact Option.some_ne_none _
      rw [if_neg offloaded, loaded_objectStore url, getObject_objectUrl slash (same ▸ apart o ho),
        serves _ _ latest]
      rfl

/-- Two calls return the same id if and only if they have the same source and their payloads
have the same canonical JSON, unless SHA-256 has a collision among them. What is loaded for a row
is the payload if and only if its body is in the object store, or the database does not keep it as
`JSONB`, or the texts of its large floats are exact. -/
theorem savedPayloads (lib : JsonLib rt) (slash : '/' ∉ settings.S3_BUCKET.toList)
    {start last : Saving} {steps : List (Taken Saving SaveEvent)}
    (h : Trace (SaveEvent.Runs rt settings) start steps last)
    (fresh : ∀ row, row ∉ start.view.rawPayloads) (committed : last.pending = [])
    (serializable : ∀ payload, SavedIn steps payload → payload.Serializable)
    (collisionFree : ∀ j k, SavedIn steps j → SavedIn steps k →
      rt.canonicalHash j = rt.canonicalHash k → j.canonical = k.canonical)
    (serves : Serves settings last.shared.world s3)
    (apart : ∀ o ∈ last.shared.world.objects,
      ¬ settings.S3_ENDPOINT_URL.toList <:+: (settings.S3_BUCKET ++ "/" ++ o.1).toList)
    (dialect : Dialect) :
    (∀ x ∈ steps, ∀ y ∈ steps, ∀ c d, x.label = .call c → y.label = .call d →
      (c.id = d.id ↔ c.source = d.source ∧ c.payload.canonical = d.payload.canonical)) ∧
    ∀ x ∈ steps, ∀ c, x.label = .call c → ∃ row content,
      last.shared.store.rawPayloads.find c.id = some row ∧
        loadPayloadContent settings s3 (row.read dialect) = some content ∧
          (content.PyEqual c.payload.coerce ↔
            row.storageUrl ≠ none ∨ dialect = .other ∨ c.payload.Exact) := by
  obtain ⟨⟨carried, unique⟩, calls⟩ := savedBy lib h fresh
  obtain ⟨sha256, hash⟩ := lib.hash
  have same_hash : ∀ {j k : Json}, SavedIn steps j → SavedIn steps k →
      (rt.canonicalHash j = rt.canonicalHash k ↔ j.canonical = k.canonical) := by
    intro j k hj hk
    refine ⟨collisionFree j k hj hk, fun same => ?_⟩
    rw [hash, hash, same]
  constructor
  · intro x hx y hy c d called called'
    obtain ⟨row, stored, id, source, content⟩ := calls x hx c called
    obtain ⟨row', stored', id', source', content'⟩ := calls y hy d called'
    have contents : row.contentHash = row'.contentHash ↔
        c.payload.canonical = d.payload.canonical := by
      rw [content, content', Option.some_inj,
        same_hash ⟨x, hx, c, called, rfl⟩ ⟨y, hy, d, called', rfl⟩]
    rw [← id, ← id', ← source, ← source', ← contents]
    constructor
    · intro same
      rw [Table.eq_of_key_eq stored stored' same]
      exact ⟨rfl, rfl⟩
    · rintro ⟨sources, hashes⟩
      rw [unique row stored row' stored' sources hashes]
  · intro x hx c called
    obtain ⟨row, stored, id, _, content⟩ := calls x hx c called
    obtain ⟨payload, saved, content', carries⟩ := carried row stored
    have own : SavedIn steps c.payload := ⟨x, hx, c, called, rfl⟩
    have view : last.view = last.shared.store := by
      unfold Saving.view
      rw [committed]
      rfl
    have canonical := (same_hash saved own).mp (Option.some_inj.mp (content'.symm.trans content))
    have first := serializable payload saved
    have second := serializable c.payload own
    have equal := (Json.canonical_eq_iff first second).mp canonical
    refine ⟨row, _, ?_, carries.loaded slash serves apart, ?_⟩
    · rw [← id]
      exact Table.find_eq_some_iff.mpr ⟨view ▸ stored, rfl⟩
    · by_cases inDatabase : row.storageUrl = none
      · rw [if_pos inDatabase, JSONBType.column_pyEqual_iff first.coerce second.coerce equal,
          second.exact_coerce]
        exact (or_iff_right (fun offloaded => offloaded inDatabase)).symm
      · rw [if_neg inDatabase]
        exact iff_of_true equal.pyEqual (.inl inDatabase)

end Loaded

section Example

namespace Json

mutual

/-- The separators of the JSON text of a value. `json.dumps` writes a blank after each. -/
def separators : Json → Nat
  | .arr items => itemSeparators true items
  | .obj fields => fieldSeparators true fields
  | _ => 0

def itemSeparators : Bool → List Json → Nat
  | _, [] => 0
  | first, x :: xs => (if first then 0 else 1) + (x.separators + itemSeparators false xs)

def fieldSeparators : Bool → List (String × Json) → Nat
  | _, [] => 0
  | first, f :: fs =>
      (if first then 0 else 1) + (1 + f.2.separators + fieldSeparators false fs)

end

end Json

/-- The texts of the first two microseconds of the epoch. The others are not read. -/
def epochText (t : Time) : String :=
  if t = 0 then "1970-01-01T00:00:00+00:00"
  else if t = 1 then "1970-01-01T00:00:00.000001+00:00"
  else toString t

/-- A runtime for payloads that `canonicalHash` has the digests of. -/
def textRuntime (canonicalHash : Json → String) : Runtime where
  fromisoformat _ := .error ⟨"ValueError", "Invalid isoformat string"⟩
  isoformat := epochText
  fromtimestamp t := .ok t
  str j := String.ofList j.dumps
  canonicalHash := canonicalHash
  jsonSafe := Json.coerce
  encodedSize j := j.dumps.length + j.separators
  validateWebhook _ := .error ⟨"ValidationError", "Invalid JSON"⟩
  validateUpdate _ := .error ⟨"ValidationError", "Invalid update"⟩
  getConnector source := .error ⟨"ConnectorNotFoundError", source⟩

/-- A number is written with digits, and maybe a minus sign. -/
theorem int_toString_not_mem (n : Int) {c : Char} (other : Json.numeric c = false) :
    c ∉ (toString n).toList := fun here =>
  Bool.false_ne_true (other.symm.trans (Json.numeric_toString n c here))

theorem epochText_injective : Function.Injective epochText := by
  have other : ∀ (n : Int) (text : String), 'T' ∈ text.toList → toString n ≠ text := by
    intro n text here same
    have absent : 'T' ∉ (toString n).toList := int_toString_not_mem n rfl
    rw [same] at absent
    exact absent here
  intro t t' same
  unfold epochText at same
  split at same
  · rename_i first
    split at same
    · rename_i second
      rw [first, second]
    · split at same
      · exact absurd same (by decide)
      · exact (other t' _ (by decide) same.symm).elim
  · split at same
    · rename_i first
      split at same
      · exact absurd same (by decide)
      · split at same
        · rename_i second
          rw [first, second]
        · exact (other t' _ (by decide) same.symm).elim
    · split at same
      · exact (other t _ (by decide) same).elim
      · split at same
        · exact (other t _ (by decide) same).elim
        · exact int_toString_inj.mp same

theorem textRuntime_jsonLib (sha256 : String → String) :
    JsonLib (textRuntime (fun j => sha256 j.canonical)) where
  hash := ⟨sha256, fun _ => rfl⟩
  safe _ := rfl
  isoformat := epochText_injective
  slash t := by
    change '/' ∉ (epochText t).toList
    unfold epochText
    split
    · decide
    · split
      · decide
      · exact int_toString_not_mem t rfl

/-- Make a call by a script of moves. -/
def SaveCall.make (rt : Runtime) (settings : Settings) (x : Saving) (c : SaveCall)
    (script : List (Move Exn Choice)) : Option Saving :=
  match postgres.drive (fun _ _ _ => True) () script
      (⟨saveRawPayload rt { settings with S3_PAYLOAD_THRESHOLD := c.threshold } c.source c.payload
        c.correlationId, x.pending⟩, x.shared) with
  | some (⟨.ret id, ws⟩, τ) =>
      match τ.world.clock with
      | .shared now gap =>
          if id = c.id then some ⟨withClock τ (.shared (now + 1) gap), ws⟩ else none
      | .free => none
  | _ => none

theorem SaveCall.runs_of_make {rt : Runtime} {settings : Settings} {x y : Saving} {c : SaveCall}
    {script : List (Move Exn Choice)} (ordinary : ∀ m ∈ script, m.ordinary = true)
    (h : c.make rt settings x script = some y) : c.Runs rt settings x y := by
  unfold make at h
  split at h
  case h_2 => cases h
  rename_i id ws τ run
  split at h
  case h_2 => cases h
  rename_i now gap clock
  split at h
  case isFalse => cases h
  rename_i same
  subst same
  cases h
  exact ⟨τ, now, now + 1, gap, Engine.steps_of_drive ordinary run, clock, Int.lt_succ now, rfl⟩

/-- The digests of the texts of three payloads, and of nothing else. -/
def sha256 (text : String) : String :=
  if text = "\x7b\"a\":1,\"b\":[]\x7d" then
    "f87e4099e9be5e75094e0a4f46d3dc18a9c37429314a5a2490fb78d31e7e170c"
  else if text = "\x7b\"a\":0.5\x7d" then
    "5e7f83714fa43d86a5e65479c3eaa9caedba322aa2bb637c7cf002fc9e895f23"
  else if text = "\x7b\"a\":1e+23\x7d" then
    "bc5dfab7b878aa12ddcbe4c60cb271e223f605d4516a263f5b0544d06f3b7e83"
  else ""

def digestRuntime : Runtime := textRuntime (fun j => sha256 j.canonical)

/-- A payload that goes to the object store. -/
def offloadedCall : SaveCall := ⟨"imap_poll", "c1", .obj [("a", .int 1), ("b", .arr [])], 0, 7⟩

/-- The same payload, in another order. -/
def reorderedCall : SaveCall := ⟨"imap_poll", "c2", .obj [("b", .arr []), ("a", .int 1)], 100, 7⟩

/-- Another payload, which stays in the database. -/
def floatCall : SaveCall := ⟨"imap_poll", "c3", .obj [("a", .float "0.5")], 100, 8⟩

def noPayloads : Saving := ⟨⟨{ clock := .shared 0 0 }, ∅, []⟩, []⟩

/-- The first payload is stored, the second one is found, and the third one is stored. -/
def threeCalls : Option (Saving × Saving × Saving) :=
  (offloadedCall.make digestRuntime {} noPayloads
    [.step .none, .step (.time 1), .step .none, .step (.draw 7 2)]).bind (fun x =>
      (reorderedCall.make digestRuntime {} x [.step .none]).bind (fun y =>
        (floatCall.make digestRuntime {} y [.step .none, .step (.draw 8 5)]).map (fun z =>
          (x, y, z))))

theorem calls_serializable : offloadedCall.payload.Serializable ∧
    reorderedCall.payload.Serializable ∧ floatCall.payload.Serializable := by
  have leaf : ∀ n, (Json.int n).Serializable := fun n => .leaf rfl (fun _ => nofun)
  have list : (Json.arr []).Serializable := .arr (fun _ hx => (List.not_mem_nil hx).elim)
  have half : (Json.float "0.5").Serializable := by
    refine .leaf rfl ?_
    rintro _ ⟨⟩
    exact ⟨List.all_eq_true.mp (by decide), by decide⟩
  refine ⟨.obj (List.forall_mem_cons.mpr ⟨leaf 1, List.forall_mem_singleton.mpr list⟩),
    .obj (List.forall_mem_cons.mpr ⟨list, List.forall_mem_singleton.mpr (leaf 1)⟩),
    .obj (List.forall_mem_singleton.mpr half)⟩

/-- The float has a digit behind its point. -/
theorem floatCall_exact : floatCall.payload.Exact := by
  refine .obj (List.forall_mem_singleton.mpr (.leaf rfl ?_))
  rintro _ ⟨⟩ large
  exact absurd large (by decide)

/-- The digests of the calls are those of two texts. -/
theorem calls_collisionFree {j k : Json}
    (hj : j = offloadedCall.payload ∨ j = reorderedCall.payload ∨ j = floatCall.payload)
    (hk : k = offloadedCall.payload ∨ k = reorderedCall.payload ∨ k = floatCall.payload)
    (same : digestRuntime.canonicalHash j = digestRuntime.canonicalHash k) :
    j.canonical = k.canonical := by
  have known : reorderedCall.payload.canonical = offloadedCall.payload.canonical := by
    decide +kernel
  have texts : ∀ {j : Json},
      (j = offloadedCall.payload ∨ j = reorderedCall.payload ∨ j = floatCall.payload) →
        j.canonical = offloadedCall.payload.canonical ∨
          j.canonical = floatCall.payload.canonical := by
    rintro j (rfl | rfl | rfl)
    · exact .inl rfl
    · exact .inl known
    · exact .inr rfl
  have different :
      sha256 offloadedCall.payload.canonical ≠ sha256 floatCall.payload.canonical := by
    decide +kernel
  change sha256 j.canonical = sha256 k.canonical at same
  rcases texts hj with first | first <;> rcases texts hk with second | second
  · rw [first, second]
  · rw [first, second] at same
    exact (different same).elim
  · rw [first, second] at same
    exact (different same.symm).elim
  · rw [first, second]

/-- The calls, and the commit of their transaction. -/
def threeSteps (x y z : Saving) : List (Taken Saving SaveEvent) :=
  [⟨noPayloads, .call offloadedCall, x⟩, ⟨x, .call reorderedCall, y⟩, ⟨y, .call floatCall, z⟩,
    ⟨z, .commit, ⟨postgres.publish z.shared () z.pending, []⟩⟩]

theorem trace_of_threeCalls {x y z : Saving} (h : threeCalls = some (x, y, z)) :
    Trace (SaveEvent.Runs digestRuntime {}) noPayloads (threeSteps x y z)
      ⟨postgres.publish z.shared () z.pending, []⟩ := by
  obtain ⟨x', first, rest⟩ := Option.bind_eq_some_iff.mp h
  obtain ⟨y', second, rest⟩ := Option.bind_eq_some_iff.mp rest
  obtain ⟨z', third, same⟩ := Option.map_eq_some_iff.mp rest
  cases same
  refine .cons ?_ (.cons ?_ (.cons ?_ (.cons rfl .nil)))
  · exact SaveCall.runs_of_make (by decide) first
  · exact SaveCall.runs_of_make (by decide) second
  · exact SaveCall.runs_of_make (by decide) third

theorem savedIn_threeSteps {x y z : Saving} {payload : Json}
    (saved : SavedIn (threeSteps x y z) payload) :
    payload = offloadedCall.payload ∨ payload = reorderedCall.payload ∨
      payload = floatCall.payload := by
  obtain ⟨step, hs, c, label, rfl⟩ := saved
  simp only [threeSteps, List.mem_cons, List.not_mem_nil, or_false] at hs
  rcases hs with rfl | rfl | rfl | rfl <;> cases label
  · exact .inl rfl
  · exact .inr (.inl rfl)
  · exact .inr (.inr rfl)

/-- The first two calls share a row, and what PostgreSQL gives back of the third payload is equal
to it. -/
theorem savedPayloads_reordered : ∃ x y z, threeCalls = some (x, y, z) ∧
    (offloadedCall.id = reorderedCall.id ↔ offloadedCall.source = reorderedCall.source ∧
      offloadedCall.payload.canonical = reorderedCall.payload.canonical) ∧
    ∃ row content, (postgres.view z.shared.store z.pending).rawPayloads.find floatCall.id =
      some row ∧
        loadPayloadContent {} z.shared.world.objectStore (row.read .postgresql) = some content ∧
          content.PyEqual floatCall.payload.coerce := by
  have shape : threeCalls.map (fun p => p.2.2.shared.world.objects.all (fun o =>
      decide (¬ ({} : Settings).S3_ENDPOINT_URL.toList <:+:
        (({} : Settings).S3_BUCKET ++ "/" ++ o.1).toList))) = some true := by decide +kernel
  obtain ⟨⟨x, y, z⟩, all, apart⟩ := Option.map_eq_some_iff.mp shape
  have serializable : ∀ payload, SavedIn (threeSteps x y z) payload → payload.Serializable := by
    intro payload saved
    rcases savedIn_threeSteps saved with rfl | rfl | rfl
    · exact calls_serializable.1
    · exact calls_serializable.2.1
    · exact calls_serializable.2.2
  obtain ⟨ids, loads⟩ := savedPayloads (textRuntime_jsonLib sha256) (by decide)
    (trace_of_threeCalls all) (fun row hr => (List.not_mem_nil hr).elim) rfl serializable
    (fun j k hj hk => calls_collisionFree (savedIn_threeSteps hj) (savedIn_threeSteps hk))
    (z.shared.world.objectStore_serves {})
    (fun o ho => of_decide_eq_true (List.all_eq_true.mp apart o ho)) .postgresql
  refine ⟨x, y, z, all, ?_, ?_⟩
  · exact ids _ (.head _) _ (.tail _ (.head _)) offloadedCall reorderedCall rfl rfl
  · obtain ⟨row, content, found, loaded, equal⟩ :=
      loads _ (.tail _ (.tail _ (.head _))) floatCall rfl
    exact ⟨row, content, found, loaded, equal.mpr (.inr (.inr floatCall_exact))⟩

/-- A payload with a large float, which stays in the database. -/
def largeFloatCall : SaveCall := ⟨"jira_poll", "c1", .obj [("a", .float "1e+23")], 100, 7⟩

theorem nearestDouble_tens : nearestDouble (10 ^ 23) = 99999999999999991611392 := by
  have log : Int.log 2 |(10 : ℚ) ^ 23| = 76 := by
    have cast : |(10 : ℚ) ^ 23| = ((10 ^ 23 : ℕ) : ℚ) := by norm_num
    rw [cast, Int.log_natCast]
    norm_num
  have bit : lastBit (10 ^ 23) = 24 := by
    rw [lastBit, log]
    rfl
  have quotient : (10 : ℚ) ^ 23 / 2 ^ (24 : ℤ) = 5960464477539062 + 1 / 2 := by norm_num
  have floor : ⌊(5960464477539062 + 1 / 2 : ℚ)⌋ = 5960464477539062 := by norm_num
  rw [nearestDouble, bit, quotient, halfEven, floor]
  norm_num

/-- Whether a row holds the payload with the large float. -/
def RawPayload.holdsLargeFloat (row : RawPayload) : Bool :=
  match row.storageUrl, row.payload with
  | none, some (.obj [("a", .float "1e+23")]) => true
  | _, _ => false

theorem RawPayload.payload_of_holdsLargeFloat {row : RawPayload} (h : row.holdsLargeFloat = true) :
    row.storageUrl = none ∧ row.payload = some largeFloatCall.payload := by
  unfold holdsLargeFloat at h
  split at h
  · rename_i url body
    exact ⟨url, body⟩
  · cases h

/-- Its text denotes an integer that is no double. -/
theorem largeFloatCall_not_exact : ¬ largeFloatCall.payload.Exact := by
  intro exact
  have leaf : Json.exactLeaf (.float "1e+23") :=
    (Json.leaves_leaf rfl).mp (Json.leaves_obj.mp exact ("a", .float "1e+23") (.head _))
  have text : Decimal.ofText "1e+23" = ⟨false, 1, -23⟩ := by decide
  have number : (⟨false, 1, -23⟩ : Decimal).value = 10 ^ 23 := by
    norm_num [Decimal.value, Decimal.signed]
  have same := leaf "1e+23" rfl (by rw [text]; decide)
  rw [text, number, nearestDouble_tens] at same
  norm_num at same

theorem largeFloatCall_plain : largeFloatCall.payload.Plain := by
  refine .obj (List.forall_mem_singleton.mpr (.leaf rfl ⟨?_, fun _ _ => nofun⟩))
  rintro _ ⟨⟩
  exact ⟨List.all_eq_true.mp (by decide), by decide⟩

/-- PostgreSQL gives the float back as an integer, to which it is not equal. -/
theorem large_float_lost : ∃ x row content,
    largeFloatCall.make digestRuntime {} noPayloads [.step .none, .step (.draw 7 1)] = some x ∧
      x.view.rawPayloads.find largeFloatCall.id = some row ∧
        loadPayloadContent {} x.shared.world.objectStore (row.read .postgresql) = some content ∧
          ¬ content.PyEqual largeFloatCall.payload.coerce := by
  have shape : (largeFloatCall.make digestRuntime {} noPayloads
      [.step .none, .step (.draw 7 1)]).map (fun x =>
        (x.view.rawPayloads.find 7).map RawPayload.holdsLargeFloat) = some (some true) := by
    decide +kernel
  obtain ⟨x, made, stored⟩ := Option.map_eq_some_iff.mp shape
  obtain ⟨row, found, holds⟩ := Option.map_eq_some_iff.mp stored
  obtain ⟨url, body⟩ := RawPayload.payload_of_holdsLargeFloat holds
  refine ⟨x, row, JSONBType.column .postgresql largeFloatCall.payload, made, found, ?_, ?_⟩
  · rw [RawPayload.loaded_database url, body]
    rfl
  · intro equal
    have exact := (JSONBType.column_pyEqual_iff largeFloatCall_plain largeFloatCall_plain rfl).mp
      equal
    exact largeFloatCall_not_exact (exact.resolve_left (by decide))

end Example

end OmniSync
