import OmniSync.Data.Versioned
import OmniSync.Events.OneByOne

/-!
# The content of an event and its history

What the store says about the content of an event is a versioned value, and an upsert of a batch
writes it once for each key of the batch, with the first content of that key.
-/

namespace OmniSync

open Txn

/-- The content of the event with a key, and of its history. -/
def Store.cell (s : Store) (k : String × String) : Versioned String where
  current := (s.normalizedEvents.find k).map (fun row => (row.content, row.version))
  history n := (versionOf s k n).map EventVersion.content

/-- The contents of a batch, each under its key. -/
def contentsOf (batch : List NormalizedEventCreate) : List ((String × String) × String) :=
  batch.map (fun e => (e.key, e.content))

section Cells

variable {changedBy : Option String} {batch : List NormalizedEventCreate} {s t : Store}
variable {e : NormalizedEventCreate} {k : String × String}

theorem next_cell (s : Store) (e : NormalizedEventCreate) :
    (s.cell e.key).next e.content = targetVersion (s.normalizedEvents.find e.key) e := by
  unfold Versioned.next targetVersion Store.cell
  cases s.normalizedEvents.find e.key <;> rfl

theorem missing_cell (changedBy : Option String) (s : Store) (e : NormalizedEventCreate) (n : Nat) :
    (s.cell e.key).missing e.content n =
      (missingVersion changedBy (s.normalizedEvents.find e.key) e n).map EventVersion.content := by
  unfold Versioned.missing missingVersion
  rw [next_cell]
  unfold Store.cell
  cases s.normalizedEvents.find e.key with
  | none =>
      dsimp only [Option.map_none]
      split <;> rfl
  | some existing =>
      dsimp only [Option.map_some]
      split
      · rfl
      · split <;> rfl

/-- An event of the batch is written. -/
theorem Applied.cell (h : Applied changedBy batch s t) (he : e ∈ batch) :
    t.cell e.key = (s.cell e.key).write e.content := by
  obtain ⟨row, found, holds, version, _⟩ := h.events e he
  refine Versioned.ext ?_ (funext fun n => ?_)
  · change (t.normalizedEvents.find e.key).map _ = some (e.content, (s.cell e.key).next e.content)
    rw [found, Option.map_some, holds.content, version, next_cell]
  · change (versionOf t e.key n).map EventVersion.content =
      ((versionOf s e.key n).map EventVersion.content).or ((s.cell e.key).missing e.content n)
    rw [h.versions e he, missing_cell changedBy]
    cases versionOf s e.key n <;> rfl

theorem Applied.cell_other (h : Applied changedBy batch s t)
    (new : k ∉ batch.map NormalizedEventCreate.key) : t.cell k = s.cell k := by
  refine Versioned.ext ?_ (funext fun n => ?_)
  · change (t.normalizedEvents.find k).map _ = (s.normalizedEvents.find k).map _
    rw [(h.other k new).1]
  · change (versionOf t k n).map _ = (versionOf s k n).map _
    rw [h.versionOf_other new]

theorem head?_valuesAt (batch : List NormalizedEventCreate) (k : String × String) :
    (valuesAt (contentsOf batch) k).head? =
      (batch.find? (fun e => decide (e.key = k))).map NormalizedEventCreate.content := by
  unfold valuesAt contentsOf
  rw [List.head?_map, List.head?_filter, List.find?_map, Option.map_map]
  rfl

/-- An upsert writes the first content of each key. -/
theorem UpsertedAlone.cell {events : List NormalizedEventCreate} {p : UpsertPlan}
    (h : UpsertedAlone s events changedBy p) (keys : s.KeysHold) (k : String × String) :
    (postgres.view s p.writes).cell k =
      (s.cell k).writes (valuesAt (contentsOf events) k).head?.toList := by
  have applied := h.applied keys
  rw [head?_valuesAt, ← find_deduped]
  cases found : (deduped events).find? (fun e => decide (e.key = k)) with
  | none =>
      refine applied.cell_other (fun known => ?_)
      obtain ⟨e, he, key⟩ := List.mem_map.mp known
      exact List.find?_eq_none.mp found e he (decide_eq_true key)
  | some e =>
      obtain rfl : e.key = k := by simpa using List.find?_some found
      exact applied.cell (List.mem_of_find?_eq_some found)

/-- Stores with the same events and the same history. -/
theorem Store.cell_congr (events : t.normalizedEvents = s.normalizedEvents)
    (versions : t.eventVersions = s.eventVersions) (k : String × String) : t.cell k = s.cell k := by
  unfold Store.cell versionOf
  rw [events, versions]

theorem Store.KeysHold.congr (h : s.KeysHold) (events : t.normalizedEvents = s.normalizedEvents)
    (versions : t.eventVersions = s.eventVersions) : t.KeysHold where
  ids := by
    unfold Store.EventIdsUnique
    rw [events]
    exact h.ids
  owned := by
    rw [events, versions]
    exact h.owned

end Cells

end OmniSync
