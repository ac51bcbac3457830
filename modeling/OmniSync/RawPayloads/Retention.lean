import OmniSync.Integrations.Watermark
import OmniSync.RawPayloads.Tasks

/-!
# What the clean-up removes

Every event keeps a reference to its raw payload, and so does every version of it. One
expired payload that is referenced keeps the statement from removing any other.
-/

namespace OmniSync

open Txn

section Retention

variable {settings : Settings} {now cutoff : Time} {s t : Store}

/-- No reference to a raw payload dangles. -/
structure Store.Linked (s : Store) : Prop where
  events : ∀ row ∈ s.normalizedEvents, ∀ id, row.rawPayloadId = some id →
    ∃ payload ∈ s.rawPayloads, payload.id = id
  versions : ∀ row ∈ s.eventVersions, ∀ id, row.rawPayloadId = some id →
    ∃ payload ∈ s.rawPayloads, payload.id = id

/-- What a clean-up is for. -/
structure CleanedUp (cutoff : Time) (s t : Store) : Prop where
  expired : ∀ payload ∈ s.rawPayloads, payload.receivedAt < cutoff →
    s.referencesPayload payload.id = false → payload ∉ t.rawPayloads
  kept : ∀ payload ∈ s.rawPayloads, cutoff ≤ payload.receivedAt → payload ∈ t.rawPayloads
  linked : t.Linked

/-- No payload older than the cutoff is referenced. -/
def Store.ExpiredUnreferenced (s : Store) (cutoff : Time) : Prop :=
  ∀ payload ∈ s.rawPayloads, payload.receivedAt < cutoff → s.referencesPayload payload.id = false

theorem Store.referencesPayload_iff {id : Uuid} : s.referencesPayload id = true ↔
    (∃ row ∈ s.normalizedEvents, row.rawPayloadId = some id) ∨
      ∃ row ∈ s.eventVersions, row.rawPayloadId = some id := by
  simp only [referencesPayload, Bool.or_eq_true, List.any_eq_true, decide_eq_true_eq]
  rfl

theorem Store.deletePayloads_eq_ok : s.deletePayloads cutoff = .ok t ↔
    s.ExpiredUnreferenced cutoff ∧ t = { s with
      rawPayloads := s.rawPayloads.filter (fun row => decide (cutoff ≤ row.receivedAt)) } := by
  unfold deletePayloads
  by_cases rejected : s.rawPayloads.rows.any (fun row =>
      decide (row.receivedAt < cutoff) && s.referencesPayload row.id) = true
  · rw [if_pos rejected]
    obtain ⟨payload, stored, old⟩ := List.any_eq_true.mp rejected
    rw [Bool.and_eq_true, decide_eq_true_eq] at old
    constructor
    · exact fun impossible => by cases impossible
    · rintro ⟨unreferenced, _⟩
      rw [unreferenced payload stored old.1] at old
      cases old.2
  · rw [if_neg rejected, Except.ok.injEq, eq_comm]
    refine (and_iff_right ?_).symm
    intro payload stored old
    by_contra referenced
    refine rejected (List.any_eq_true.mpr ⟨payload, stored, ?_⟩)
    rw [Bool.and_eq_true, decide_eq_true_eq]
    exact ⟨old, (Bool.not_eq_false _).mp referenced⟩

/-- A reference that the statement respects does not dangle after it. -/
theorem Store.ExpiredUnreferenced.stays (h : s.ExpiredUnreferenced cutoff) {id : Uuid}
    (referenced : s.referencesPayload id = true)
    (there : ∃ payload ∈ s.rawPayloads, payload.id = id) :
    ∃ payload ∈ s.rawPayloads.filter (fun row => decide (cutoff ≤ row.receivedAt)),
      payload.id = id := by
  obtain ⟨payload, stored, rfl⟩ := there
  refine ⟨payload, Table.mem_filter.mpr ⟨stored, decide_eq_true ?_⟩, rfl⟩
  by_contra old
  rw [h payload stored (Int.not_le.mp old)] at referenced
  cases referenced

/-- The clean-up succeeds, and does what it is for, if and only if no expired payload is
referenced. -/
theorem cleanup_iff (linked : s.Linked) :
    (∃ t, cleanupOldPayloads settings now s = .ok t ∧
      CleanedUp (payloadCutoff settings now) s t) ↔
        s.ExpiredUnreferenced (payloadCutoff settings now) := by
  unfold cleanupOldPayloads
  constructor
  · rintro ⟨t, ok, _⟩
    exact (Store.deletePayloads_eq_ok.mp ok).1
  · intro unreferenced
    refine ⟨_, Store.deletePayloads_eq_ok.mpr ⟨unreferenced, rfl⟩, ?_, ?_, ?_, ?_⟩
    · intro payload _ old _ there
      have young := of_decide_eq_true (Table.mem_filter.mp there).2
      exact Int.not_le.mpr old young
    · intro payload stored young
      exact Table.mem_filter.mpr ⟨stored, decide_eq_true young⟩
    · intro row stored id references
      exact unreferenced.stays (Store.referencesPayload_iff.mpr (.inl ⟨row, stored, references⟩))
        (linked.events row stored id references)
    · intro row stored id references
      exact unreferenced.stays (Store.referencesPayload_iff.mpr (.inr ⟨row, stored, references⟩))
        (linked.versions row stored id references)

end Retention

section Example

/-- One payload of the first of January 1970. -/
def oldPayload : RawPayload where
  id := 1
  source := "github"
  payload := some (.obj [])
  contentHash := some "h1"
  correlationId := "c"
  receivedAt := 0
  storageUrl := none

def oldPayloads : Store := { rawPayloads := (∅ : Table RawPayload.id).add oldPayload }

theorem cleanup_oldPayloads : ∃ t, cleanupOldPayloads {} (100 * day) oldPayloads = .ok t ∧
    CleanedUp (payloadCutoff {} (100 * day)) oldPayloads t := by
  refine (cleanup_iff ⟨?_, ?_⟩).mpr ?_
  · exact fun row stored => (List.not_mem_nil stored).elim
  · exact fun row stored => (List.not_mem_nil stored).elim
  · exact fun payload _ _ => rfl

/-- The payload of an event of the mailbox keeps the clean-up from ever succeeding again. -/
theorem cleanup_fails : ¬ ∀ steps τ now,
    Trace (Poll.Runs (calendar mayDays) mayRuntime {} mailbox) ⟨{}, ∅, []⟩ steps τ →
      ∃ t, cleanupOldPayloads {} now τ.store = .ok t ∧
        CleanedUp (payloadCutoff {} now) τ.store t := by
  intro succeeds
  have fails : (firstLetter (letter 2 "n")).map (fun x =>
      (cleanupOldPayloads {} (100 * day) x.2.store).toBool) = some false := by decide +kernel
  obtain ⟨⟨_, υ⟩, newer, failed⟩ := Option.map_eq_some_iff.mp fails
  have runs : (Poll.mailbox [letter 2 "n"]).Runs (calendar mayDays) mayRuntime {} mailbox
      ⟨{}, ∅, []⟩ υ := Engine.completes_of_outcome newer
  obtain ⟨t, ok, _⟩ := succeeds _ υ (100 * day) (.concat .nil runs)
  simp only [ok] at failed
  cases failed

end Example

end OmniSync
