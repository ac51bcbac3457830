import Mathlib.Data.Set.Basic
import OmniSync.Events.Upsert
import OmniSync.Txn.Parts

/-!
# Programs that upsert

The event service is the only one that writes events, their history and new rows of the outbox.
Whatever else runs next to its upserts issues statements that leave all of this alone, up to the
status of outbox rows: such programs are `Upserting`.
-/

namespace OmniSync

open Txn

/-- The statement stores no event and no version, and announces nothing. -/
def Stmt.Beside : Stmt → Prop
  | insertVersion _ => False
  | insertOnConflict _ => False
  | insertOutbox _ => False
  | _ => True

/-- Nor does the statement deliver anything to the vector index. -/
def Stmt.Apart : Stmt → Prop
  | insertVersion _ => False
  | insertOnConflict _ => False
  | insertOutbox _ => False
  | qdrantUpsert _ _ => False
  | _ => True

theorem Stmt.Apart.beside {s : Stmt} (h : s.Apart) : s.Beside := by
  cases s <;> first | exact h.elim | trivial

/-- The write stores no event and no version, and announces nothing. -/
def Write.Beside : Write → Prop
  | putEvent _ => False
  | addVersion _ => False
  | addOutbox _ => False
  | _ => True

theorem exec_beside {s : Stmt} {choice : Choice} {world world' : World} {view : Store}
    {locked : Write → Bool} {answer : Except Exn (Answer s)} {new : List Write} (h : s.Beside)
    (run : exec s choice world view locked = some (answer, new, world')) :
    ∀ w ∈ new, w.Beside := by
  intro w hw
  have table := exec_table run w hw
  cases w with
  | putEvent | addVersion =>
      cases s <;> first | exact h.elim | simp [Stmt.table, Write.table] at table
  | addOutbox o =>
      cases s with
      | insertOutbox => exact h.elim
      | selectPending limit =>
          obtain ⟨rows, _, rfl, _⟩ := exec_selectPending run
          simp at hw
      | updateOutbox id patch =>
          cases choice <;> cases run
          simp at hw
      | _ => simp [Stmt.table, Write.table] at table
  | _ => trivial

/-- The parts of the programs: upserts of a batch of events of some sources. -/
inductive UpsertPart (sources : Set String) : ∀ β : Type, Tx β → Prop where
  | bulk (events : List NormalizedEventCreate) (changedBy : Option String)
      (own : ∀ e ∈ events, e.source ∈ sources) : UpsertPart sources (List NormalizedEvent)
        (NormalizedEventService.upsertEventsBulk events changedBy)

/-- The program upserts batches of events of these sources, commits only what is complete, and
leaves the events alone otherwise. An upsert that fails may end it. -/
abbrev Upserting {α : Type} (sources : Set String) (p : Tx α) : Prop :=
  p.Composed (UpsertPart sources) Stmt.Apart .spoiled .sound

/-- The program upserts batches, and it has rolled back when it raises. -/
abbrev Orderly {α : Type} (sources : Set String) (p : Tx α) : Prop :=
  p.Composed (UpsertPart sources) Stmt.Apart .sound .sound

/-- The program may follow a failed upsert, and it has rolled back when it raises. -/
abbrev Recovering {α : Type} (sources : Set String) (p : Tx α) : Prop :=
  p.Composed (UpsertPart sources) Stmt.Apart .sound .spoiled

section Parts

variable {sources : Set String}

theorem upsertEventsBulk_upserting {events : List NormalizedEventCreate}
    (changedBy : Option String) (own : ∀ e ∈ events, e.source ∈ sources) :
    Upserting sources (NormalizedEventService.upsertEventsBulk events changedBy) :=
  .of_part (.bulk events changedBy own)

theorem upsertEvent_upserting {event : NormalizedEventCreate} (changedBy : Option String)
    (own : event.source ∈ sources) :
    Upserting sources (NormalizedEventService.upsertEvent event changedBy) := by
  have single : ∀ e ∈ [event], e.source ∈ sources := fun e he => by
    rwa [List.mem_singleton.mp he]
  refine .bind (upsertEventsBulk_upserting changedBy single) (fun rows => ?_)
  cases rows with
  | nil => exact .throws _
  | cons row rows => exact .ret row

end Parts

section Views

variable {s : Store} {ws vs : List Write}

theorem Store.put_normalizedEvents_of_beside {w : Write} (h : w.Beside) :
    (s.put w).normalizedEvents = s.normalizedEvents := by
  cases w <;> first | exact h.elim | rfl

theorem Store.put_eventVersions_of_beside {w : Write} (h : w.Beside) :
    (s.put w).eventVersions = s.eventVersions := by
  cases w <;> first | exact h.elim | rfl

/-- The list has no write that matters here. -/
theorem filterMap_beside {β : Type} {f : Write → Option β} (other : ∀ w, w.Beside → f w = none)
    (h : ∀ w ∈ vs, w.Beside) : (ws ++ vs).filterMap f = ws.filterMap f := by
  rw [List.filterMap_append, List.append_right_eq_self]
  exact List.filterMap_eq_nil_iff.mpr (fun w hw => other w (h w hw))

theorem Pending.append_beside (h : Pending s ws) (beside : ∀ w ∈ vs, w.Beside) :
    Pending s (ws ++ vs) := by
  have own : ∀ {w : Write}, ¬ w.Beside → w ∈ ws ++ vs → w ∈ ws := fun known hw =>
    (List.mem_append.mp hw).resolve_right (fun here => known (beside _ here))
  refine ⟨fun row hr => h.events row (own id hr), fun row row' hr hr' => ?_,
    fun v hv => h.versions v (own id hv), ?_, fun o ho => h.outbox o (own id ho), ?_⟩
  · exact h.identity row row' (own id hr) (own id hr')
  · rw [filterMap_beside (f := Write.versionKey) ?_ beside]
    · exact h.versionsOnce
    · intro w hw
      cases w <;> first | exact hw.elim | rfl
  · rw [filterMap_beside (f := Write.outboxId) ?_ beside]
    · exact h.outboxOnce
    · intro w hw
      cases w <;> first | exact hw.elim | rfl

end Views

end OmniSync
