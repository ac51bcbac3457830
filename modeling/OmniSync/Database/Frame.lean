import OmniSync.Database
import OmniSync.Txn.Interference

/-!
# What other sessions leave alone

A pending write holds its locks until the commit, so the rows and keys that a
session has written keep their committed state until it ends. `view_unchanged`
says this for any lookup that only writes with a certain lock can change;
`Interference.look_eq` transports it to interference. Rows of the append-only
tables stay in any case.
-/

namespace OmniSync

open Txn

namespace Store

variable {s : Store} {w : Write} {vs : List Write}

theorem put_normalizedEvents_of_not_lock {k : String × String} (h : .event k ∉ w.locks) :
    (s.put w).normalizedEvents.find k = s.normalizedEvents.find k := by
  cases w with
  | putEvent row =>
      refine Table.find_put_of_ne ?_
      rintro rfl
      exact h (by simp [Write.locks])
  | _ => rfl

theorem put_eventVersions_of_not_lock {k : Uuid × Nat} (h : .version k ∉ w.locks) :
    (s.put w).eventVersions.find k = s.eventVersions.find k := by
  cases w with
  | addVersion row =>
      refine Table.find_add_of_ne ?_
      rintro rfl
      exact h (by simp [Write.locks])
  | _ => rfl

theorem put_outboxEvents_of_not_lock {id : Uuid} (h : .outbox id ∉ w.locks) :
    (s.put w).outboxEvents.find id = s.outboxEvents.find id := by
  cases w with
  | addOutbox row =>
      refine Table.find_add_of_ne ?_
      rintro rfl
      exact h (by simp [Write.locks])
  | patchOutbox id' p =>
      refine Table.find_modify_of_ne (fun row => row.patch_id p) ?_
      rintro rfl
      exact h (by simp [Write.locks])
  | _ => rfl

theorem put_failedEvents_of_not_lock {id : Uuid} (h : .failed id ∉ w.locks) :
    (s.put w).failedEvents.find id = s.failedEvents.find id := by
  cases w with
  | addFailed row =>
      refine Table.find_add_of_ne ?_
      rintro rfl
      exact h (by simp [Write.locks])
  | patchFailed id' p =>
      refine Table.find_modify_of_ne (fun row => row.patch_id p) ?_
      rintro rfl
      exact h (by simp [Write.locks])
  | _ => rfl

/-- Who does not lock an event's id does not introduce a row with it. -/
theorem mem_of_mem_put_of_not_lock {id : Uuid} {x : NormalizedEvent}
    (h : .eventId id ∉ w.locks) (hx : x ∈ (s.put w).normalizedEvents) (same : x.id = id) :
    x ∈ s.normalizedEvents := by
  cases w with
  | putEvent row =>
      rcases Table.mem_put.mp hx with rfl | ⟨old, _⟩
      · exact (h (by simp [Write.locks, same])).elim
      · exact old
  | _ => exact hx

theorem find_eventVersions_of_put {k : Uuid × Nat}
    (h : (s.put w).eventVersions.find k = none) : s.eventVersions.find k = none := by
  cases w with
  | addVersion row =>
      rw [Table.find_eq_none_iff] at h ⊢
      exact fun x hx => h x (Table.mem_add_of_mem hx)
  | _ => exact h

theorem find_outboxEvents_of_put {id : Uuid}
    (h : (s.put w).outboxEvents.find id = none) : s.outboxEvents.find id = none := by
  cases w with
  | addOutbox row =>
      rw [Table.find_eq_none_iff] at h ⊢
      exact fun x hx => h x (Table.mem_add_of_mem hx)
  | patchOutbox id' p =>
      have changed : (if id = id' then (s.outboxEvents.find id).map (·.patch p)
          else s.outboxEvents.find id) = none :=
        (Table.find_modify (fun row => row.patch_id p)).symm.trans h
      split at changed
      · exact Option.map_eq_none_iff.mp changed
      · exact changed
  | _ => exact h

theorem find_failedEvents_of_put {id : Uuid}
    (h : (s.put w).failedEvents.find id = none) : s.failedEvents.find id = none := by
  cases w with
  | addFailed row =>
      rw [Table.find_eq_none_iff] at h ⊢
      exact fun x hx => h x (Table.mem_add_of_mem hx)
  | patchFailed id' p =>
      have changed : (if id = id' then (s.failedEvents.find id).map (·.patch p)
          else s.failedEvents.find id) = none :=
        (Table.find_modify (fun row => row.patch_id p)).symm.trans h
      split at changed
      · exact Option.map_eq_none_iff.mp changed
      · exact changed
  | _ => exact h

theorem mem_put_eventVersions {v : EventVersion} (hv : v ∈ s.eventVersions) :
    v ∈ (s.put w).eventVersions := by
  cases w with
  | addVersion row => exact Table.mem_add_of_mem hv
  | _ => exact hv

theorem mem_put_patchOutbox {o : OutboxEvent} {id : Uuid} {p : OutboxPatch} :
    o ∈ (s.put (.patchOutbox id p)).outboxEvents ↔
      ∃ x ∈ s.outboxEvents, o = if x.id = id then x.patch p else x :=
  @Table.mem_modify _ _ _ _ _ _ _ (fun row => row.patch_id p) _

theorem find_put_patchOutbox {id : Uuid} {p : OutboxPatch} :
    (s.put (.patchOutbox id p)).outboxEvents.find id =
      (s.outboxEvents.find id).map (·.patch p) :=
  (Table.find_modify (fun row => row.patch_id p)).trans (if_pos rfl)

theorem mem_put_patchFailed {f : FailedEvent} {id : Uuid} {p : FailedPatch} :
    f ∈ (s.put (.patchFailed id p)).failedEvents ↔
      ∃ x ∈ s.failedEvents, f = if x.id = id then x.patch p else x :=
  @Table.mem_modify _ _ _ _ _ _ _ (fun row => row.patch_id p) _

theorem mem_put_setSyncLog {log : SyncLog} {id : Uuid} {status : RunStatus}
    {errorText : Option String} : log ∈ (s.put (.setSyncLog id status errorText)).syncLogs ↔
      ∃ x ∈ s.syncLogs, log = if x.id = id then x.setStatus status errorText else x :=
  @Table.mem_modify _ _ _ _ _ _ _ (fun row => row.setStatus_id status errorText) _

/-- An outbox row keeps what no patch changes. -/
theorem exists_mem_put_outboxEvents {β : Type} (f : OutboxEvent → β)
    (kept : ∀ o p, f (o.patch p) = f o) {o : OutboxEvent} (ho : o ∈ s.outboxEvents) :
    ∃ o' ∈ (s.put w).outboxEvents, f o' = f o := by
  cases w with
  | addOutbox row => exact ⟨o, Table.mem_add_of_mem ho, rfl⟩
  | patchOutbox id p =>
      refine ⟨_, mem_put_patchOutbox.mpr ⟨o, ho, rfl⟩, ?_⟩
      split
      · exact kept o p
      · rfl
  | _ => exact ⟨o, ho, rfl⟩

theorem exists_of_mem_put_outboxEvents {β : Type} (f : OutboxEvent → β)
    (kept : ∀ o p, f (o.patch p) = f o) {o : OutboxEvent} (ho : o ∈ (s.put w).outboxEvents) :
    (∃ o' ∈ s.outboxEvents, f o' = f o) ∨ w = .addOutbox o := by
  cases w with
  | addOutbox row =>
      rcases Table.mem_of_mem_add ho with old | rfl
      · exact .inl ⟨o, old, rfl⟩
      · exact .inr rfl
  | patchOutbox id p =>
      obtain ⟨o', old, rfl⟩ := mem_put_patchOutbox.mp ho
      refine .inl ⟨o', old, ?_⟩
      split
      · exact (kept o' p).symm
      · rfl
  | _ => exact .inl ⟨o, ho, rfl⟩

end Store

section View

variable {s : Store} {vs : List Write}

theorem view_eq (s : Store) (vs : List Write) : postgres.view s vs = vs.foldl Store.put s := rfl

@[simp] theorem view_cons (s : Store) (w : Write) (vs : List Write) :
    postgres.view s (w :: vs) = postgres.view (s.put w) vs := rfl

theorem view_concat (s : Store) (vs : List Write) (w : Write) :
    postgres.view s (vs ++ [w]) = (postgres.view s vs).put w := by
  rw [postgres.view_append]
  rfl

/-- A lookup that no write of the list changes. -/
theorem view_look {β : Type} (look : Store → β)
    (keeps : ∀ s, ∀ w ∈ vs, look (Store.put s w) = look s) :
    look (postgres.view s vs) = look s := by
  induction vs generalizing s with
  | nil => rfl
  | cons w vs ih =>
      rw [view_cons, ih (fun s v hv => keeps s v (List.mem_cons_of_mem _ hv)),
        keeps s w List.mem_cons_self]

/-- A lookup that only writes with `lock` change is left alone by other writes. -/
theorem view_unchanged {β : Type} (look : Store → β) {lock : Lock}
    (step : ∀ {s w}, lock ∉ Write.locks w → look (s.put w) = look s)
    (free : ∀ w ∈ vs, lock ∉ w.locks) : look (postgres.view s vs) = look s :=
  view_look look (fun _ w hw => step (free w hw))

theorem find_eventVersions_of_view {k : Uuid × Nat}
    (h : (postgres.view s vs).eventVersions.find k = none) : s.eventVersions.find k = none := by
  induction vs generalizing s with
  | nil => exact h
  | cons w vs ih => exact Store.find_eventVersions_of_put (ih h)

theorem find_outboxEvents_of_view {id : Uuid}
    (h : (postgres.view s vs).outboxEvents.find id = none) : s.outboxEvents.find id = none := by
  induction vs generalizing s with
  | nil => exact h
  | cons w vs ih => exact Store.find_outboxEvents_of_put (ih h)

theorem find_failedEvents_of_view {id : Uuid}
    (h : (postgres.view s vs).failedEvents.find id = none) : s.failedEvents.find id = none := by
  induction vs generalizing s with
  | nil => exact h
  | cons w vs ih => exact Store.find_failedEvents_of_put (ih h)

theorem mem_view_eventVersions {v : EventVersion} (hv : v ∈ s.eventVersions) :
    v ∈ (postgres.view s vs).eventVersions := by
  induction vs generalizing s with
  | nil => exact hv
  | cons w vs ih => exact ih (Store.mem_put_eventVersions hv)

theorem mem_of_mem_view {id : Uuid} {x : NormalizedEvent}
    (free : ∀ w ∈ vs, .eventId id ∉ w.locks) (hx : x ∈ (postgres.view s vs).normalizedEvents)
    (same : x.id = id) : x ∈ s.normalizedEvents := by
  induction vs generalizing s with
  | nil => exact hx
  | cons w vs ih =>
      exact Store.mem_of_mem_put_of_not_lock (free w (by simp))
        (ih (fun v hv => free v (by simp [hv])) hx) same

theorem exists_mem_view_outboxEvents {β : Type} (f : OutboxEvent → β)
    (kept : ∀ o p, f (o.patch p) = f o) (vs : List Write) {o : OutboxEvent}
    (ho : o ∈ s.outboxEvents) : ∃ o' ∈ (postgres.view s vs).outboxEvents, f o' = f o := by
  induction vs generalizing s o with
  | nil => exact ⟨o, ho, rfl⟩
  | cons w vs ih =>
      obtain ⟨o', ho', same⟩ := Store.exists_mem_put_outboxEvents (w := w) f kept ho
      obtain ⟨o'', ho'', same'⟩ := ih ho'
      exact ⟨o'', ho'', same'.trans same⟩

/-- A row of the view is a committed or a pending one, up to patches. -/
theorem exists_of_mem_view_outboxEvents {β : Type} (f : OutboxEvent → β)
    (kept : ∀ o p, f (o.patch p) = f o) {o : OutboxEvent}
    (ho : o ∈ (postgres.view s vs).outboxEvents) :
    (∃ o' ∈ s.outboxEvents, f o' = f o) ∨ ∃ o', .addOutbox o' ∈ vs ∧ f o' = f o := by
  induction vs generalizing s with
  | nil => exact .inl ⟨o, ho, rfl⟩
  | cons w vs ih =>
      rcases ih ho with ⟨o', ho', same⟩ | ⟨o', ho', same⟩
      · rcases Store.exists_of_mem_put_outboxEvents f kept ho' with ⟨o'', old, same'⟩ | rfl
        · exact .inl ⟨o'', old, same'.trans same⟩
        · exact .inr ⟨o', by simp, same⟩
      · exact .inr ⟨o', List.mem_cons_of_mem _ ho', same⟩

/-- Writes that are compatible with a pending write do not take its locks. -/
theorem not_lock_of_compatible {ws : List Write} {w : Write} {lock : Lock}
    (h : postgres.Compatible ws vs) (hw : w ∈ ws) (held : lock ∈ w.locks) :
    ∀ v ∈ vs, lock ∉ v.locks := by
  intro v hv
  exact Write.conflict_eq_false_iff.mp (h w hw v hv) lock held

end View

namespace Clock

/-- Time has passed. -/
def Le : Clock → Clock → Prop
  | free, free => True
  | shared s gap, shared t gap' => s ≤ t ∧ gap = gap'
  | _, _ => False

theorem Le.refl (c : Clock) : c.Le c := by
  cases c with
  | free => trivial
  | shared now gap => exact ⟨Int.le_refl now, rfl⟩

theorem Le.trans {a b c : Clock} (first : a.Le b) (rest : b.Le c) : a.Le c := by
  cases a <;> cases b <;> cases c <;> simp only [Le] at *
  exact ⟨first.1.trans rest.1, first.2.trans rest.2⟩

theorem le_read {c : Clock} {t : Time} (h : c.shows t = true) : c.Le (c.read t) := by
  cases c with
  | free => trivial
  | shared now gap => exact ⟨by simpa [shows] using h, rfl⟩

theorem le_foldl_max (now : Time) (gap : Nat) (ts : List Time) :
    now ≤ ts.foldl (fun (m t : Time) => max m (t + gap)) now := by
  induction ts generalizing now with
  | nil => exact Int.le_refl now
  | cons t ts ih => exact (le_max_left now (t + gap)).trans (ih _)

theorem le_flush (c : Clock) (ts : List Time) : c.Le (c.flush ts) := by
  cases c with
  | free => trivial
  | shared now gap => exact ⟨le_foldl_max now gap ts, rfl⟩

end Clock

namespace World

/-- Time has passed; anything else may have changed. -/
def Later (w w' : World) : Prop := w.clock.Le w'.clock

theorem Later.refl (w : World) : w.Later w := Clock.Le.refl _

theorem Later.trans {u v w : World} (first : u.Later v) (rest : v.Later w) : u.Later w :=
  Clock.Le.trans first rest

/-- Time has passed and nothing else has happened. -/
def Idle (w w' : World) : Prop := w.clock.Le w'.clock ∧ w' = { w with clock := w'.clock }

theorem Idle.refl (w : World) : w.Idle w := ⟨Clock.Le.refl _, rfl⟩

theorem Idle.trans {u v w : World} (first : u.Idle v) (rest : v.Idle w) : u.Idle w := by
  refine ⟨first.1.trans rest.1, ?_⟩
  rw [rest.2, first.2]

end World

/-- The state in which the clock shows `c`. -/
def withClock {ι : Type} (σ : State ι) (c : Clock) : State ι :=
  { σ with world := { σ.world with clock := c } }

@[simp] theorem withClock_store {ι : Type} (σ : State ι) (c : Clock) :
    (withClock σ c).store = σ.store := rfl

@[simp] theorem withClock_log {ι : Type} (σ : State ι) (c : Clock) :
    (withClock σ c).log = σ.log := rfl

@[simp] theorem withClock_clock {ι : Type} (σ : State ι) (c : Clock) :
    (withClock σ c).world.clock = c := rfl

/-- The state in which `point` has been delivered to the index for an event. -/
def withPoint {ι : Type} (σ : State ι) (eventId : Uuid) (point : IndexPoint) : State ι :=
  { σ with
    world :=
      { σ.world with
        index := Function.update σ.world.index eventId (some point)
        deliveries := σ.world.deliveries ++ [(eventId, point)] } }

@[simp] theorem withPoint_store {ι : Type} (σ : State ι) (eventId : Uuid) (point : IndexPoint) :
    (withPoint σ eventId point).store = σ.store := rfl

@[simp] theorem withPoint_index {ι : Type} (σ : State ι) (eventId : Uuid) (point : IndexPoint) :
    (withPoint σ eventId point).world.index =
      Function.update σ.world.index eventId (some point) := rfl

/-- The state in which the broker has received another task. -/
def withTask {ι : Type} (σ : State ι) (name : String) : State ι :=
  { σ with world := { σ.world with broker := σ.world.broker ++ [name] } }

@[simp] theorem withTask_store {ι : Type} (σ : State ι) (name : String) :
    (withTask σ name).store = σ.store := rfl

@[simp] theorem withTask_broker {ι : Type} (σ : State ι) (name : String) :
    (withTask σ name).world.broker = σ.world.broker ++ [name] := rfl

/-- The state in which the object store has received another object. -/
def withObject {ι : Type} (σ : State ι) (key : String) (body : Json) : State ι :=
  { σ with world := { σ.world with objects := σ.world.objects ++ [(key, body)] } }

@[simp] theorem withObject_store {ι : Type} (σ : State ι) (key : String) (body : Json) :
    (withObject σ key body).store = σ.store := rfl

end OmniSync
