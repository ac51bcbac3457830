import OmniSync.Dlq.Router
import OmniSync.Dlq.Spacing
import OmniSync.Txn.Publishes

/-!
# Runs of the queue

Failures are recorded, the retrier scans, operators replay entries, and any other transactions
run, all at the same time. The dispatches of an operation are the steps in which a scan sends its
task. `Attends` says where the recordings and the scans of a run are, and what the other
transactions may still commit; `Attends.act` is what one step of a run does to the queue.

An operation is followed by the accounts of its entries. A write spares it if it neither opens an
entry of the operation nor changes the status or the attempts of any entry.
-/

namespace OmniSync

open Txn

/-- What the retrier goes by: identity, operation, status and attempts. -/
def FailedEvent.account (f : FailedEvent) : Uuid × String × String × FailedStatus × Nat :=
  (f.id, f.source, f.operation, f.status, f.replayAttempts)

theorem FailedEvent.active_congr {f g : FailedEvent} (h : f.status = g.status) :
    f.active = g.active := by
  simp only [FailedEvent.active, h]

theorem FailedEvent.fields_of_account {f g : FailedEvent} (h : f.account = g.account) :
    f.id = g.id ∧ f.operation = g.operation ∧ f.status = g.status ∧
      f.replayAttempts = g.replayAttempts ∧ f.active = g.active := by
  simp only [account, Prod.mk.injEq] at h
  exact ⟨h.1, h.2.2.1, h.2.2.2.1, h.2.2.2.2, FailedEvent.active_congr h.2.2.2.1⟩

section Spares

variable (operation : String)

/-- The write opens no entry of the operation, and changes no status and no counter. -/
def Write.Spares : Write → Prop
  | .addFailed row => row.operation ≠ operation
  | .patchFailed _ p => p.status = none ∧ p.replayAttempts = none
  | _ => True

/-- What the statement writes spares the operation. -/
def Stmt.Spares : Stmt → Prop
  | .insertFailed row => ∀ id t, (row id t).operation ≠ operation
  | .updateFailed _ p => p.status = none ∧ p.replayAttempts = none
  | _ => True

/-- The operation has the same accounts in both states. -/
structure SameAccounts (s t : Store) : Prop where
  old : ∀ y ∈ t.failedEvents, y.operation = operation →
    ∃ x ∈ s.failedEvents, x.account = y.account
  new : ∀ x ∈ s.failedEvents, x.operation = operation →
    ∃ y ∈ t.failedEvents, y.account = x.account

variable {operation}

theorem Write.spares_of_table {w : Write} (other : w.table ≠ .failedEvents) :
    w.Spares operation := by
  cases w with
  | addFailed row => exact (other rfl).elim
  | patchFailed id p => exact (other rfl).elim
  | _ => trivial

theorem Stmt.Spares.writes {s : Stmt} {w : Write} (h : s.Spares operation)
    (written : postgres.Writes s w) : w.Spares operation := by
  obtain ⟨choice, world, view, locked, answer, new, world', run, hw⟩ := written
  change exec s choice world view locked = _ at run
  have table := exec_table run w hw
  cases s with
  | insertFailed draft =>
      cases choice with
      | draw id t =>
          simp only [exec] at run
          split at run
          · obtain ⟨_, ⟨_, _, rfl⟩ | ⟨_, _, rfl⟩⟩ := insertUnless_some run
            · exact (List.not_mem_nil hw).elim
            · cases List.mem_singleton.mp hw
              exact h id t
          · cases run
      | _ => cases run
  | selectDue maxAttempts now limit =>
      cases choice with
      | rows ids =>
          simp only [exec] at run
          split at run
          · cases run
            obtain ⟨_, _, rfl⟩ := List.mem_map.mp hw
            trivial
          · cases run
      | _ => cases run
  | updateFailed id p =>
      cases choice <;> cases run
      cases List.mem_singleton.mp hw
      exact h
  | _ =>
      refine Write.spares_of_table (fun same => ?_)
      rw [same] at table
      cases table

namespace SameAccounts

variable {s t u : Store} {ws : List Write}

theorem refl (s : Store) : SameAccounts operation s s :=
  ⟨fun y hy _ => ⟨y, hy, rfl⟩, fun x hx _ => ⟨x, hx, rfl⟩⟩

theorem trans (first : SameAccounts operation s t) (rest : SameAccounts operation t u) :
    SameAccounts operation s u := by
  refine ⟨fun z hz own => ?_, fun x hx own => ?_⟩
  · obtain ⟨y, hy, same⟩ := rest.old z hz own
    obtain ⟨x, hx, same'⟩ := first.old y hy
      ((FailedEvent.fields_of_account same).2.1.trans own)
    exact ⟨x, hx, same'.trans same⟩
  · obtain ⟨y, hy, same⟩ := first.new x hx own
    obtain ⟨z, hz, same'⟩ := rest.new y hy
      ((FailedEvent.fields_of_account same).2.1.trans own)
    exact ⟨z, hz, same'.trans same⟩

theorem patch {id : Uuid} {p : FailedPatch} (status : p.status = none)
    (attempts : p.replayAttempts = none) :
    SameAccounts operation s (s.put (.patchFailed id p)) := by
  have same : ∀ x : FailedEvent, (if x.id = id then x.patch p else x).account = x.account := by
    intro x
    split
    · simp only [FailedEvent.account, FailedEvent.patch, status, attempts, Option.getD_none]
    · rfl
  refine ⟨fun y hy _ => ?_, fun x hx _ => ?_⟩
  · obtain ⟨x, hx, rfl⟩ := Store.mem_put_patchFailed.mp hy
    exact ⟨x, hx, (same x).symm⟩
  · exact ⟨_, Store.mem_put_patchFailed.mpr ⟨x, hx, rfl⟩, same x⟩

theorem put {w : Write} (spares : w.Spares operation) : SameAccounts operation s (s.put w) := by
  cases w with
  | addFailed row =>
      refine ⟨fun y hy own => ?_, fun x hx _ => ⟨x, Table.mem_add_of_mem hx, rfl⟩⟩
      rcases Table.mem_of_mem_add hy with old | rfl
      · exact ⟨y, old, rfl⟩
      · exact (spares own).elim
  | patchFailed id p => exact .patch spares.1 spares.2
  | _ => exact ⟨fun y hy _ => ⟨y, hy, rfl⟩, fun x hx _ => ⟨x, hx, rfl⟩⟩

/-- Writes that spare the operation leave its accounts. -/
theorem view (spares : ∀ w ∈ ws, w.Spares operation) :
    SameAccounts operation s (postgres.view s ws) := by
  induction ws generalizing s with
  | nil => exact .refl s
  | cons w ws ih =>
      rw [view_cons]
      exact (put (spares w List.mem_cons_self)).trans
        (ih (fun v hv => spares v (List.mem_cons_of_mem w hv)))

end SameAccounts

end Spares

/-- The writes of a manual replay. -/
def Resolves (ws : List Write) : Prop :=
  ∃ id attempts now, ws = [.patchFailed id { replayAttempts := some attempts },
    .patchFailed id { status := some .resolved, nextRetryAt := some none
                      resolvedAt := some (some now) }]

/-- A manual replay publishes nothing but the resolution of an entry. -/
theorem replayFailedEvent_publishes (failedEventId : Uuid) :
    (replayFailedEvent failedEventId).Publishes postgres Resolves [] := by
  refine ⟨fun e => trivial, fun choice world view locked answer new world' run => ?_⟩
  change exec _ choice world view locked = _ at run
  cases choice <;> cases run
  cases view.failedEvents.find failedEventId with
  | none => trivial
  | some failed =>
      refine ⟨fun e => trivial, fun choice world view locked answer new world' run => ?_⟩
      change exec _ choice world view locked = _ at run
      cases choice <;> cases run
      refine ⟨fun e => trivial, fun choice world view locked answer new world' run => ?_⟩
      change exec _ choice world view locked = _ at run
      cases choice <;> cases run
      refine ⟨fun e => trivial, fun choice world view locked answer new world' run => ?_⟩
      obtain ⟨now, rfl, rfl, rfl⟩ := exec_utcNow run
      refine ⟨fun e => trivial, fun choice world view locked answer new world' run => ?_⟩
      change exec _ choice world view locked = _ at run
      cases choice <;> cases run
      refine ⟨⟨failed.id, failed.replayAttempts + 1, now, rfl⟩, fun answer => ?_⟩
      cases answer <;> trivial

/-- A transaction of a run. -/
inductive Activity where
  | queue (job : DlqJob)
  | replay (failedEventId : Uuid)
  | other (p : Tx Unit)

namespace Activity

def prog (settings : Settings) : Activity → Tx Unit
  | queue job => job.prog settings
  | replay failedEventId => do
      let _ ← replayFailedEvent failedEventId
      return ()
  | other p => p

def scans : Activity → Bool
  | queue .scan => true
  | _ => false

/-- A transaction that is neither a recording nor a scan nor a replay spares the operation. -/
def Leaves (operation : String) : Activity → Prop
  | other p => p.Issuing (Stmt.Spares operation)
  | _ => True

/-- What a transaction may commit that is neither a recording nor a scan. -/
def Commits (operation : String) : Activity → List Write → Prop
  | queue _, _ => True
  | replay _, ws => Resolves ws
  | other _, ws => ∀ w ∈ ws, w.Spares operation

theorem publishes {operation : String} {settings : Settings} {activity : Activity}
    (aside : ∀ job, activity ≠ .queue job) (leaves : activity.Leaves operation) :
    (activity.prog settings).Publishes postgres (activity.Commits operation) [] := by
  cases activity with
  | queue job => exact (aside job rfl).elim
  | replay failedEventId => exact (replayFailedEvent_publishes failedEventId).bind_pure
  | other p =>
      exact .of_issuing leaves (fun s w spares written => spares.writes written)
        (fun w hw => (List.not_mem_nil hw).elim)

end Activity

/-- A transaction ends here without a commit: its worker dies, or the commit fails. -/
def endsEarly : Tx Unit → Move Exn Choice → Bool
  | .stmt _ _, .crash _ => true
  | .commit _, .crash _ => true
  | .rollback _, .crash _ => true
  | .commit _, .fail _ => true
  | _, _ => false

/-- A step of a run. -/
abbrev QueueStep (ι : Type) :=
  Taken (Cluster Answer Exn Store Write World ι Unit) (ι × Move Exn Choice)

namespace QueueStep

variable {ι : Type} (x : QueueStep ι)

/-- The session that makes the step. -/
def actor : TxSession Unit := x.before.sessions x.label.1

/-- The task that the step sends. -/
def task : Option String :=
  match x.actor.prog, x.label.2 with
  | .stmt (.sendTask name) _, .step _ => some name
  | _, _ => none

/-- A scan of the retrier dispatches the operation. -/
def dispatches (activities : ι → Activity) (operation : String) : Bool :=
  (activities x.label.1).scans && decide (x.task = some operation)

/-- The transaction ends without a commit. -/
def aborts : Bool := endsEarly x.actor.prog x.label.2

/-- What the transaction sees when it makes the step. -/
def view : Store := postgres.view x.before.shared.store x.actor.writes

end QueueStep

/-- How often the scans of a run dispatch the operation. -/
def dispatchCount {ι : Type} (activities : ι → Activity) (operation : String)
    (steps : List (QueueStep ι)) : Nat :=
  steps.countP (fun x => x.dispatches activities operation)

/-- The call that a recording transaction answers. -/
def DlqPoint.call : DlqPoint → Option FailureCall
  | record call => some call
  | selectActive call _ => some call
  | updateExisting call _ _ => some call
  | flushExisting call _ _ => some call
  | commitExisting call _ _ => some call
  | insertNew call _ => some call
  | commitNew call _ _ _ => some call
  | _ => none

/-- One step of a run, for the queue: of a recording or a scan, or of any other transaction. -/
inductive QueueMove (settings : Settings) (operation : String) (activity : Activity)
    (locked : Write → Bool) (s : Store) (p : DlqPoint) (m : Move Exn Choice) :
    DlqPoint → Store → Prop where
  | queue {job : DlqJob} {q : DlqPoint} {t : Store} : activity = .queue job →
      PointStep settings locked s p m q t →
        QueueMove settings operation activity locked s p m q t
  | aside {ws : List Write} : (∀ job, activity ≠ .queue job) →
      ws = [] ∨ activity.Commits operation ws →
        QueueMove settings operation activity locked s p m p (postgres.view s ws)

section Attends

variable {ι : Type} {settings : Settings} {operation : String} {activities : ι → Activity}

/-- Where the recordings and scans of a run are, and what its other transactions may do. -/
structure Attends (settings : Settings) (operation : String) (activities : ι → Activity)
    (c : Cluster Answer Exn Store Write World ι Unit) (points : ι → DlqPoint) : Prop where
  queue : ∀ i job, activities i = .queue job → c.sessions i = (points i).session settings
  aside : ∀ i, (∀ job, activities i ≠ .queue job) → points i = .ended (.ok ()) [] ∧
    (c.sessions i).prog.Publishes postgres ((activities i).Commits operation)
      (c.sessions i).writes
  disjoint : c.Disjoint postgres
  secured : ∀ i, (points i).Secured settings c.shared.store
  scanning : ∀ i, (points i).scans = true → activities i = .queue .scan
  recording : ∀ i call, (points i).call = some call → activities i = .queue (.record call)

/-- Where a transaction starts. -/
def Activity.point (settings : Settings) : Activity → DlqPoint
  | queue job => job.point settings
  | _ => .ended (.ok ()) []

theorem attends_start {σ : State ι} (leaves : ∀ i, (activities i).Leaves operation) :
    Attends settings operation activities
      (Cluster.start σ (fun i => (activities i).prog settings))
      (fun i => (activities i).point settings) := by
  refine ⟨fun i job queued => ?_, fun i aside => ⟨?_, Activity.publishes aside (leaves i)⟩,
    Cluster.disjoint_start, fun i => ?_, fun i => ?_, fun i => ?_⟩
  · change (⟨(activities i).prog settings, []⟩ : TxSession Unit) = _
    rw [queued]
    exact (job.point_session settings).symm
  · cases activity : activities i with
    | queue job => exact (aside job activity).elim
    | _ => rfl
  · cases activities i with
    | queue job =>
        cases job with
        | record call => trivial
        | scan =>
            unfold Activity.point DlqJob.point
            cases settings.DLQ_RETRY_ENABLED <;> trivial
    | _ => trivial
  · cases activities i with
    | queue job =>
        cases job with
        | record call => exact fun impossible => (nomatch impossible)
        | scan => exact fun _ => rfl
    | _ => exact fun impossible => (nomatch impossible)
  · intro call
    cases activities i with
    | queue job =>
        cases job with
        | record call' =>
            intro same
            cases same
            rfl
        | scan =>
            unfold Activity.point DlqJob.point
            cases settings.DLQ_RETRY_ENABLED <;> exact fun impossible => (nomatch impossible)
    | _ => exact fun impossible => (nomatch impossible)

theorem PointStep.call {locked : Write → Bool} {s t : Store} {p q : DlqPoint}
    {m : Move Exn Choice} (h : PointStep settings locked s p m q t) {call : FailureCall}
    (calls : q.call = some call) : p.call = some call := by
  cases h <;> first | exact calls | cases calls

variable [Fintype ι] [DecidableEq ι] {points : ι → DlqPoint}
variable {c c' : Cluster Answer Exn Store Write World ι Unit} {i : ι} {m : Move Exn Choice}

/-- What the other processes know of the queue survives a step. -/
theorem Attends.kept (h : Attends settings operation activities c points)
    (taken : c.act postgres i m = some c') :
    ∀ j, j ≠ i → (points j).Secured settings c'.shared.store := by
  have acts : Cluster.Acts postgres c (i, m) c' := taken
  intro j own
  by_cases queued : ∃ job, activities j = .queue job
  · obtain ⟨job, queued⟩ := queued
    rw [Cluster.store_of_acts acts]
    refine (h.secured j).view ?_
    have apart := h.disjoint j i own
    rw [h.queue j job queued] at apart
    unfold Cluster.committed Session.commits
    split
    · exact apart
    · exact postgres.compatible_nil_right _
  · rw [(h.aside j (fun job same => queued ⟨job, same⟩)).1]
    trivial

omit [Fintype ι] in
/-- One process has moved on to `q`. -/
theorem Attends.update (h : Attends settings operation activities c points) {q : DlqPoint}
    {session : TxSession Unit} {shared : State ι}
    (disjoint : Cluster.Disjoint postgres ⟨shared, Function.update c.sessions i session⟩)
    (kept : ∀ j, j ≠ i → (points j).Secured settings shared.store)
    (queue : ∀ job, activities i = .queue job → session = q.session settings)
    (aside : (∀ job, activities i ≠ .queue job) → q = .ended (.ok ()) [] ∧
      session.prog.Publishes postgres ((activities i).Commits operation) session.writes)
    (secured : q.Secured settings shared.store)
    (scanning : q.scans = true → activities i = .queue .scan)
    (recording : ∀ call, q.call = some call → activities i = .queue (.record call)) :
    Attends settings operation activities ⟨shared, Function.update c.sessions i session⟩
      (Function.update points i q) where
  queue j job queued := by
    by_cases own : j = i
    · subst own
      simp only [Function.update_self]
      exact queue job queued
    · simp only [Function.update_of_ne own]
      exact h.queue j job queued
  aside j other := by
    by_cases own : j = i
    · subst own
      simp only [Function.update_self]
      exact aside other
    · simp only [Function.update_of_ne own]
      exact h.aside j other
  disjoint := disjoint
  secured := (Function.forall_update_iff points (fun _ p => p.Secured settings shared.store)).mpr
    ⟨secured, kept⟩
  scanning := (Function.forall_update_iff points (fun j p =>
    p.scans = true → activities j = .queue .scan)).mpr ⟨scanning, fun j _ => h.scanning j⟩
  recording := (Function.forall_update_iff points (fun j p =>
    ∀ call, p.call = some call → activities j = .queue (.record call))).mpr
      ⟨recording, fun j _ => h.recording j⟩

/-- What one step does to the queue. -/
theorem Attends.act (h : Attends settings operation activities c points)
    (taken : c.act postgres i m = some c') :
    ∃ q, QueueMove settings operation (activities i) (c.locked postgres i) c.shared.store (points i)
        m q c'.shared.store ∧
      Attends settings operation activities c' (Function.update points i q) := by
  have acts : Cluster.Acts postgres c (i, m) c' := taken
  have store := Cluster.store_of_acts acts
  have disjoint := h.disjoint.act taken
  have kept := h.kept taken
  obtain ⟨session, shared, step, rfl⟩ := Cluster.act_eq_some_iff.mp taken
  by_cases queued : ∃ job, activities i = .queue job
  · obtain ⟨job, queued⟩ := queued
    rw [h.queue i job queued] at step
    obtain ⟨q, rfl, moved⟩ := advance_point step
    exact ⟨q, .queue queued moved, h.update disjoint kept (fun _ _ => rfl)
      (fun aside => (aside job queued).elim) ((h.secured i).step moved)
      (fun scans => h.scanning i (moved.scans scans))
      (fun call calls => h.recording i call (moved.call calls))⟩
  · have aside : ∀ job, activities i ≠ .queue job := fun job same => queued ⟨job, same⟩
    obtain ⟨ended, publishes⟩ := h.aside i aside
    obtain ⟨publishes', commits⟩ := publishes.advance step
    refine ⟨points i, ?_, h.update disjoint kept (fun job same => (aside job same).elim)
      (fun _ => ⟨ended, publishes'⟩) ?_ (h.scanning i) (h.recording i)⟩
    · change QueueMove _ _ _ _ _ _ _ _ shared.store
      rw [store]
      exact .aside aside commits
    · rw [ended]
      trivial

end Attends

end OmniSync
