import OmniSync.Dlq.Budget
import OmniSync.Integrations.Polls
import OmniSync.Integrations.Watermark

/-!
# After a success

A successful execution leaves the entry of its operation as it is: nothing but a manual replay
resolves an entry. So the retrier goes on dispatching an operation that has succeeded, until its
entry is exhausted: `retried_after_success`. It stops only if the entry had no attempt left when
the operation succeeded, `Spent`, and if no earlier failure of the operation is still being
recorded by then, `AllRecorded`.
-/

namespace OmniSync

open Txn

/-- Every active entry of the operation has used up its attempts. -/
def Spent (settings : Settings) (operation : String) (s : Store) : Prop :=
  ∀ f ∈ s.failedEvents.rows, f.operation = operation → f.active →
    settings.DLQ_MAX_REPLAY_ATTEMPTS ≤ f.replayAttempts

instance (settings : Settings) (operation : String) (s : Store) :
    Decidable (Spent settings operation s) :=
  inferInstanceAs (Decidable (∀ f ∈ s.failedEvents.rows, f.operation = operation → f.active →
    settings.DLQ_MAX_REPLAY_ATTEMPTS ≤ f.replayAttempts))

/-- A failure of the operation is recorded. -/
def Activity.records (operation : String) : Activity → Bool
  | queue (.record call) => decide (call.operation = operation)
  | _ => false

/-- The transactions that record a failure of the operation have ended. -/
def AllRecorded {ι : Type} (activities : ι → Activity) (operation : String)
    (c : Cluster Answer Exn Store Write World ι Unit) : Prop :=
  ∀ i, (activities i).records operation = true → (c.sessions i).prog.running = false

/-- The step dispatches no task of the operation, and after it no entry of the operation is
exhausted that was not so in `start`. -/
def QueueStep.StaysSettled {ι : Type} (activities : ι → Activity) (operation : String)
    (start : Store) (x : QueueStep ι) : Prop :=
  x.dispatches activities operation = false ∧
    ∀ f ∈ x.after.shared.store.failedEvents.rows, f.operation = operation →
      f.status = .exhausted → ∃ g ∈ start.failedEvents.rows, g.id = f.id ∧ g.status = .exhausted

/-- No active entry of the operation has an attempt left, and what is exhausted was so in
`start`. -/
def Settled (settings : Settings) (operation : String) (start s : Store) : Prop :=
  ∀ f ∈ s.failedEvents, f.operation = operation →
    (f.active → settings.DLQ_MAX_REPLAY_ATTEMPTS ≤ f.replayAttempts) ∧
      (f.status = .exhausted → ∃ g ∈ start.failedEvents, g.id = f.id ∧ g.status = .exhausted)

namespace Settled

variable {settings : Settings} {operation : String} {start s t : Store} {f : FailedEvent}
variable {now : Time} {ws : List Write}

theorem refl (h : Spent settings operation s) : Settled settings operation s s :=
  fun f hf own => ⟨h f hf own, fun exhausted => ⟨f, hf, rfl, exhausted⟩⟩

theorem congr (h : Settled settings operation start s) (same : SameAccounts operation s t) :
    Settled settings operation start t := by
  intro y hy own
  obtain ⟨x, hx, account⟩ := same.old y hy own
  obtain ⟨id, operation', status, attempts, active⟩ := FailedEvent.fields_of_account account
  have before := h x hx (operation'.trans own)
  rw [id, status, attempts, active] at before
  exact before

/-- The retrier selects no entry of a settled operation. -/
theorem not_due (h : Settled settings operation start s) (member : f ∈ s.failedEvents)
    (due : f.Due settings now) : f.operation ≠ operation := by
  intro own
  exact absurd ((h f member own).1 due.1) (Nat.not_le_of_lt due.2.1)

theorem record (h : Settled settings operation start s) {row : FailedEvent}
    (different : row.operation ≠ operation) :
    Settled settings operation start (s.put (.addFailed row)) := by
  intro f hf own
  rcases Table.mem_of_mem_add hf with old | rfl
  · exact h f old own
  · exact (different own).elim

/-- A resolved entry is neither active nor exhausted. -/
theorem resolve (h : Settled settings operation start s) (resolves : Resolves ws) :
    Settled settings operation start (postgres.view s ws) := by
  obtain ⟨id, attempts, now, rfl⟩ := resolves
  intro f hf own
  rw [view_cons, view_cons] at hf
  obtain ⟨y, hy, rfl⟩ := Store.mem_put_patchFailed.mp hf
  obtain ⟨x, hx, rfl⟩ := Store.mem_put_patchFailed.mp hy
  by_cases same : x.id = id
  · have resolved : (x.patch { replayAttempts := some attempts }).id = id := same
    rw [if_pos same, if_pos resolved]
    exact ⟨fun active => (nomatch active), fun exhausted => (nomatch exhausted)⟩
  · rw [if_neg same, if_neg same] at own ⊢
    exact h x hx own

/-- The commit of a scan accounts for entries of other operations. -/
theorem scanned (h : Settled settings operation start s) {st : ScanState}
    (secured : (DlqPoint.sendTask st).Secured settings s) :
    Settled settings operation start (postgres.view s (st.writes settings)) := by
  intro f hf own
  rcases secured.mem_view hf with ⟨d, _, member, due, rfl⟩ | ⟨member, _⟩
  · exact (h.not_due member due own).elim
  · exact h f member own

end Settled

/-- A recording transaction that has not got to its end is running. -/
theorem DlqPoint.running_of_call {settings : Settings} {p : DlqPoint} {call : FailureCall}
    (calls : p.call = some call) : (p.prog settings).running = true := by
  cases p <;> first | rfl | cases calls

section Steps

variable {ι : Type} {settings : Settings} {operation : String} {activities : ι → Activity}
variable {start : Store} {points : ι → DlqPoint} {x : QueueStep ι}

/-- The run has settled: so has the queue, and no failure of the operation is being recorded. -/
structure AtRest (settings : Settings) (operation : String) (activities : ι → Activity)
    (start : Store) (c : Cluster Answer Exn Store Write World ι Unit) (points : ι → DlqPoint) :
    Prop where
  attends : Attends settings operation activities c points
  settled : Settled settings operation start c.shared.store
  recorded : ∀ i call, (points i).call = some call → call.operation ≠ operation

theorem Attends.atRest {c : Cluster Answer Exn Store Write World ι Unit}
    (h : Attends settings operation activities c points)
    (spent : Spent settings operation c.shared.store)
    (recorded : AllRecorded activities operation c) :
    AtRest settings operation activities c.shared.store c points := by
  refine ⟨h, .refl spent, fun i call calls own => ?_⟩
  have queued := h.recording i call calls
  have ended := recorded i (by rw [queued]; exact decide_eq_true own)
  rw [h.queue i _ queued] at ended
  exact Bool.false_ne_true (ended.symm.trans (DlqPoint.running_of_call calls))

/-- A commit of the queue leaves a settled operation settled. -/
theorem Settled.commit {s : Store} {p : DlqPoint} (h : Settled settings operation start s)
    (secured : p.Secured settings s) (commits : p.commits = true)
    (recorded : ∀ call, p.call = some call → call.operation ≠ operation) :
    Settled settings operation start (postgres.view s (p.writes settings)) := by
  cases p with
  | sendTask st => exact h.scanned secured
  | commitExisting call now existing => exact h.congr (.patch rfl rfl)
  | commitNew call now id created => exact h.record (recorded call rfl)
  | _ => cases commits

/-- A step of a run at rest dispatches nothing of the operation, and leaves it settled. -/
theorem AtRest.settles {q : DlqPoint} {locked : Write → Bool} {t : Store}
    (h : AtRest settings operation activities start x.before points)
    (move : QueueMove settings operation (activities x.label.1) locked x.before.shared.store
      (points x.label.1) x.label.2 q t) :
    x.dispatches activities operation = false ∧ Settled settings operation start t ∧
      ∀ call, q.call = some call → call.operation ≠ operation := by
  have recorded := h.recorded x.label.1
  cases move with
  | @aside ws aside commits =>
      refine ⟨?_, ?_, recorded⟩
      · unfold QueueStep.dispatches
        cases activity : activities x.label.1 with
        | queue job => exact (aside job activity).elim
        | _ => rfl
      · rcases commits with rfl | commits
        · exact h.settled
        · cases activity : activities x.label.1 with
          | queue job => exact (aside job activity).elim
          | replay id =>
              rw [activity] at commits
              exact h.settled.resolve commits
          | other p =>
              rw [activity] at commits
              exact h.settled.congr (.view commits)
  | queue queued moved =>
      have task := QueueStep.task_eq (h.attends.queue _ _ queued)
      have unsent : (points x.label.1).task x.label.2 = none →
          x.dispatches activities operation = false := by
        intro none
        unfold QueueStep.dispatches
        rw [task, none]
        simp
      have secured := h.attends.secured x.label.1
      refine and_assoc.mp ⟨?_, fun call calls => recorded call (moved.call calls)⟩
      cases moved.progress with
      | quiet sent none => exact ⟨unsent none, h.settled⟩
      | @send st f rest here next sends =>
          rw [here] at secured
          obtain ⟨member, due⟩ :=
            ScanState.Sound.due secured f (ScanState.Sound.subset secured (by rw [next]; simp))
          refine ⟨?_, h.settled⟩
          unfold QueueStep.dispatches
          rw [task, sends]
          have other := h.settled.not_due member due
          simp [other]
      | commit commits none => exact ⟨unsent none, h.settled.commit secured commits recorded⟩
      | abort over' sent none => exact ⟨unsent none, h.settled⟩

variable [Fintype ι] [DecidableEq ι]

/-- What one step of a run at rest does. -/
theorem AtRest.step (h : AtRest settings operation activities start x.before points)
    (taken : Cluster.Acts postgres x.before x.label x.after) :
    x.StaysSettled activities operation start ∧
      ∃ points', AtRest settings operation activities start x.after points' := by
  obtain ⟨q, move, attends'⟩ := h.attends.act taken
  obtain ⟨quiet, settled, recorded⟩ := h.settles move
  have others : ∀ i call, (Function.update points x.label.1 q i).call = some call →
      call.operation ≠ operation :=
    (Function.forall_update_iff points (fun _ p =>
      ∀ call, p.call = some call → call.operation ≠ operation)).mpr
        ⟨recorded, fun i _ => h.recorded i⟩
  exact ⟨⟨quiet, fun f hf own => (settled f hf own).2⟩, _, attends', settled, others⟩

end Steps

theorem Stmt.Booked.spares {s : Stmt} {operation : String} (h : s.Booked) : s.Spares operation := by
  cases s <;> trivial

/-- A sync run touches the queue only if it fails, and then it records its own operation. -/
theorem runConnectorSync_leaves {rt : Runtime} {settings : Settings} {source operation : String}
    {requested : Option String} (other : operationOf source requested ≠ operation) :
    (Activity.other (do
      let _ ← runConnectorSync rt settings source requested
      return ())).Leaves operation := by
  have booked : ∀ s : Stmt, s.Booked → s.Spares operation := fun _ => Stmt.Booked.spares
  refine .bind ?_ (fun _ => trivial)
  unfold runConnectorSync
  refine .bind (.of_within (.issue trivial)) (fun cid => .bind ?_ (fun logId => ?_))
  · unfold createSyncLog
    exact .bind (.of_within (.issue trivial)) (fun _ => .bind .commitWork (fun _ => trivial))
  · refine .tryCatch (.bind ?_ (fun results => ?_)) (fun e => ?_)
    · exact (issuing_of_ingesting (ingest_ingests _ _ _)).mono booked
    · exact .bind .commitWork (fun _ =>
        .bind ((updateSyncLogStatus_issuing _ _ _).mono booked) (fun _ => trivial))
    · refine .bind .rollbackWork (fun _ => .bind
        ((updateSyncLogStatus_issuing _ _ _).mono booked) (fun _ => .bind ?_ (fun _ => trivial)))
      unfold recordFailureStandalone recordFailure
      refine .bind (.bind (.of_within (.issue trivial)) (fun now => ?_)) (fun _ => .commitWork)
      refine .bind (.of_within (.issue trivial)) (fun existing => ?_)
      cases existing with
      | some existing =>
          refine .bind (.of_within (.issue ⟨rfl, rfl⟩)) (fun _ => ?_)
          exact .bind (.of_within (.issue trivial)) (fun _ => trivial)
      | none => exact .of_within (.issue (fun _ _ => other))

section Runs

variable {ι : Type} [Fintype ι] [DecidableEq ι] {settings : Settings} {operation : String}
variable {activities : ι → Activity} {σ : State ι} {before after : List (QueueStep ι)}
variable {mid last : Cluster Answer Exn Store Write World ι Unit}

theorem exists_attends (leaves : ∀ i, (activities i).Leaves operation)
    (run : Trace (Cluster.Acts postgres)
      (Cluster.start σ (fun i => (activities i).prog settings)) before mid) :
    ∃ points, Attends settings operation activities mid points := by
  induction run with
  | nil => exact ⟨_, attends_start leaves⟩
  | concat run taken ih =>
      obtain ⟨points, attends⟩ := ih
      obtain ⟨q, _, next⟩ := attends.act taken
      exact ⟨_, next⟩

theorem AtRest.run {start : Store} {points : ι → DlqPoint}
    (h : AtRest settings operation activities start mid points)
    (later : Trace (Cluster.Acts postgres) mid after last) :
    (∃ points', AtRest settings operation activities start last points') ∧
      ∀ x ∈ after, x.StaysSettled activities operation start := by
  induction later with
  | nil => exact ⟨⟨points, h⟩, fun x hx => (List.not_mem_nil hx).elim⟩
  | @concat after c c' label later taken ih =>
      obtain ⟨⟨points', rest⟩, settled⟩ := ih
      obtain ⟨stays, rest'⟩ := AtRest.step (x := ⟨c, label, c'⟩) rest taken
      refine ⟨rest', fun x hx => ?_⟩
      rcases List.mem_append.mp hx with old | new
      · exact settled x old
      · rw [List.mem_singleton.mp new]
        exact stays

/-- If no active entry of the operation has an attempt left when it succeeds, and all its
failures are recorded by then, the retrier never dispatches it again, and none of its entries
becomes exhausted. -/
theorem settled_after_success (leaves : ∀ i, (activities i).Leaves operation)
    (run : Trace (Cluster.Acts postgres)
      (Cluster.start σ (fun i => (activities i).prog settings)) before mid)
    (later : Trace (Cluster.Acts postgres) mid after last)
    (spent : Spent settings operation mid.shared.store)
    (recorded : AllRecorded activities operation mid) :
    ∀ x ∈ after, x.StaysSettled activities operation mid.shared.store := by
  obtain ⟨points, attends⟩ := exists_attends leaves run
  exact ((attends.atRest spent recorded).run later).2

end Runs

section Example

/-- The mail poll has failed, a scan dispatches it, its execution runs, and the retrier scans
again. -/
def retriedPoll (settings : Settings) : Fin 4 → Activity
  | 0 => .queue (.record ⟨"imap", "src.imap.tasks.sync_imap_messages",
      .obj [("trigger", .str "resync")], "timed out", none⟩)
  | 1 => .queue .scan
  | 2 => .other (syncImapMessages (calendar mayDays) mayRuntime settings mailbox)
  | 3 => .queue .scan

/-- Up to the end of the dispatched execution, which finds no message. -/
def succeedingSchedule : List (Fin 4 × Move Exn Choice) :=
  [(0, .step (.time 0)), (0, .step (.rows [])), (0, .step (.draw 1 0)), (0, .step .none)] ++
    (scanScript 10000000000 1).map (fun m => (1, m)) ++
      [(2, .step (.text "c")), (2, .step (.draw 7 0)), (2, .step .none), (2, .step .none),
        (2, .step (.mails [])), (2, .step .none), (2, .step .none), (2, .step .none)]

/-- The run up to the success, and the scan after it. -/
def scannedAgain (settings : Settings) (script : List (Move Exn Choice)) : Option
    ((List (QueueStep (Fin 4)) × Cluster Answer Exn Store Write World (Fin 4) Unit) ×
      (List (QueueStep (Fin 4)) × Cluster Answer Exn Store Write World (Fin 4) Unit)) := do
  let before ← (Cluster.start ⟨{}, ∅, []⟩ (fun i => (retriedPoll settings i).prog settings)).history
    postgres succeedingSchedule
  let after ← before.2.history postgres (script.map (fun m => (3, m)))
  return (before, after)

/-- The execution has returned. -/
def succeeded : Tx Unit → Bool
  | .ret _ => true
  | _ => false

theorem retriedPoll_leaves (settings : Settings) (i : Fin 4) :
    (retriedPoll settings i).Leaves "src.imap.tasks.sync_imap_messages" := by
  match i with
  | 0 | 1 | 3 => trivial
  | 2 =>
      exact syncImapMessages_polls.issuing trivial (fun _ => trivial)
        (fun _ => Stmt.Booked.spares)

theorem retriedPoll_recorded {settings : Settings}
    {c : Cluster Answer Exn Store Write World (Fin 4) Unit}
    (ended : (c.sessions 0).prog.running = false) :
    AllRecorded (retriedPoll settings) "src.imap.tasks.sync_imap_messages" c := by
  intro i records
  match i with
  | 0 => exact ended
  | 1 | 2 | 3 => cases records

theorem traces_of_scannedAgain {settings : Settings} {script : List (Move Exn Choice)}
    {before after : List (QueueStep (Fin 4))}
    {mid last : Cluster Answer Exn Store Write World (Fin 4) Unit}
    (h : scannedAgain settings script = some ((before, mid), (after, last))) :
    Trace (Cluster.Acts postgres)
      (Cluster.start ⟨{}, ∅, []⟩ (fun i => (retriedPoll settings i).prog settings)) before mid ∧
        Trace (Cluster.Acts postgres) mid after last := by
  simp only [scannedAgain, Option.bind_eq_bind, Option.bind_eq_some_iff, Prod.exists,
    Option.pure_def, Option.some.injEq, Prod.mk.injEq] at h
  obtain ⟨_, _, first, _, _, second, ⟨rfl, rfl⟩, rfl, rfl⟩ := h
  exact ⟨Cluster.trace_of_history first, Cluster.trace_of_history second⟩

/-- The dispatched execution succeeds. With two attempts allowed, the next scan dispatches the
operation again, and its entry becomes exhausted. -/
theorem retried_after_success : ∃ before mid after last,
    (Trace (Cluster.Acts postgres) (Cluster.start ⟨{}, ∅, []⟩
      (fun i => (retriedPoll { DLQ_MAX_REPLAY_ATTEMPTS := 2 } i).prog
        { DLQ_MAX_REPLAY_ATTEMPTS := 2 })) before mid ∧
      Trace (Cluster.Acts postgres) mid after last) ∧
    (dispatchCount (retriedPoll { DLQ_MAX_REPLAY_ATTEMPTS := 2 })
        "src.imap.tasks.sync_imap_messages" before = 1 ∧
      succeeded (mid.sessions 2).prog = true ∧
        AllRecorded (retriedPoll { DLQ_MAX_REPLAY_ATTEMPTS := 2 })
          "src.imap.tasks.sync_imap_messages" mid) ∧
    last.shared.store.failedEvents.rows.map FailedEvent.status = [.exhausted] ∧
    ¬ ∀ x ∈ after, QueueStep.StaysSettled (retriedPoll { DLQ_MAX_REPLAY_ATTEMPTS := 2 })
      "src.imap.tasks.sync_imap_messages" mid.shared.store x := by
  have shape : (scannedAgain { DLQ_MAX_REPLAY_ATTEMPTS := 2 } (scanScript 20000000000 1)).map
      (fun run => (dispatchCount (retriedPoll { DLQ_MAX_REPLAY_ATTEMPTS := 2 })
          "src.imap.tasks.sync_imap_messages" run.1.1,
        succeeded (run.1.2.sessions 2).prog, (run.1.2.sessions 0).prog.running,
        run.2.2.shared.store.failedEvents.rows.map FailedEvent.status,
        run.2.1.any (fun x => x.dispatches (retriedPoll { DLQ_MAX_REPLAY_ATTEMPTS := 2 })
          "src.imap.tasks.sync_imap_messages"))) =
            some (1, true, false, [.exhausted], true) := by decide +kernel
  obtain ⟨⟨⟨before, mid⟩, after, last⟩, run, facts⟩ := Option.map_eq_some_iff.mp shape
  simp only [Prod.mk.injEq, List.any_eq_true] at facts
  obtain ⟨count, success, ended, exhausted, x, hx, again⟩ := facts
  refine ⟨before, mid, after, last, traces_of_scannedAgain run,
    ⟨count, success, retriedPoll_recorded ended⟩, exhausted, fun settled => ?_⟩
  exact Bool.false_ne_true ((settled x hx).1.symm.trans again)

/-- With one attempt allowed, the dispatch that succeeds was the last one. -/
theorem settled_after_success_spent : ∃ before mid after last,
    scannedAgain { DLQ_MAX_REPLAY_ATTEMPTS := 1 } [.step (.time 20000000000), .step (.rows []),
      .step .none] = some ((before, mid), (after, last)) ∧
    (dispatchCount (retriedPoll { DLQ_MAX_REPLAY_ATTEMPTS := 1 })
        "src.imap.tasks.sync_imap_messages" before = 1 ∧
      succeeded (mid.sessions 2).prog = true) ∧
    ∀ x ∈ after, QueueStep.StaysSettled (retriedPoll { DLQ_MAX_REPLAY_ATTEMPTS := 1 })
      "src.imap.tasks.sync_imap_messages" mid.shared.store x := by
  have shape : (scannedAgain { DLQ_MAX_REPLAY_ATTEMPTS := 1 } [.step (.time 20000000000),
      .step (.rows []), .step .none]).map (fun run =>
        (dispatchCount (retriedPoll { DLQ_MAX_REPLAY_ATTEMPTS := 1 })
          "src.imap.tasks.sync_imap_messages" run.1.1,
        succeeded (run.1.2.sessions 2).prog, (run.1.2.sessions 0).prog.running,
        decide (Spent { DLQ_MAX_REPLAY_ATTEMPTS := 1 } "src.imap.tasks.sync_imap_messages"
          run.1.2.shared.store))) = some (1, true, false, true) := by decide +kernel
  obtain ⟨⟨⟨before, mid⟩, after, last⟩, run, facts⟩ := Option.map_eq_some_iff.mp shape
  simp only [Prod.mk.injEq, decide_eq_true_eq] at facts
  obtain ⟨count, success, ended, spent⟩ := facts
  obtain ⟨first, later⟩ := traces_of_scannedAgain run
  exact ⟨before, mid, after, last, run, ⟨count, success⟩,
    settled_after_success (retriedPoll_leaves _) first later spent (retriedPoll_recorded ended)⟩

end Example

end OmniSync
