import OmniSync.Dlq.Queue
import OmniSync.Txn.Steps

/-!
# Workers on the dead-letter queue

Any number of `record_failure` transactions and of scans run at the same time. The points of
their programs are made explicit: `DlqPoint.prog` is what is left of the program at a point,
and `PointStep` says what one step does there.
-/

namespace OmniSync

open Txn

/-- The arguments of a `record_failure` call. -/
structure FailureCall where
  source : String
  operation : String
  payload : Json
  errorText : String
  correlationId : Option String

namespace FailureCall

variable (settings : Settings) (call : FailureCall)

def patch (existing : FailedEvent) (now : Time) : FailedPatch :=
  refreshed settings existing call.payload call.errorText call.correlationId now

def row (now : Time) : Draft FailedEvent :=
  recorded settings call.source call.operation call.payload call.errorText call.correlationId now

end FailureCall

/-- A transaction over the queue. -/
inductive DlqJob where
  | record (call : FailureCall)
  | scan

def DlqJob.prog (settings : Settings) : DlqJob → Tx Unit
  | record call =>
      recordFailureStandalone settings call.source call.operation call.payload call.errorText
        call.correlationId
  | scan => do
      let _ ← retryFailedEvents settings
      return ()

/-- A scan between its `SELECT` and its commit: its reading of the clock, the rows that it has
locked, those that are accounted for, with the reading of `mark_retry_scheduled`, and those
that are still to be dispatched. -/
structure ScanState where
  now : Time
  dispatched : Nat
  rows : List FailedEvent
  done : List (FailedEvent × Time)
  rest : List FailedEvent

/-- Where a transaction is. A transaction that has ended holds its pending writes until it is
closed. -/
inductive DlqPoint where
  | record (call : FailureCall)
  | selectActive (call : FailureCall) (now : Time)
  | updateExisting (call : FailureCall) (now : Time) (existing : FailedEvent)
  | flushExisting (call : FailureCall) (now : Time) (existing : FailedEvent)
  | commitExisting (call : FailureCall) (now : Time) (existing : FailedEvent)
  | insertNew (call : FailureCall) (now : Time)
  | commitNew (call : FailureCall) (now : Time) (id : Uuid) (t : Time)
  | scan
  | selectDue (now : Time)
  | sendTask (scan : ScanState)
  | readClock (scan : ScanState) (f : FailedEvent)
  | updateFailed (scan : ScanState) (f : FailedEvent) (t : Time)
  | ended (result : Except Exn Unit) (writes : List Write)

section Points

variable (settings : Settings)

/-- The rest of a scan, once the loop has got so far. -/
def scanRest (loop : Tx Nat) : Tx Unit := do
  let _ ← (do
    let dispatched ← loop
    Prog.commitWork
    return dispatched)
  return ()

def ScanState.loop (scan : ScanState) : Tx Nat :=
  scan.rest.foldlM (retryEntry settings) scan.dispatched

def ScanState.writes (scan : ScanState) : List Write :=
  scan.rows.map (fun f => .lockFailed f.id) ++
    scan.done.map (fun d => .patchFailed d.1.id (scheduled settings d.1 d.2))

/-- What is left of the program at a point. -/
def DlqPoint.prog : DlqPoint → Tx Unit
  | record call => (DlqJob.record call).prog settings
  | selectActive call now => do
      let _ ← (do
        match ← Db.selectActive call.source call.operation with
        | some existing =>
            Db.updateFailed existing.id (call.patch settings existing now)
            Db.flush
            return existing.id
        | none => Db.insertFailed (call.row settings now))
      Prog.commitWork
  | updateExisting call now existing => do
      let _ ← (do
        Db.updateFailed existing.id (call.patch settings existing now)
        Db.flush
        return existing.id)
      Prog.commitWork
  | flushExisting _ _ existing => do
      let _ ← (do
        Db.flush
        return existing.id)
      Prog.commitWork
  | commitExisting _ _ _ => Prog.commitWork
  | insertNew call now => do
      let _ ← Db.insertFailed (call.row settings now)
      Prog.commitWork
  | commitNew _ _ _ _ => Prog.commitWork
  | scan => scanRest (processDueRetries settings)
  | selectDue now =>
      scanRest (do
        let due ← Db.selectDue settings.DLQ_MAX_REPLAY_ATTEMPTS now
          (limitOr none settings.DLQ_RETRY_BATCH_SIZE)
        due.foldlM (retryEntry settings) 0)
  | sendTask st => scanRest (st.loop settings)
  | readClock st f =>
      scanRest (do
        let dispatched ← (do
          markRetryScheduled settings f
          return st.dispatched + 1)
        st.rest.foldlM (retryEntry settings) dispatched)
  | updateFailed st f t =>
      scanRest (do
        let dispatched ← (do
          Db.updateFailed f.id (scheduled settings f t)
          return st.dispatched + 1)
        st.rest.foldlM (retryEntry settings) dispatched)
  | ended result _ => Prog.ofAnswer result

def DlqPoint.writes : DlqPoint → List Write
  | commitExisting call now existing => [.patchFailed existing.id (call.patch settings existing now)]
  | flushExisting call now existing => [.patchFailed existing.id (call.patch settings existing now)]
  | commitNew call now id t => [.addFailed (call.row settings now id t)]
  | sendTask st => st.writes settings
  | readClock st _ => st.writes settings
  | updateFailed st _ _ => st.writes settings
  | ended _ writes => writes
  | _ => []

def DlqPoint.session (p : DlqPoint) : TxSession Unit := ⟨p.prog settings, p.writes settings⟩

/-- Where a job starts. A retrier that is disabled has nothing to do. -/
def DlqJob.point : DlqJob → DlqPoint
  | record call => .record call
  | scan => if settings.DLQ_RETRY_ENABLED then .scan else .ended (.ok ()) []

theorem DlqJob.point_session (job : DlqJob) :
    (job.point settings).session settings = ⟨job.prog settings, []⟩ := by
  cases job with
  | record call => rfl
  | scan =>
      unfold point prog retryFailedEvents
      cases settings.DLQ_RETRY_ENABLED <;> rfl

end Points

/-- The next step of a transaction is its commit. -/
def DlqPoint.commits : DlqPoint → Bool
  | commitExisting _ _ _ => true
  | commitNew _ _ _ _ => true
  | sendTask st => st.rest.isEmpty
  | _ => false

/-- A failed statement ends the transaction here. A failed dispatch does not. -/
def DlqPoint.mayAbort : DlqPoint → Bool
  | sendTask st => st.rest.isEmpty
  | readClock _ _ => false
  | updateFailed _ _ _ => false
  | _ => true

/-- One step of a transaction, from a committed state. -/
inductive PointStep (settings : Settings) (locked : Write → Bool) (s : Store) :
    DlqPoint → Move Exn Choice → DlqPoint → Store → Prop where
  | crash {p : DlqPoint} {e : Exn} :
      PointStep settings locked s p (.crash e) (.ended (.error e) []) s
  | close {result : Except Exn Unit} {writes : List Write} :
      PointStep settings locked s (.ended result writes) .close (.ended result []) s
  | fail {p : DlqPoint} {e : Exn} {writes : List Write} : p.mayAbort = true →
      writes = p.writes settings ∨ writes = [] →
        PointStep settings locked s p (.fail e) (.ended (.error e) writes) s
  | commit {p : DlqPoint} {choice : Choice} : p.commits = true →
      PointStep settings locked s p (.step choice) (.ended (.ok ()) [])
        (postgres.view s (p.writes settings))
  | read {call : FailureCall} {now : Time} :
      PointStep settings locked s (.record call) (.step (.time now)) (.selectActive call now) s
  | found {call : FailureCall} {now : Time} {existing : FailedEvent} {choice : Choice} :
      existing ∈ s.activeEntries call.source call.operation →
        PointStep settings locked s (.selectActive call now) (.step choice)
          (.updateExisting call now existing) s
  | absent {call : FailureCall} {now : Time} {choice : Choice} :
      s.activeEntries call.source call.operation = [] →
        PointStep settings locked s (.selectActive call now) (.step choice) (.insertNew call now) s
  | refresh {call : FailureCall} {now : Time} {existing : FailedEvent} {choice : Choice} :
      PointStep settings locked s (.updateExisting call now existing) (.step choice)
        (.flushExisting call now existing) s
  | flush {call : FailureCall} {now : Time} {existing : FailedEvent} {choice : Choice} :
      PointStep settings locked s (.flushExisting call now existing) (.step choice)
        (.commitExisting call now existing) s
  | insert {call : FailureCall} {now t : Time} {id : Uuid} {choice : Choice} :
      s.failedEvents.find id = none →
        PointStep settings locked s (.insertNew call now) (.step choice) (.commitNew call now id t) s
  | conflict {call : FailureCall} {now : Time} {choice : Choice} {e : Exn} :
      PointStep settings locked s (.insertNew call now) (.step choice) (.ended (.error e) []) s
  | readScan {now : Time} :
      PointStep settings locked s .scan (.step (.time now)) (.selectDue now) s
  | select {now : Time} {rows : List FailedEvent} {choice : Choice} :
      (∀ f ∈ rows, f ∈ s.failedEvents ∧ f.Due settings now) → (rows.map FailedEvent.id).Nodup →
        PointStep settings locked s (.selectDue now) (.step choice)
          (.sendTask ⟨now, 0, rows, [], rows⟩) s
  | skip {st : ScanState} {f : FailedEvent} {rest : List FailedEvent} {e : Exn} :
      st.rest = f :: rest →
        PointStep settings locked s (.sendTask st) (.fail e) (.sendTask { st with rest := rest }) s
  | send {st : ScanState} {f : FailedEvent} {rest : List FailedEvent} {choice : Choice} :
      st.rest = f :: rest →
        PointStep settings locked s (.sendTask st) (.step choice)
          (.readClock { st with rest := rest } f) s
  | account {st : ScanState} {f : FailedEvent} {t : Time} :
      PointStep settings locked s (.readClock st f) (.step (.time t)) (.updateFailed st f t) s
  | update {st : ScanState} {f : FailedEvent} {t : Time} {choice : Choice} :
      PointStep settings locked s (.updateFailed st f t) (.step choice)
        (.sendTask { st with dispatched := st.dispatched + 1, done := st.done ++ [(f, t)] }) s

section Advance

variable {ι : Type} {settings : Settings} {i : ι} {locked : Write → Bool} {σ τ : State ι}
variable {p : DlqPoint} {m : Move Exn Choice} {choice : Choice} {next : TxSession Unit}

theorem advance_commit {k : Except Exn Unit → Tx Unit} {ws : List Write}
    (h : postgres.advance i locked σ ⟨.commit k, ws⟩ (.step choice) = some (next, τ)) :
    next = ⟨k (.ok ()), []⟩ ∧ τ.store = postgres.view σ.store ws := by
  cases h
  exact ⟨rfl, rfl⟩

/-- The answers to `SELECT` for the active entry. -/
theorem advance_selectActive {call : FailureCall} {now : Time}
    (h : postgres.advance i locked σ ((DlqPoint.selectActive call now).session settings)
      (.step choice) = some (next, τ)) :
    ∃ q, next = DlqPoint.session settings q ∧
      PointStep settings locked σ.store (.selectActive call now) (.step choice) q τ.store := by
  obtain ⟨answer, new, world, run, _, rfl, rfl⟩ := advance_stmt h
  cases choice with
  | rows ids =>
      change exec _ _ _ σ.store _ = _ at run
      simp only [exec] at run
      split at run
      · next picked =>
          cases run
          have selected := selects_sound picked
          cases found : (rowsOf FailedEvent.id
              (σ.store.activeEntries call.source call.operation) ids).head? with
          | some existing =>
              exact ⟨.updateExisting call now existing, rfl,
                .found (selected.mem existing (List.mem_of_head? found))⟩
          | none =>
              exact ⟨.insertNew call now, rfl,
                .absent ((selected.eq_nil_iff (by decide)).mp (List.head?_eq_none_iff.mp found))⟩
      · cases run
  | _ => cases run

theorem advance_insertNew {call : FailureCall} {now : Time}
    (h : postgres.advance i locked σ ((DlqPoint.insertNew call now).session settings)
      (.step choice) = some (next, τ)) :
    ∃ q, next = DlqPoint.session settings q ∧
      PointStep settings locked σ.store (.insertNew call now) (.step choice) q τ.store := by
  obtain ⟨answer, new, world, run, _, rfl, rfl⟩ := advance_stmt h
  cases choice with
  | draw id t =>
      change exec _ _ _ σ.store _ = _ at run
      simp only [exec] at run
      split at run
      · unfold insertUnless at run
        split at run
        · cases run
          exact ⟨.ended (.error _) [], rfl, .conflict⟩
        · next free =>
            cases run
            refine ⟨.commitNew call now id t, rfl, .insert ?_⟩
            rw [Bool.not_eq_true, Option.isSome_eq_false_iff, Option.isNone_iff_eq_none] at free
            exact free
      · cases run
  | _ => cases run

/-- The answers to `SELECT … FOR UPDATE SKIP LOCKED`. -/
theorem advance_selectDue {now : Time}
    (h : postgres.advance i locked σ ((DlqPoint.selectDue now).session settings)
      (.step choice) = some (next, τ)) :
    ∃ q, next = DlqPoint.session settings q ∧
      PointStep settings locked σ.store (.selectDue now) (.step choice) q τ.store := by
  obtain ⟨answer, new, world, run, _, rfl, rfl⟩ := advance_stmt h
  cases choice with
  | rows ids =>
      change exec _ _ _ σ.store _ = _ at run
      simp only [exec] at run
      split at run
      · next picked =>
          cases run
          have selected := selects_sound picked
          have keys := map_rowsOf (selects_known picked)
          generalize rowsOf FailedEvent.id (σ.store.dueEntries settings.DLQ_MAX_REPLAY_ATTEMPTS now
            locked) ids = rows at selected keys ⊢
          subst keys
          refine ⟨.sendTask ⟨now, 0, rows, [], rows⟩, ?_, .select (fun f hf => ?_) selected.nodup⟩
          · simp only [List.map_map, DlqPoint.session, DlqPoint.writes, ScanState.writes,
              List.map_nil, List.append_nil, List.nil_append]
            rfl
          · exact due_of_mem_dueEntries (selected.mem f hf)
      · cases run
  | _ => cases run

theorem advance_sendTask {st : ScanState}
    (h : postgres.advance i locked σ ((DlqPoint.sendTask st).session settings)
      (.step choice) = some (next, τ)) :
    ∃ q, next = DlqPoint.session settings q ∧
      PointStep settings locked σ.store (.sendTask st) (.step choice) q τ.store := by
  obtain ⟨now, dispatched, rows, done, rest⟩ := st
  cases rest with
  | nil =>
      obtain ⟨rfl, store⟩ := advance_commit h
      rw [store]
      exact ⟨.ended (.ok ()) [], rfl, .commit rfl⟩
  | cons f rest =>
      obtain ⟨answer, new, world, run, _, rfl, rfl⟩ := advance_stmt h
      cases choice with
      | text taskId =>
          cases run
          refine ⟨.readClock ⟨now, dispatched, rows, done, rest⟩ f, ?_, .send rfl⟩
          rw [List.append_nil]
          rfl
      | _ => cases run

/-- One step of a transaction by its program. -/
theorem advance_step
    (h : postgres.advance i locked σ (p.session settings) (.step choice) = some (next, τ)) :
    ∃ q, next = DlqPoint.session settings q ∧
      PointStep settings locked σ.store p (.step choice) q τ.store := by
  cases p with
  | record call =>
      obtain ⟨answer, new, world, run, _, rfl, rfl⟩ := advance_stmt h
      obtain ⟨t, rfl, rfl, rfl⟩ := exec_utcNow run
      exact ⟨.selectActive call t, rfl, .read⟩
  | selectActive call now => exact advance_selectActive h
  | updateExisting call now existing =>
      obtain ⟨answer, new, world, run, _, rfl, rfl⟩ := advance_stmt h
      cases choice with
      | none =>
          cases run
          exact ⟨.flushExisting call now existing, rfl, .refresh⟩
      | _ => cases run
  | flushExisting call now existing =>
      obtain ⟨answer, new, world, run, _, rfl, rfl⟩ := advance_stmt h
      cases choice with
      | none =>
          cases run
          exact ⟨.commitExisting call now existing, rfl, .flush⟩
      | _ => cases run
  | commitExisting call now existing =>
      obtain ⟨rfl, store⟩ := advance_commit h
      rw [store]
      exact ⟨.ended (.ok ()) [], rfl, .commit rfl⟩
  | insertNew call now => exact advance_insertNew h
  | commitNew call now id t =>
      obtain ⟨rfl, store⟩ := advance_commit h
      rw [store]
      exact ⟨.ended (.ok ()) [], rfl, .commit rfl⟩
  | scan =>
      obtain ⟨answer, new, world, run, _, rfl, rfl⟩ := advance_stmt h
      obtain ⟨t, rfl, rfl, rfl⟩ := exec_utcNow run
      exact ⟨.selectDue t, rfl, .readScan⟩
  | selectDue now => exact advance_selectDue h
  | sendTask st => exact advance_sendTask h
  | readClock st f =>
      obtain ⟨answer, new, world, run, _, rfl, rfl⟩ := advance_stmt h
      obtain ⟨t, rfl, rfl, rfl⟩ := exec_utcNow run
      refine ⟨.updateFailed st f t, ?_, .account⟩
      rw [List.append_nil]
      rfl
  | updateFailed st f t =>
      obtain ⟨answer, new, world, run, _, rfl, rfl⟩ := advance_stmt h
      cases choice with
      | none =>
          cases run
          refine ⟨_, ?_, .update⟩
          simp only [DlqPoint.session, DlqPoint.writes, ScanState.writes, List.map_append,
            List.append_assoc]
          rfl
      | _ => cases run
  | ended result writes => cases result <;> cases h

/-- A failed statement ends the transaction, unless it is a dispatch. -/
theorem advance_fail {e : Exn}
    (h : postgres.advance i locked σ (p.session settings) (.fail e) = some (next, τ)) :
    ∃ q, next = DlqPoint.session settings q ∧
      PointStep settings locked σ.store p (.fail e) q τ.store := by
  cases p with
  | record call => cases h
  | updateExisting call now existing => cases h
  | readClock st f => cases h
  | updateFailed st f t => cases h
  | ended result writes => cases result <;> cases h
  | scan => cases h
  | selectActive call now =>
      cases h
      exact ⟨.ended (.error e) [], rfl, .fail rfl (.inr rfl)⟩
  | flushExisting call now existing =>
      cases h
      exact ⟨.ended (.error e) _, rfl, .fail rfl (.inl rfl)⟩
  | commitExisting call now existing =>
      cases h
      exact ⟨.ended (.error e) [], rfl, .fail rfl (.inr rfl)⟩
  | insertNew call now =>
      cases h
      exact ⟨.ended (.error e) [], rfl, .fail rfl (.inr rfl)⟩
  | commitNew call now id t =>
      cases h
      exact ⟨.ended (.error e) [], rfl, .fail rfl (.inr rfl)⟩
  | selectDue now =>
      cases h
      exact ⟨.ended (.error e) [], rfl, .fail rfl (.inr rfl)⟩
  | sendTask st =>
      obtain ⟨now, dispatched, rows, done, rest⟩ := st
      cases rest with
      | nil =>
          cases h
          exact ⟨.ended (.error e) [], rfl, .fail rfl (.inr rfl)⟩
      | cons f rest =>
          cases h
          exact ⟨.sendTask ⟨now, dispatched, rows, done, rest⟩, rfl, .skip rfl⟩

/-- What one step of a transaction does. -/
theorem advance_point
    (h : postgres.advance i locked σ (p.session settings) m = some (next, τ)) :
    ∃ q, next = DlqPoint.session settings q ∧
      PointStep settings locked σ.store p m q τ.store := by
  cases m with
  | step choice => exact advance_step h
  | fail e => exact advance_fail h
  | crash e =>
      rw [Engine.advance_crash] at h
      cases h
      exact ⟨.ended (.error e) [], rfl, .crash⟩
  | close =>
      obtain ⟨over', same⟩ := Engine.advance_close h
      cases same
      cases p with
      | ended result writes => exact ⟨.ended result [], rfl, .close⟩
      | sendTask st =>
          obtain ⟨now, dispatched, rows, done, rest⟩ := st
          cases rest <;> cases over'
      | _ => cases over'

end Advance

end OmniSync
