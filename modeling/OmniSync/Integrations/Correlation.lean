import OmniSync.Integrations.Retries

/-!
# The correlation id of a dead-lettered run

A run draws a correlation id for its entry of the sync log. The connector driver records a
failure inside of its coroutine, where the id can be read. The tasks record it outside, where
there is none, so that their entries have no id, or keep that of an earlier failure.
-/

namespace OmniSync

open Txn

/-- The body of the task `sync_imap_messages`. -/
def syncImapMessagesTask (lib : DatetimeLib) (rt : Runtime) (settings : Settings)
    (imapSettings : ImapSettings) : Tx Unit :=
  Prog.tryCatch (syncImapMessages lib rt settings imapSettings) (fun e => do
    recordFailureStandalone settings "imap" "src.imap.tasks.sync_imap_messages" resyncPayload
      e.message none
    throw e)

/-- The runs in the background that record their failures. -/
inductive BackgroundTask where
  | poll (task : PollTask) (http : Nat → Except Exn HttpResponse) (retries : Nat)
  | syncImapMessages (imapSettings : ImapSettings)
  | runConnectorSync (source : String) (operation : Option String)

namespace BackgroundTask

def run (c : PollConfig) : BackgroundTask → Tx Unit
  | poll task http retries => task.run c http retries
  | syncImapMessages imapSettings => syncImapMessagesTask c.lib c.rt c.settings imapSettings
  | runConnectorSync source operation => do
      let _ ← OmniSync.runConnectorSync c.rt c.settings source operation

/-- The correlation id that a run which has drawn `cid` records its failure with. -/
def given (task : BackgroundTask) (cid : String) : Option String :=
  match task with
  | runConnectorSync _ _ => if cid = "" then none else some cid
  | _ => none

/-- The failure of a run that has drawn `cid` is recorded with it: it is given to the queue, or
the entry of the failure had it before. -/
def Keeps (task : BackgroundTask) (s : Store) (id : Uuid) (cid : String) : Prop :=
  task.given cid = some cid ∨
    ∃ earlier ∈ s.failedEvents, earlier.id = id ∧ earlier.correlationId = some cid

end BackgroundTask

/-- The entries that were written since `σ` have the correlation id of the run's log entry. -/
def Correlated {ι : Type} (σ τ : State ι) : Prop :=
  ∀ f ∈ τ.store.failedEvents, Touched σ τ f → ∀ row ∈ τ.store.syncLogs,
    σ.store.syncLogs.find row.id = none → f.correlationId = some row.correlationId

/-- The correlation id of an entry that was recorded with one, or with none. -/
def noted (correlationId : Option String) (s : Store) (id : Uuid) : Option String :=
  if truthy correlationId then correlationId
  else
    match s.failedEvents.find id with
    | some earlier => earlier.correlationId
    | none => correlationId

/-- The run has logged itself under one correlation id, and has left the queue alone. -/
structure Logged {ι : Type} (σ : State ι) (cid : String) (τ : State ι) : Prop where
  log : ∃ new, τ.log = σ.log ++ new ∧ ∀ entry ∈ new, ∀ w ∈ entry.2, w.table ≠ .failedEvents
  queue : τ.store.failedEvents = σ.store.failedEvents
  rows : ∀ row ∈ τ.store.syncLogs, σ.store.syncLogs.find row.id = none → row.correlationId = cid

/-- The run has logged itself under one correlation id, and what it wrote to the queue has been
recorded with `correlationId`. -/
structure Noted {ι : Type} (σ : State ι) (correlationId : Option String) (cid : String)
    (τ : State ι) : Prop where
  rows : ∀ row ∈ τ.store.syncLogs, σ.store.syncLogs.find row.id = none → row.correlationId = cid
  touched : ∀ f ∈ τ.store.failedEvents, Touched σ τ f →
    f.correlationId = noted correlationId σ.store f.id

/-- The writes of a run that is logged and has not failed. -/
def Write.Quiet : Write → Prop
  | addSyncLog _ => False
  | w => w.table ≠ .failedEvents

theorem Write.Quiet.queue {w : Write} (h : w.Quiet) : w.table ≠ .failedEvents := by
  cases w <;>
    first
    | exact h
    | exact h.elim

theorem Write.Ingested.quiet {w : Write} (h : w.Ingested) : w.Quiet := by
  cases w with
  | addSyncLog => exact h.syncLogs rfl
  | _ => exact h.failedEvents

/-- Quiet writes rename no entry of the log. -/
theorem mem_view_syncLogs_of_quiet {s : Store} {ws : List Write} (quiet : ∀ w ∈ ws, w.Quiet)
    {row : SyncLog} (here : row ∈ (postgres.view s ws).syncLogs) :
    ∃ old ∈ s.syncLogs, old.id = row.id ∧ old.correlationId = row.correlationId := by
  induction ws generalizing s with
  | nil => exact ⟨row, here, rfl, rfl⟩
  | cons w ws ih =>
      obtain ⟨mid, hm, sameId, sameCid⟩ :=
        ih (s := s.put w) (fun v hv => quiet v (List.mem_cons_of_mem w hv)) here
      have first : w.Quiet := quiet w List.mem_cons_self
      by_cases logs : w.table = .syncLogs
      · cases w with
        | addSyncLog => exact first.elim
        | setSyncLog id status errorText =>
            obtain ⟨old, ho, rfl⟩ := Store.mem_put_setSyncLog.mp hm
            refine ⟨old, ho, ?_, ?_⟩
            · rw [← sameId]
              split <;> rfl
            · rw [← sameCid]
              split <;> rfl
        | _ => cases logs
      · rw [Store.put_syncLogs_of_table logs] at hm
        exact ⟨mid, hm, sameId, sameCid⟩

section Steps

variable {ι : Type} {i : ι} {σ τ υ : State ι} {cid : String} {ws vs : List Write}
variable {correlationId : Option String} {settings : Settings} {source operation : String}

theorem Logged.congr (h : Logged σ cid τ) (store : υ.store = τ.store) (log : υ.log = τ.log) :
    Logged σ cid υ where
  log := by
    rw [log]
    exact h.log
  queue := by
    rw [store]
    exact h.queue
  rows := by
    rw [store]
    exact h.rows

theorem Logged.initial (cid : String) (σ : State ι) : Logged σ cid σ where
  log := ⟨[], (List.append_nil _).symm, fun _ he => (List.not_mem_nil he).elim⟩
  queue := rfl
  rows row here new := (Table.find_eq_none_iff.mp new row here rfl).elim

theorem Logged.untouched (h : Logged σ cid τ) (f : FailedEvent) : ¬ Touched σ τ f := by
  rintro ⟨entry, member, w, hw, held⟩
  obtain ⟨new, log, other⟩ := h.log
  rw [log, List.drop_left] at member
  exact not_lock_failed (other entry member w hw) f.id held

theorem Logged.noted (h : Logged σ cid τ) : Noted σ correlationId cid τ where
  rows := h.rows
  touched f _ touched := (h.untouched f touched).elim

theorem Logged.rows_view (h : Logged σ cid τ) (quiet : ∀ w ∈ ws, w.Quiet) :
    ∀ row ∈ (postgres.view τ.store ws).syncLogs, σ.store.syncLogs.find row.id = none →
      row.correlationId = cid := by
  intro row here new
  obtain ⟨old, ho, sameId, sameCid⟩ := mem_view_syncLogs_of_quiet quiet here
  rw [← sameId] at new
  exact sameCid.symm.trans (h.rows old ho new)

theorem Logged.log_publish (h : Logged σ cid τ) (other : ∀ w ∈ ws, w.table ≠ .failedEvents) :
    ∃ new, (postgres.publish τ i ws).log = σ.log ++ new ∧
      ∀ entry ∈ new, ∀ w ∈ entry.2, w.table ≠ .failedEvents := by
  obtain ⟨new, log, others⟩ := h.log
  refine ⟨new ++ [(i, ws)], ?_, fun entry member => ?_⟩
  · rw [Engine.publish_log, log, List.append_assoc]
  · rcases List.mem_append.mp member with old | last
    · exact others entry old
    · rw [List.mem_singleton.mp last]
      exact other

theorem Logged.publish (h : Logged σ cid τ) (quiet : ∀ w ∈ ws, w.Quiet) :
    Logged σ cid (postgres.publish τ i ws) where
  log := h.log_publish (fun w hw => (quiet w hw).queue)
  queue := (view_failedEvents_of_table (fun w hw => (quiet w hw).queue)).trans h.queue
  rows := h.rows_view quiet

/-- The run opens its entry of the log. -/
theorem Logged.opened (h : τ.store = σ.store) (log : τ.log = σ.log) {row : SyncLog}
    (named : row.correlationId = cid) :
    Logged σ cid (postgres.publish τ i [.addSyncLog row]) := by
  have before : Logged σ cid τ := (Logged.initial cid σ).congr h log
  refine ⟨before.log_publish ?_, before.queue, fun x hx new => ?_⟩
  · intro w hw
    rw [List.mem_singleton.mp hw]
    simp [Write.table]
  · rcases Table.mem_of_mem_add hx with old | rfl
    · exact before.rows x old new
    · exact named

/-- A recorded failure has the correlation id that it is given, or that of the entry which it
refreshes. -/
theorem Logged.publish_given (h : Logged σ cid τ) (quiet : ∀ w ∈ ws, w.Quiet)
    (failure : FailureGiven settings source operation correlationId (postgres.view τ.store ws) vs) :
    Noted σ correlationId cid (postgres.publish τ i (ws ++ vs)) := by
  have queue : (postgres.view τ.store ws).failedEvents = σ.store.failedEvents :=
    (view_failedEvents_of_table (fun w hw => (quiet w hw).queue)).trans h.queue
  obtain ⟨new, log, others⟩ := h.log
  have own : ∀ f, Touched σ (postgres.publish τ i (ws ++ vs)) f →
      ∃ w ∈ vs, .failed f.id ∈ w.locks := by
    rintro f ⟨entry, member, w, hw, held⟩
    rw [Engine.publish_log, log, List.append_assoc, List.drop_left] at member
    rcases List.mem_append.mp member with old | last
    · exact (not_lock_failed (others entry old w hw) f.id held).elim
    · rw [List.mem_singleton.mp last] at hw
      rcases List.mem_append.mp hw with pending | here
      · exact (not_lock_failed (quiet w pending).queue f.id held).elim
      · exact ⟨w, here, held⟩
  cases failure with
  | @refresh existing payload errorText now active =>
      obtain ⟨here, _⟩ := mem_activeEntries.mp active
      refine ⟨?_, fun f hf touched => ?_⟩
      · rw [Engine.publish_store, postgres.view_append]
        exact h.rows_view quiet
      · obtain ⟨w, hw, held⟩ := own f touched
        rw [List.mem_singleton.mp hw] at held
        have id : f.id = existing.id := by simpa [Write.locks] using held
        rw [Engine.publish_store, postgres.view_append] at hf
        obtain ⟨x, hx, rfl⟩ := Store.mem_put_patchFailed.mp hf
        have found : σ.store.failedEvents.find existing.id = some existing :=
          Table.find_eq_some_iff.mpr ⟨queue ▸ here, rfl⟩
        have same : x.id = existing.id := by
          split at id <;> exact id
        obtain rfl : x = existing := Table.eq_of_key_eq hx here same
        rw [if_pos rfl, FailedEvent.patch_id, OmniSync.noted, found]
        simp only [FailedEvent.patch, refreshed]
        split <;> rfl
  | @first payload errorText now t id empty absent =>
      refine ⟨?_, fun f hf touched => ?_⟩
      · rw [Engine.publish_store, postgres.view_append]
        exact h.rows_view quiet
      · obtain ⟨w, hw, held⟩ := own f touched
        rw [List.mem_singleton.mp hw] at held
        have same : f.id = id := by simpa [Write.locks, recorded] using held
        rw [Engine.publish_store, postgres.view_append] at hf
        rcases Table.mem_of_mem_add hf with old | rfl
        · exact (Table.find_eq_none_iff.mp absent f old same).elim
        · rw [OmniSync.noted, same, ← queue, absent]
          simp only [recorded, ite_self]

end Steps

section Runs

variable {ι : Type} {i : ι} {σ τ : State ι} {cid : String} {ws : List Write}
variable {given : String → Option String} {settings : Settings} {α : Type}

/-- The protocol of a run that starts in `σ` and records a failure under `given cid`. -/
def noting (given : String → Option String) (σ : State ι) : Protocol postgres ι :=
  alone (fun τ => ∃ cid, Noted σ (given cid) cid τ) (fun _ _ _ => True)

/-- The run is logged, and what is pending does not concern the queue. -/
def Booked (σ : State ι) (cid : String) (τ : State ι) (ws : List Write) : Prop :=
  Logged σ cid τ ∧ ∀ w ∈ ws, w.Quiet

theorem Booked.empty (h : Booked σ cid τ ws) : Booked σ cid τ [] :=
  ⟨h.1, fun _ hw => (List.not_mem_nil hw).elim⟩

theorem Booked.interfere {υ : State ι} (h : Booked σ cid τ ws)
    (rely : (noting given σ).rely ws τ υ) : Booked σ cid υ ws :=
  ⟨h.1.congr (alone_store rely) (alone_log rely), h.2⟩

theorem Noted.congr {correlationId : Option String} {υ : State ι}
    (h : Noted σ correlationId cid τ) (store : υ.store = τ.store) (log : υ.log = τ.log) :
    Noted σ correlationId cid υ where
  rows := by
    rw [store]
    exact h.rows
  touched f hf touched := by
    rw [store] at hf
    unfold Touched at touched
    rw [log] at touched
    exact h.touched f hf touched

theorem hosts_noting : Hosts (noting given σ) :=
  hosts_alone (fun _ _ ⟨cid, noted⟩ => ⟨cid, noted.congr rfl rfl⟩)

/-- What a run writes that is logged. -/
theorem quiet_of_booked {s : Stmt} (booked : s.Booked) {choice : Choice} {world world' : World}
    {view : Store} {locked : Write → Bool} {answer : Except Exn (Answer s)} {new : List Write}
    (run : exec s choice world view locked = some (answer, new, world')) :
    ∀ w ∈ new, w.Quiet := by
  have ingested : s.Ingesting → ∀ w ∈ new, w.Quiet := fun ingesting w hw =>
    (ingesting.ingests.ingested (exec_table run w hw)).quiet
  cases s with
  | updateSyncLog id status errorText =>
      intro w hw
      cases choice <;> cases run
      split at hw
      · rw [List.mem_singleton.mp hw]
        simp [Write.Quiet, Write.table]
      · exact (List.not_mem_nil hw).elim
  | _ => exact ingested booked

/-- Work on a logged run keeps its id, and leaves the queue alone. -/
theorem wp_booked {p : Tx α} (issuing : p.Issuing Stmt.Booked) (start : Booked σ cid τ ws) :
    wp (noting given σ) i p (fun _ τ ws => Booked σ cid τ ws) τ ws := by
  refine wp_issuing (R := Booked σ cid) issuing (fun here rely _ => here.interfere rely) ?_ ?_
    Booked.empty start (fun _ _ _ here => here)
  · intro s allowed υ vs choice locked answer new world here inv run
    have same : Logged σ cid { υ with world := world } := here.1.congr rfl rfl
    refine ⟨alone_guarantees ⟨cid, same.noted⟩, same, fun w hw => ?_⟩
    rcases List.mem_append.mp hw with old | added
    · exact here.2 w old
    · exact quiet_of_booked allowed run w added
  · intro υ vs here inv
    have logged := here.1.publish (i := i) here.2
    exact ⟨alone_guarantees ⟨cid, logged.noted⟩, logged, fun _ hw => (List.not_mem_nil hw).elim⟩

/-- A run opens its entry of the log, and goes on under the id of that entry. -/
theorem wp_opening {operation : String} {work : String → Uuid → Tx α}
    {Q : Post Exn Store Write World ι α}
    (failing : ∀ e cid τ ws, Booked σ cid τ ws → Q (.error e) τ ws)
    (working : ∀ cid logId τ, Logged σ cid τ → wp (noting given σ) i (work cid logId) Q τ []) :
    wp (noting given σ) i (do
      let cid ← Db.generateCorrelationId
      let logId ← createSyncLog true cid operation
      work cid logId) Q σ [] := by
  rw [wp_bind]
  refine wp_generateCorrelationId hosts_noting (fun τ rely _ cid => ?_)
  rw [Post.andThen_ok, wp_bind]
  have started : Booked σ cid σ [] :=
    ⟨Logged.initial cid σ, fun _ hw => (List.not_mem_nil hw).elim⟩
  unfold createSyncLog
  rw [wp_bind]
  refine wp_insertSyncLog hosts_noting (fun υ rely' _ => ?_)
  have here := (started.interfere rely).interfere rely'
  refine ⟨fun e => failing e cid υ [] here, fun id t _ => ?_⟩
  rw [Post.andThen_ok, if_pos rfl, wp_bind, wp_commitWork]
  intro φ rely'' _
  have store : φ.store = σ.store :=
    (alone_store rely'').trans ((alone_store rely').trans (alone_store rely))
  have log : φ.log = σ.log := (alone_log rely'').trans ((alone_log rely').trans (alone_log rely))
  have named : (⟨id, cid, operation, .started, none, t⟩ : SyncLog).correlationId = cid := rfl
  have logged := Logged.opened (i := i) store log named
  refine ⟨fun e => ?_, alone_guarantees ⟨cid, logged.noted⟩, working cid id _ logged⟩
  exact failing e cid φ [] ⟨(Logged.initial cid σ).congr store log, started.2⟩

/-- A failure of a logged run is recorded. -/
theorem wp_recording (given : String → Option String) {source operation errorText : String}
    {payload : Json} (booked : Booked σ cid τ ws) :
    wp (noting given σ) i
      (recordFailureStandalone settings source operation payload errorText (given cid))
      (fun _ _ _ => True) τ ws := by
  unfold recordFailureStandalone
  rw [wp_bind]
  refine wp_recordFailure hosts_noting (fun _ _ _ _ _ => trivial) (fun υ id vs rely _ failure => ?_)
  rw [Post.andThen_ok, wp_commitWork]
  intro φ rely' _
  have here := (booked.interfere rely).interfere (hosts_noting.weaken rely')
  rw [← alone_store rely'] at failure
  exact ⟨fun _ => trivial, alone_guarantees ⟨cid, here.1.publish_given here.2 failure⟩, trivial⟩

theorem wp_polls {p : Tx Unit} (polls : Polls p) :
    wp (noting given σ) i p (fun _ τ ws => ∃ cid, Booked σ cid τ ws) σ [] := by
  cases polls with
  | skips => exact ⟨"", Logged.initial "" σ, fun _ hw => (List.not_mem_nil hw).elim⟩
  | opens working =>
      refine wp_opening (fun _ cid _ _ booked => ⟨cid, booked⟩) (fun cid logId τ logged => ?_)
      refine wp_mono (wp_booked (working cid logId) ⟨logged, ?_⟩) (fun _ _ _ booked => ⟨cid, booked⟩)
      exact fun _ hw => (List.not_mem_nil hw).elim

end Runs

namespace BackgroundTask

variable {ι : Type} {i : ι} {c : PollConfig} {task : BackgroundTask} {σ τ : State ι}

theorem wp_toDlqIfDone {cid : String} {υ : State ι} {ws : List Write} {settings : Settings}
    {retries : Nat} {operation source : String} {e : Exn} (booked : Booked σ cid υ ws) :
    wp (noting (fun _ => none) σ) i (toDlqIfDone settings retries operation source e)
      (fun _ _ _ => True) υ ws := by
  unfold toDlqIfDone
  dsimp only
  split
  · exact wp_recording (fun _ => none) booked
  · trivial

theorem wp_runConnectorSync {source : String} {operation : Option String} {rt : Runtime}
    {settings : Settings} :
    wp (noting (fun cid => if cid = "" then none else some cid) σ) i
      (OmniSync.runConnectorSync rt settings source operation) (fun _ _ _ => True) σ [] := by
  unfold OmniSync.runConnectorSync
  refine wp_opening (fun _ _ _ _ _ => trivial) (fun cid logId τ logged => ?_)
  rw [wp_tryCatch]
  have working : Prog.Issuing Stmt.Booked (do
      let results ← ingest rt settings source (operationOf source operation) cid
      Prog.commitWork
      updateSyncLogStatus true logId .completed none
      return results.length) := by
    refine .bind (issuing_of_ingesting (ingest_ingests _ _ _)) (fun results => ?_)
    exact .bind .commitWork (fun _ => .bind (updateSyncLogStatus_issuing _ _ _) (fun _ => trivial))
  refine wp_mono (wp_booked working ⟨logged, fun _ hw => (List.not_mem_nil hw).elim⟩) ?_
  intro r υ ws booked
  cases r with
  | ok n => trivial
  | error e =>
      rw [Post.handling_error, wp_bind, wp_rollbackWork]
      intro φ rely _
      rw [Post.andThen_ok, wp_bind]
      have here := (booked.interfere rely).empty
      refine wp_mono (wp_booked (updateSyncLogStatus_issuing _ _ _) here) (fun r ψ vs kept => ?_)
      cases r with
      | error e => trivial
      | ok _ =>
          rw [Post.andThen_ok, wp_bind]
          refine wp_mono (wp_recording (fun cid => if cid = "" then none else some cid) kept)
            (fun r _ _ _ => ?_)
          cases r <;> exact trivial

theorem wp_run : wp (noting task.given σ) i (task.run c) (fun _ _ _ => True) σ [] := by
  cases task with
  | poll task http retries =>
      change wp _ i (Prog.tryCatch _ _) _ σ []
      rw [wp_tryCatch]
      refine wp_mono (wp_polls (PollTask.body_polls http)) (fun r υ ws kept => ?_)
      cases r with
      | ok _ => trivial
      | error e =>
          obtain ⟨cid, booked⟩ := kept
          rw [Post.handling_error, wp_bind]
          refine wp_mono (wp_toDlqIfDone booked) (fun r _ _ _ => ?_)
          cases r <;> exact trivial
  | syncImapMessages imapSettings =>
      change wp _ i (Prog.tryCatch _ _) _ σ []
      rw [wp_tryCatch]
      refine wp_mono (wp_polls syncImapMessages_polls) (fun r υ ws kept => ?_)
      cases r with
      | ok _ => trivial
      | error e =>
          obtain ⟨cid, booked⟩ := kept
          rw [Post.handling_error, wp_bind]
          refine wp_mono (wp_recording (fun _ => none) booked) (fun r _ _ _ => ?_)
          cases r <;> exact trivial
  | runConnectorSync source operation =>
      change wp _ i (OmniSync.runConnectorSync _ _ _ _ >>= _) _ σ []
      rw [wp_bind]
      refine wp_mono wp_runConnectorSync (fun r _ _ _ => ?_)
      cases r <;> exact trivial

/-- What a run has recorded, wherever it stands. -/
theorem noted_of_solo {session : TxSession Unit}
    (ran : postgres.Solo (fun _ _ _ => True) i (⟨task.run c, []⟩, σ) (session, τ)) :
    ∃ cid, Noted σ (task.given cid) cid τ :=
  (wp_solo (noting task.given σ) Protocol.Final.trivial ⟨"", (Logged.initial "" σ).noted⟩ wp_run
    ran).1

theorem given_cases (cid : String) :
    task.given cid = none ∨ cid ≠ "" ∧ task.given cid = some cid := by
  cases task with
  | runConnectorSync source operation =>
      by_cases blank : cid = ""
      · exact .inl (if_pos blank)
      · exact .inr ⟨blank, if_neg blank⟩
  | _ => exact .inl rfl

/-- What a run that draws `cid` records has that id exactly if the run keeps it. -/
theorem noted_given_iff {s : Store} {id : Uuid} {cid : String} :
    noted (task.given cid) s id = some cid ↔ task.Keeps s id cid := by
  unfold Keeps
  rcases task.given_cases cid with absent | ⟨named, handed⟩
  · have carried : noted none s id =
        (s.failedEvents.find id).bind FailedEvent.correlationId := by
      unfold noted
      cases s.failedEvents.find id <;> rfl
    rw [absent, carried, Option.bind_eq_some_iff]
    simp only [reduceCtorEq, false_or, Table.find_eq_some_iff, and_assoc]
  · have shown : truthy (some cid) = true := bne_iff_ne.mpr named
    rw [handed, noted, if_pos shown]
    exact iff_of_true rfl (.inl rfl)

end BackgroundTask

/-- The entries that a run records have the correlation id of its entry of the log exactly if
the run hands it on, or refreshes an entry that has it. -/
theorem correlated_iff {ι : Type} {i : ι} {c : PollConfig} {task : BackgroundTask}
    {session : TxSession Unit} {σ τ : State ι}
    (ran : postgres.Solo (fun _ _ _ => True) i (⟨task.run c, []⟩, σ) (session, τ)) :
    Correlated σ τ ↔ ∀ f ∈ τ.store.failedEvents, Touched σ τ f → ∀ row ∈ τ.store.syncLogs,
      σ.store.syncLogs.find row.id = none → task.Keeps σ.store f.id row.correlationId := by
  obtain ⟨cid, recorded⟩ := BackgroundTask.noted_of_solo ran
  unfold Correlated
  constructor <;> intro each f hf touched row here new
  · have same := each f hf touched row here new
    rw [recorded.touched f hf touched, ← recorded.rows row here new] at same
    exact BackgroundTask.noted_given_iff.mp same
  · rw [recorded.touched f hf touched, ← recorded.rows row here new]
    exact BackgroundTask.noted_given_iff.mpr (each f hf touched row here new)

/-- A run of a connector that cannot reach its source. -/
def unreachableSync : Option (TxSession Unit × State Unit) :=
  postgres.drive (fun _ _ _ => True) () unreachableScript
    (⟨(BackgroundTask.runConnectorSync "jira" none).run pollConfig, []⟩, ⟨{}, ∅, []⟩)

/-- The entry of a failed connector run has the id of the run. -/
theorem unreachable_correlated : ∃ session τ, unreachableSync = some (session, τ) ∧
    τ.store.failedEvents.rows.map FailedEvent.correlationId = [some "c"] ∧
      Correlated ⟨{}, ∅, []⟩ τ := by
  have shape : unreachableSync.map (fun x =>
      (x.2.store.failedEvents.rows.map FailedEvent.correlationId,
        x.2.store.syncLogs.rows.map SyncLog.correlationId)) = some ([some "c"], ["c"]) := by
    decide +kernel
  obtain ⟨⟨session, τ⟩, run, facts⟩ := Option.map_eq_some_iff.mp shape
  obtain ⟨entries, logs⟩ := Prod.mk.inj facts
  refine ⟨session, τ, run, entries, (correlated_iff (Engine.solo_of_drive run)).mpr ?_⟩
  intro f _ _ row here _
  have drawn : row.correlationId ∈ ["c"] := logs ▸ List.mem_map_of_mem here
  rw [List.mem_singleton.mp drawn]
  exact .inl rfl

/-- The moves of a poll whose connections are refused. -/
def refusedScript : List (Move Exn Choice) :=
  [.step (.text "c"), .step (.draw 1 0), .step .none, .step .none, .step .none, .step .none,
    .step .none, .step (.time 0), .step (.rows []), .step (.draw 2 0), .step .none]

/-- A poll of the commits whose connections are refused. -/
def refusedPoll : BackgroundTask := .poll .syncGithubCommits (refused 0) 0

/-- The entry of a failed poll has no id, and the poll was logged under one. -/
theorem refused_not_correlated : ∃ session τ,
    postgres.Solo (fun _ _ _ => True) () (⟨refusedPoll.run pollConfig, []⟩, ⟨{}, ∅, []⟩)
      (session, τ) ∧ ¬ Correlated ⟨{}, ∅, []⟩ τ := by
  have shape : (postgres.drive (fun _ _ _ => True) () refusedScript
      (⟨refusedPoll.run pollConfig, []⟩, ⟨{}, ∅, []⟩)).map (fun x =>
        (x.2.store.failedEvents.rows.map (fun f => (f.correlationId,
          decide (∃ entry ∈ x.2.log, ∃ w ∈ entry.2, .failed f.id ∈ w.locks))),
          x.2.store.syncLogs.rows.map SyncLog.correlationId)) =
            some ([(none, true)], ["c"]) := by
    decide +kernel
  obtain ⟨⟨session, τ⟩, run, facts⟩ := Option.map_eq_some_iff.mp shape
  obtain ⟨entries, logs⟩ := Prod.mk.inj facts
  obtain ⟨f, single, own⟩ := List.map_eq_singleton_iff.mp entries
  obtain ⟨row, logged, _⟩ := List.map_eq_singleton_iff.mp logs
  obtain ⟨unnamed, decided⟩ := Prod.mk.inj own
  have touched : ∃ entry ∈ τ.log, ∃ w ∈ entry.2, .failed f.id ∈ w.locks :=
    of_decide_eq_true decided
  refine ⟨session, τ, Engine.solo_of_drive run, fun correlated => ?_⟩
  have entry : f ∈ τ.store.failedEvents := by
    change f ∈ τ.store.failedEvents.rows
    rw [single]
    exact List.mem_singleton_self f
  have log : row ∈ τ.store.syncLogs := by
    change row ∈ τ.store.syncLogs.rows
    rw [logged]
    exact List.mem_singleton_self row
  have same := correlated f entry touched row log rfl
  rw [unnamed] at same
  cases same

end OmniSync
