import OmniSync.CeleryApp
import OmniSync.Database.Footprint
import OmniSync.Dlq.Verification

/-!
# Sync runs and the dead-letter queue

The ingestion work of a run leaves the queue alone, so a run that returns has changed
nothing there, whatever entries its operation has. A run that fails writes entries of its
own operation only, `OnlyRecords`.
-/

namespace OmniSync

open Txn

section Ingests

variable {rt : Runtime} {settings : Settings}

theorem ofAnswer_ingests {α : Type} (r : Except Exn α) :
    (Prog.ofAnswer r : Tx α).Within Stmt.Ingesting := by
  cases r <;> trivial

theorem utcNow_ingests : Db.utcNow.Within Stmt.Ingesting := .issue trivial

theorem saveRawPayload_ingests (source : String) (payload : Json) (correlationId : String) :
    (saveRawPayload rt settings source payload correlationId).Within Stmt.Ingesting := by
  unfold saveRawPayload
  refine .bind (.issue trivial) (fun existing => ?_)
  cases existing with
  | some existing => trivial
  | none =>
      refine .bind ?_ (fun storageUrl => .issue trivial)
      unfold offloadLarge
      split
      · unfold offloadPayload
        refine .tryCatch (.bind utcNow_ingests (fun now => ?_)) (fun _ => trivial)
        exact .bind (.issue trivial) (fun _ => trivial)
      · trivial

theorem Stmt.Versioning.ingesting {s : Stmt} (h : s.Versioning) : s.Ingesting := by
  cases s <;> trivial

theorem upsertEventsBulk_ingests (events : List NormalizedEventCreate)
    (changedBy : Option String) :
    (NormalizedEventService.upsertEventsBulk events changedBy).Within Stmt.Ingesting := by
  unfold NormalizedEventService.upsertEventsBulk
  split
  · trivial
  · refine .bind utcNow_ingests (fun now => .bind (.issue trivial) (fun existing => ?_))
    refine .bind (.foldlM _ _ (fun rows e _ =>
      (prepareRow_versioning changedBy now _ rows e).mono (fun _ => Stmt.Versioning.ingesting))) (fun rows => ?_)
    refine .bind (.forM _ (fun row _ => .issue trivial)) (fun _ => ?_)
    refine .bind (.issue trivial) (fun final => ?_)
    refine .bind (.forM _ (fun e _ => ?_)) (fun _ => .bind (.issue trivial) (fun _ => trivial))
    exact (snapshotFound_versioning changedBy _).mono (fun _ => Stmt.Versioning.ingesting)

theorem setCursor_ingests (source : String) (cursor : Option String) (stream : String) :
    (setCursor source cursor stream).Within Stmt.Ingesting := by
  unfold setCursor
  refine .bind (.issue trivial) (fun state => ?_)
  cases state with
  | none => exact .bind (.issue trivial) (fun _ => trivial)
  | some state =>
      dsimp only
      split
      · exact .issue trivial
      · trivial

theorem collectItem_ingests (connector : Connector) (operation correlationId : String)
    (collected : List NormalizedEventCreate × Option Stamp) (raw : Json) :
    (collectItem rt settings connector operation correlationId collected raw).Within
      Stmt.Ingesting := by
  unfold collectItem
  exact .bind (saveRawPayload_ingests operation raw correlationId) (fun id => ofAnswer_ingests _)

theorem ingest_ingests (source operation correlationId : String) :
    (ingest rt settings source operation correlationId).Within Stmt.Ingesting := by
  unfold ingest
  refine .bind (ofAnswer_ingests _) (fun connector => ?_)
  refine .bind (.bind (.issue trivial) (fun _ => trivial)) (fun cursor => ?_)
  refine .bind ?_ (fun since => .bind (.issue trivial) (fun rawItems => ?_))
  · unfold parseSince
    split
    · split
      · trivial
      · exact .bind (ofAnswer_ingests _) (fun _ => trivial)
    · trivial
  · refine .bind (.foldlM _ _ (fun collected raw _ =>
      collectItem_ingests connector operation correlationId collected raw)) (fun collected => ?_)
    refine .bind ?_ (fun results => .bind ?_ (fun _ => trivial))
    · unfold storeCollected
      split
      · trivial
      · exact upsertEventsBulk_ingests _ _
    · unfold saveWatermark
      split
      · exact setCursor_ingests _ _ _
      · trivial

end Ingests

section Runs

variable {ι : Type} {i : ι} {rt : Runtime} {settings : Settings}
variable {source operation : String} {start σ τ : State ι} {ws : List Write}

/-- The queue has the entries, and the broker the tasks, that they had in `σ`. -/
def QueueKept (σ τ : State ι) : Prop :=
  τ.store.failedEvents = σ.store.failedEvents ∧ τ.world.broker = σ.world.broker

/-- A write set that was committed since `σ` has written the entry. -/
def Touched (σ τ : State ι) (f : FailedEvent) : Prop :=
  ∃ entry ∈ τ.log.drop σ.log.length, ∃ w ∈ entry.2, .failed f.id ∈ w.locks

/-- What was committed since `σ` has written entries of one operation only. -/
structure OnlyRecords (operation : String) (σ τ : State ι) : Prop where
  log : ∃ new, τ.log = σ.log ++ new
  touched : ∀ f ∈ τ.store.failedEvents, Touched σ τ f → f.operation = operation

theorem not_lock_failed {w : Write} (h : w.table ≠ .failedEvents) (id : Uuid) :
    .failed id ∉ w.locks := by
  cases w with
  | addFailed | lockFailed | patchFailed => exact (h rfl).elim
  | _ => simp [Write.locks]

namespace OnlyRecords

theorem refl (σ : State ι) : OnlyRecords operation σ σ where
  log := ⟨[], (List.append_nil _).symm⟩
  touched f _ := by
    rintro ⟨entry, member, _⟩
    rw [List.drop_length] at member
    exact (List.not_mem_nil member).elim

/-- Who touches an entry after a commit has touched it before, or the commit does. -/
theorem touched_publish (h : OnlyRecords operation start σ) {f : FailedEvent}
    (touched : Touched start (postgres.publish σ i ws) f) :
    Touched start σ f ∨ ∃ w ∈ ws, .failed f.id ∈ w.locks := by
  obtain ⟨entry, member, w, hw, held⟩ := touched
  obtain ⟨new, log⟩ := h.log
  rw [Engine.publish_log, log, List.append_assoc, List.drop_left] at member
  rcases List.mem_append.mp member with old | here
  · refine .inl ⟨entry, ?_, w, hw, held⟩
    rw [log, List.drop_left]
    exact old
  · rw [List.mem_singleton.mp here] at hw
    exact .inr ⟨w, hw, held⟩

theorem log_publish (h : OnlyRecords operation start σ) :
    ∃ new, (postgres.publish σ i ws).log = start.log ++ new := by
  obtain ⟨new, log⟩ := h.log
  exact ⟨new ++ [(i, ws)], by rw [Engine.publish_log, log, List.append_assoc]⟩

theorem publish_other (h : OnlyRecords operation start σ)
    (other : ∀ w ∈ ws, w.table ≠ .failedEvents) :
    OnlyRecords operation start (postgres.publish σ i ws) where
  log := h.log_publish
  touched f hf touched := by
    have old : f ∈ σ.store.failedEvents := by
      rw [Engine.publish_store, view_failedEvents_of_table other] at hf
      exact hf
    rcases h.touched_publish touched with before | ⟨w, hw, held⟩
    · exact h.touched f old before
    · exact (not_lock_failed (other w hw) f.id held).elim

theorem publish_recorded (h : OnlyRecords operation start σ)
    (recorded : FailureRecorded settings source operation σ.store ws) :
    OnlyRecords operation start (postgres.publish σ i ws) where
  log := h.log_publish
  touched f hf touched := by
    cases recorded with
    | @refresh existing _ _ _ _ active =>
        obtain ⟨here, _, own, _⟩ := mem_activeEntries.mp active
        obtain ⟨x, hx, rfl⟩ := Store.mem_put_patchFailed.mp hf
        have same : x.operation = operation := by
          rcases h.touched_publish touched with before | ⟨w, hw, held⟩
          · refine h.touched x hx ?_
            split at before <;> exact before
          · rw [List.mem_singleton.mp hw] at held
            have id : x.id = existing.id := by
              split at held <;> simpa [Write.locks] using held
            rw [Table.eq_of_key_eq hx here id]
            exact own
        split <;> exact same
    | @first _ _ _ _ _ id empty absent =>
        rcases Table.mem_of_mem_add hf with old | rfl
        · rcases h.touched_publish touched with before | ⟨w, hw, held⟩
          · exact h.touched f old before
          · rw [List.mem_singleton.mp hw] at held
            have same : f.id = id := by simpa [Write.locks, recorded] using held
            exact (Table.find_eq_none_iff.mp absent f old same).elim
        · rfl

end OnlyRecords

/-- The protocol of a sync run of `operation` that starts in `start`. -/
def syncing (operation : String) (start : State ι) : Protocol postgres ι :=
  alone (OnlyRecords operation start) (fun _ _ _ => True)

theorem hosts_syncing : Hosts (syncing operation start) :=
  hosts_alone (fun _ _ inv => ⟨inv.log, inv.touched⟩)

theorem QueueKept.interfere (h : QueueKept start σ) (rely : (syncing operation start).rely ws σ τ) :
    QueueKept start τ := by
  have broker : τ.world.broker = σ.world.broker := by rw [(alone_world rely).2]
  exact ⟨(congrArg Store.failedEvents (alone_store rely)).trans h.1, broker.trans h.2⟩

theorem QueueKept.publish (h : QueueKept start σ) (other : ∀ w ∈ ws, w.table ≠ .failedEvents) :
    QueueKept start (postgres.publish σ i ws) :=
  ⟨(view_failedEvents_of_table other).trans h.1, h.2⟩

/-- What a run leaves in the queue if it returns. -/
def Synced (start : State ι) {α : Type} : Post Exn Store Write World ι α :=
  fun r τ _ => ∀ a, r = .ok a → QueueKept start τ

theorem synced_error {α : Type} (e : Exn) (τ : State ι) (ws : List Write) :
    Synced start (.error e : Except Exn α) τ ws := fun _ impossible => (nomatch impossible)

theorem synced_final {α : Type} : (syncing operation start).Final (Synced start (α := α)) :=
  ⟨fun post rely _ a value => (post a value).interfere rely, fun post => post,
    fun _ _ impossible => (nomatch impossible)⟩

theorem wp_createSyncLog_owned {correlationId name : String} (kept : QueueKept start σ) :
    wp (syncing operation start) i (createSyncLog true correlationId name)
      (Post.andThen (β := Nat) (Synced start) (fun _ τ ws => QueueKept start τ ∧ ws = [])) σ [] := by
  unfold createSyncLog
  rw [wp_bind]
  refine wp_insertSyncLog hosts_syncing (fun τ rely inv => ⟨fun e => synced_error e τ [], ?_⟩)
  intro id t _
  rw [Post.andThen_ok, if_pos rfl, wp_bind, wp_commitWork]
  intro υ rely' inv'
  have other : ∀ w ∈ ([] ++ [.addSyncLog ⟨id, correlationId, name, .started, none, t⟩] : List Write),
      w.table ≠ .failedEvents := by
    intro w hw
    rw [List.mem_singleton.mp hw]
    simp [Write.table]
  refine ⟨fun e => synced_error e υ [], alone_guarantees (inv'.publish_other other), ?_, rfl⟩
  exact ((kept.interfere rely).interfere rely').publish other

theorem wp_updateSyncLogStatus_owned {logId : Uuid} {status : RunStatus}
    {errorText : Option String} :
    wp (syncing operation start) i (updateSyncLogStatus true logId status errorText)
      (Post.andThen (β := Nat) (Synced start)
        (fun _ τ ws => (QueueKept start σ → QueueKept start τ) ∧ ws = [])) σ [] := by
  unfold updateSyncLogStatus
  rw [wp_bind]
  refine wp_updateSyncLog hosts_syncing (fun τ rely inv => ⟨fun e => synced_error e τ [], ?_⟩)
  rw [Post.andThen_ok, if_pos rfl, wp_commitWork]
  intro υ rely' inv'
  have other : ∀ w ∈ ([] ++ if ((postgres.view τ.store []).syncLogs.find logId).isSome then
      [.setSyncLog logId status errorText] else [] : List Write), w.table ≠ .failedEvents := by
    intro w hw
    rw [List.nil_append] at hw
    split at hw
    · rw [List.mem_singleton.mp hw]
      simp [Write.table]
    · exact (List.not_mem_nil hw).elim
  refine ⟨fun e => synced_error e υ [], alone_guarantees (inv'.publish_other other), ?_, rfl⟩
  intro kept
  exact ((kept.interfere rely).interfere rely').publish other

/-- The ingestion work of a run writes nothing to the queue. -/
theorem wp_ingest {correlationId : String} (kept : QueueKept start σ) :
    wp (syncing operation start) i (ingest rt settings source operation correlationId)
      (fun _ τ ws => QueueKept start τ ∧ ∀ w ∈ ws, w.table ≠ .failedEvents) σ [] := by
  refine wp_ingests (R := fun τ ws => QueueKept start τ ∧ ∀ w ∈ ws, w.table ≠ .failedEvents)
    (ingest_ingests source operation correlationId) ?_ ?_
    ⟨kept, fun _ hw => (List.not_mem_nil hw).elim⟩ (fun _ _ _ here => here)
  · rintro σ τ ws ⟨kept, other⟩ rely _
    exact ⟨kept.interfere rely, other⟩
  · rintro σ ws new world ⟨kept, other⟩ inv moves ingested
    refine ⟨alone_guarantees ⟨inv.log, inv.touched⟩, ⟨kept.1, moves.broker.trans kept.2⟩, ?_⟩
    intro w hw
    rcases List.mem_append.mp hw with old | added
    · exact other w old
    · exact (ingested w added).failedEvents

/-- A failed run records an entry of its own operation and never returns. -/
theorem wp_failedSync {correlationId : Option String} {logId : Uuid} {payload : Json} {e : Exn} :
    wp (syncing operation start) i
      (do
        Prog.rollbackWork
        updateSyncLogStatus true logId .failed (some e.message)
        recordFailureStandalone settings source operation payload e.message correlationId
        throw e) (Synced start (α := Nat)) σ ws := by
  rw [wp_bind, wp_rollbackWork]
  intro τ _ _
  rw [Post.andThen_ok, wp_bind]
  refine wp_mono wp_updateSyncLogStatus_owned (fun r υ ws post => ?_)
  cases r with
  | error e => exact synced_error e υ ws
  | ok _ =>
      obtain ⟨_, rfl⟩ := post
      rw [Post.andThen_ok, wp_bind]
      unfold recordFailureStandalone
      rw [wp_bind]
      refine wp_recordFailure hosts_syncing (fun e τ vs _ _ => synced_error e τ vs) ?_
      intro φ id vs _ _ given
      rw [Post.andThen_ok, wp_commitWork]
      intro ψ rely inv
      have here : FailureRecorded settings source operation ψ.store ([] ++ vs) := by
        rw [alone_store rely]
        exact given.recorded
      exact ⟨fun e => synced_error e ψ [], alone_guarantees (inv.publish_recorded here),
        synced_error e _ []⟩

theorem wp_runConnectorSync {requested : Option String}
    (own : operationOf source requested = operation) :
    wp (syncing operation start) i (runConnectorSync rt settings source requested)
      (Synced start) start [] := by
  unfold runConnectorSync
  rw [own, wp_bind]
  refine wp_generateCorrelationId hosts_syncing (fun σ rely _ correlationId => ?_)
  have kept : QueueKept start σ := QueueKept.interfere ⟨rfl, rfl⟩ rely
  rw [Post.andThen_ok, wp_bind]
  refine wp_mono (wp_createSyncLog_owned kept) (fun r τ ws post => ?_)
  cases r with
  | error e => exact synced_error e τ ws
  | ok logId =>
      obtain ⟨kept, rfl⟩ := post
      rw [Post.andThen_ok, wp_tryCatch, wp_bind]
      refine wp_mono (wp_ingest kept) (fun r υ ws post => ?_)
      cases r with
      | error e => exact wp_failedSync
      | ok results =>
          rw [Post.andThen_ok, wp_bind, wp_commitWork]
          intro φ rely inv
          refine ⟨fun e => wp_failedSync, alone_guarantees (inv.publish_other post.2), ?_⟩
          have kept := (post.1.interfere rely).publish (i := i) post.2
          rw [Post.andThen_ok, wp_bind]
          refine wp_mono wp_updateSyncLogStatus_owned (fun r ψ ws post => ?_)
          cases r with
          | error e => exact wp_failedSync
          | ok _ => exact fun _ _ => post.1 kept

/-- A run that returns leaves the queue as it was. -/
theorem runConnectorSync_completes {requested : Option String} {n : Nat}
    (h : postgres.Completes i (runConnectorSync rt settings source requested) start n τ) :
    QueueKept start τ := by
  obtain ⟨ws, solo⟩ := h
  refine (wp_solo (syncing (operationOf source requested) start) synced_final ?_ ?_ solo).2 n rfl
  · exact OnlyRecords.refl start
  · exact wp_runConnectorSync rfl

/-- A run writes entries of its own operation only. -/
theorem runConnectorSync_records {requested : Option String} {session : TxSession Nat}
    (h : postgres.Solo (fun _ _ _ => True) i
      (⟨runConnectorSync rt settings source requested, []⟩, start) (session, τ)) :
    OnlyRecords (operationOf source requested) start τ := by
  refine (wp_solo (syncing (operationOf source requested) start) synced_final ?_ ?_ h).1
  · exact OnlyRecords.refl start
  · exact wp_runConnectorSync rfl

end Runs

end OmniSync
