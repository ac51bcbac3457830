import OmniSync.Integrations.Batch
import OmniSync.Integrations.Verification
import OmniSync.SyncLogs.Runs
import OmniSync.Telegram.Tasks

/-!
# What a poll of Telegram stores

The polling task is a logged run. A poll that returns has kept every update that has a
message, has stored the events of those that have any text, and has moved the cursor behind
the largest id that it has seen.
-/

namespace OmniSync

open Txn

variable {rt : Runtime} {settings : Settings}

/-- The work of a poll up to its commit. -/
def ingestUpdates (rt : Runtime) (settings : Settings) (correlationId : String) :
    Tx (List NormalizedEvent) := do
  let cursor ← getCursor "telegram"
  let offset ← parseOffset cursor
  let updates ← TelegramClient.getUpdates rt offset
  let collected ← updates.foldlM (collectUpdate rt settings correlationId) ([], none)
  acknowledge collected.2
  storeCollected collected.1 correlationId

/-- A poll of Telegram. -/
def telegramRun (rt : Runtime) (settings : Settings) : LoggedRun (List NormalizedEvent) Unit where
  operation := "telegram_poll"
  body := ingestUpdates rt settings
  result _ := ()
  handler := failRun

theorem telegramRun_opened (run : String × Uuid) :
    (telegramRun rt settings).opened run = Prog.tryCatch
      (do
        let cursor ← getCursor "telegram"
        let offset ← parseOffset cursor
        let updates ← TelegramClient.getUpdates rt offset
        let collected ← updates.foldlM (collectUpdate rt settings run.1) ([], none)
        acknowledge collected.2
        if collected.1.isEmpty then
          Prog.commitWork
          updateSyncLogStatus true run.2 .completed none
        else
          let _ ← NormalizedEventService.upsertEventsBulk collected.1 (some run.1)
          Prog.commitWork
          updateSyncLogStatus true run.2 .completed none)
      (failRun run) := by
  have settled : ∀ a, (telegramRun rt settings).settle run a =
      (do
        Prog.commitWork
        updateSyncLogStatus true run.2 .completed none) := by
    intro a
    exact congrArg (fun p => Prog.commitWork >>= fun _ => p) (Prog.bind_pure _)
  have stored : ∀ batch, storeCollected batch run.1 >>= (telegramRun rt settings).settle run =
      if batch.isEmpty then (do
        Prog.commitWork
        updateSyncLogStatus true run.2 .completed none)
      else (do
        let _ ← NormalizedEventService.upsertEventsBulk batch (some run.1)
        Prog.commitWork
        updateSyncLogStatus true run.2 .completed none) := by
    intro batch
    unfold storeCollected
    split
    · exact settled []
    · exact congrArg (fun f => NormalizedEventService.upsertEventsBulk batch (some run.1) >>= f)
        (funext settled)
  unfold LoggedRun.opened
  refine congrArg (fun p => Prog.tryCatch p (failRun run)) ?_
  change ingestUpdates rt settings run.1 >>= _ = _
  simp only [ingestUpdates, Prog.bind_assoc, stored]

theorem syncTelegramMessages_eq :
    syncTelegramMessages rt settings = (telegramRun rt settings).prog := by
  change _ = openRun "telegram_poll" >>= fun run => (telegramRun rt settings).opened run
  unfold syncTelegramMessages pollTelegram openRun
  simp only [telegramRun_opened, Prog.bind_assoc]
  rfl

/-- The offset from which a poll asks, given the cursor. -/
def offsetOf (cursor : Option String) : Except Exn (Option Int) :=
  match cursor with
  | none => .ok none
  | some cursor =>
      if cursor = "" then .ok none
      else match signed cursor.toList with
        | some offset => .ok (some offset)
        | none => .error ⟨"ValueError", "invalid literal for int() with base 10: " ++ cursor⟩

theorem parseOffset_eq (cursor : Option String) :
    parseOffset cursor = Prog.ofAnswer (offsetOf cursor) := by
  cases cursor with
  | none => rfl
  | some cursor =>
      simp only [parseOffset, offsetOf]
      split
      · rfl
      · cases signed cursor.toList <;> rfl

/-- The event of a message with some text. -/
def TelegramMessage.event (message : TelegramMessage) (text : String) (rawPayloadId : Option Uuid)
    (timestamp : Time) : NormalizedEventCreate where
  externalId := toString message.messageId
  source := "telegram"
  authorId := (message.fromUser.map (fun user => toString user.id)).getD ""
  authorName := (message.fromUser.map TelegramUser.displayName).getD ""
  content := chatTitle message.chat ++ text
  eventType := "message"
  timestamp := timestamp
  rawPayloadId := rawPayloadId

/-- The text of a message, if there is any. -/
def TelegramMessage.some? (message : TelegramMessage) : Option String :=
  message.text.filter (fun text => decide (text ≠ ""))

section Parse

variable {message : TelegramMessage} {rawPayloadId : Option Uuid} {now : Time} {text : String}

theorem parseMessageToEvent_none (h : message.some? = none) :
    parseMessageToEvent rt now message rawPayloadId = .ok none := by
  unfold parseMessageToEvent
  cases content : message.text with
  | none => rfl
  | some text =>
      have empty : text = "" := by
        rw [TelegramMessage.some?, content, Option.filter_eq_none_iff] at h
        by_contra some
        exact h text rfl (decide_eq_true some)
      exact if_pos empty

theorem parseMessageToEvent_some (h : message.some? = some text) :
    parseMessageToEvent rt now message rawPayloadId = (messageTime rt message.date now).map
      (fun timestamp => some (message.event text rawPayloadId timestamp)) := by
  obtain ⟨content, some⟩ := Option.filter_eq_some_iff.mp h
  unfold parseMessageToEvent
  rw [content]
  exact if_neg (of_decide_eq_true some)

end Parse

/-- What a message is normalized to at some time. -/
def TelegramMessage.Makes (rt : Runtime) (rawPayloadId : Uuid) (message : TelegramMessage)
    (result : Option NormalizedEventCreate) : Prop :=
  ∃ now, parseMessageToEvent rt now message (some rawPayloadId) = .ok result

/-- What an update is normalized to. -/
def TelegramUpdate.Makes (rt : Runtime) (update : TelegramUpdate)
    (result : Option NormalizedEventCreate) : Prop :=
  match update.message with
  | none => result = none
  | some message => ∃ rawPayloadId, message.Makes rt rawPayloadId result

/-- The largest id of the updates. -/
def latestId (updates : List TelegramUpdate) : Option Int :=
  (updates.map TelegramUpdate.updateId).foldl laterId none

/-- The payloads that a poll keeps. -/
def updatePayloads (updates : List TelegramUpdate) : List Json :=
  (updates.filter (fun update => update.message.isSome)).map TelegramUpdate.modelDump

/-- From `s` to `t` a poll has received updates and has stored their events. -/
def UpdatesImported (rt : Runtime) (remote : Remote) (s t : Store) : Prop :=
  ∃ offset updates batch, offsetOf (s.cursorOf "telegram") = .ok offset ∧
    (∀ xs, remote (.getUpdates offset) = some xs →
      updates = TelegramClient.validated rt xs) ∧
      Batched (TelegramUpdate.Makes rt) updates batch ∧
        Ingested rt "telegram" "telegram_poll" (updatePayloads updates) batch
          ((latestId updates).map (fun id => toString (id + 1))) s t

theorem UpdatesImported.congr {remote : Remote} {s s' t t' : Store}
    (h : UpdatesImported rt remote s t) (before : s.SameContent s') (after : t.SameContent t') :
    UpdatesImported rt remote s' t' := by
  obtain ⟨offset, updates, batch, resumes, answered, batched, ingested⟩ := h
  rw [← cursorOf_of_sameContent before] at resumes
  exact ⟨offset, updates, batch, resumes, answered, batched, ingested.congr before after⟩

section Collect

variable {correlationId : String} {s : Store} {ws : List Write} {σ : State Unit}

/-- The loop over the updates has visited `first`. -/
structure CollectingUpdates (rt : Runtime) (s : Store) (first : List TelegramUpdate)
    (collected : List NormalizedEventCreate × Option Int) (ws : List Write) : Prop where
  payloads : OnlyPayloads ws
  kept : ∀ raw ∈ updatePayloads first, Kept rt "telegram_poll" raw (postgres.view s ws)
  batched : Batched (TelegramUpdate.Makes rt) first collected.1
  latest : collected.2 = latestId first

theorem CollectingUpdates.initial (s : Store) : CollectingUpdates rt s [] ([], none) [] :=
  ⟨fun _ hw => (List.not_mem_nil hw).elim, fun _ hr => (List.not_mem_nil hr).elim, .nil, rfl⟩

theorem latestId_concat (updates : List TelegramUpdate) (update : TelegramUpdate) :
    latestId (updates ++ [update]) = laterId (latestId updates) update.updateId := by
  simp [latestId]

/-- One iteration of the loop. -/
theorem wp_collectUpdate {first : List TelegramUpdate} {update : TelegramUpdate}
    {collected : List NormalizedEventCreate × Option Int}
    (h : CollectingUpdates rt s first collected ws) (same : σ.store = s) :
    wp serial () (collectUpdate rt settings correlationId collected update)
      (fun r τ vs => ∀ next, r = .ok next → τ.store = s ∧
        CollectingUpdates rt s (first ++ [update]) next vs) σ ws := by
  have latest : laterId collected.2 update.updateId = latestId (first ++ [update]) := by
    rw [latestId_concat, h.latest]
  unfold collectUpdate
  cases message : update.message with
  | none =>
      rintro _ ⟨⟩
      refine ⟨same, h.payloads, ?_, ?_, latest⟩
      · have payloads : updatePayloads (first ++ [update]) = updatePayloads first := by
          simp [updatePayloads, message]
        rw [payloads]
        exact h.kept
      · have made : update.Makes rt none := by
          unfold TelegramUpdate.Makes
          rw [message]
        have batched := h.batched.concat made
        rw [Option.toList_none, List.append_nil] at batched
        exact batched
  | some message' =>
      dsimp only
      rw [wp_bind]
      refine wp_mono wp_saveRawPayload (fun r τ vs post => ?_)
      cases r with
      | error e => exact fun _ impossible => (nomatch impossible)
      | ok id =>
          obtain ⟨store, new, rfl, payloads, current⟩ := post id rfl
          have kept : τ.store = s := store.trans same
          have both : OnlyPayloads (ws ++ new) := fun w hw =>
            (List.mem_append.mp hw).elim (h.payloads w) (payloads w)
          have all : ∀ raw ∈ updatePayloads (first ++ [update]),
              Kept rt "telegram_poll" raw (postgres.view s (ws ++ new)) := by
            intro raw hr
            have split : updatePayloads (first ++ [update]) =
                updatePayloads first ++ [update.modelDump] := by
              simp [updatePayloads, message]
            rw [split] at hr
            rcases List.mem_append.mp hr with old | now
            · rw [postgres.view_append]
              exact (h.kept raw old).view payloads
            · rw [List.mem_singleton.mp now, ← kept]
              exact current
          rw [Post.andThen_ok, wp_bind]
          refine wp_utcNow hosts_serial (fun υ rely _ now => ?_)
          have store' : υ.store = τ.store := alone_store rely
          rw [Post.andThen_ok, wp_bind, wp_ofAnswer]
          cases parsed : parseMessageToEvent rt now message' (some id) with
          | error e => exact fun _ impossible => (nomatch impossible)
          | ok result =>
              have made : update.Makes rt result := by
                unfold TelegramUpdate.Makes
                rw [message]
                exact ⟨id, now, parsed⟩
              have batched := h.batched.concat made
              rw [Post.andThen_ok]
              cases result with
              | none =>
                  rintro _ ⟨⟩
                  rw [Option.toList_none, List.append_nil] at batched
                  exact ⟨store'.trans kept, both, all, batched, latest⟩
              | some e =>
                  rintro _ ⟨⟩
                  exact ⟨store'.trans kept, both, all, batched, latest⟩

theorem wp_collectUpdates (updates : List TelegramUpdate) (same : σ.store = s) :
    wp serial () (updates.foldlM (collectUpdate rt settings correlationId) ([], none))
      (fun r τ vs => ∀ collected, r = .ok collected → τ.store = s ∧
        CollectingUpdates rt s updates collected vs) σ [] := by
  refine wp_foldlM (fun collected rest τ vs => τ.store = s ∧ ∃ first, updates = first ++ rest ∧
    CollectingUpdates rt s first collected vs) ?_ ?_ ([], none) updates ?_
  · rintro collected update rest τ vs ⟨here, first, rfl, collecting⟩
    refine wp_mono (wp_collectUpdate collecting here) (fun r υ vs post => ?_)
    cases r with
    | error e => exact fun _ impossible => (nomatch impossible)
    | ok next =>
        obtain ⟨store, next⟩ := post next rfl
        exact ⟨store, first ++ [update], by simp, next⟩
  · rintro collected τ vs ⟨here, first, rfl, collecting⟩
    rintro _ ⟨⟩
    rw [List.append_nil]
    exact ⟨here, collecting⟩
  · exact ⟨same, [], rfl, .initial s⟩

end Collect

section Poll

variable {correlationId : String}

theorem wp_acknowledge {σ : State Unit} {ws : List Write} {maxUpdateId : Option Int} :
    wp serial () (acknowledge maxUpdateId)
      (WatermarkSaved "telegram" (maxUpdateId.map (fun id => toString (id + 1))) σ ws) σ ws := by
  cases maxUpdateId with
  | none => exact watermarkSaved_none
  | some id => exact wp_setCursor

/-- What a poll leaves that has received `updates`, up to its commit. -/
theorem wp_storeUpdates {σ : State Unit} {updates : List TelegramUpdate}
    (unique : σ.store.EventIdsUnique) :
    wp serial ()
      (do
        let collected ← updates.foldlM (collectUpdate rt settings correlationId) ([], none)
        acknowledge collected.2
        storeCollected collected.1 correlationId)
      (fun r τ ws => ∀ results, r = .ok results → τ.store = σ.store ∧ ∃ batch,
        Batched (TelegramUpdate.Makes rt) updates batch ∧
          Ingested rt "telegram" "telegram_poll" (updatePayloads updates) batch
            ((latestId updates).map (fun id => toString (id + 1))) σ.store
            (postgres.view σ.store ws)) σ [] := by
  rw [wp_bind]
  refine wp_mono (wp_collectUpdates updates rfl) (fun r τ ws post => ?_)
  cases r with
  | error e => exact fun _ impossible => (nomatch impossible)
  | ok collected =>
      obtain ⟨store, payloads, kept, batched, latest⟩ := post collected rfl
      rw [Post.andThen_ok, wp_bind, latest]
      refine wp_mono wp_acknowledge (fun r υ vs post => ?_)
      cases r with
      | error e => exact fun _ impossible => (nomatch impossible)
      | ok _ =>
          obtain ⟨store', new, rfl, cursors, cursorSet⟩ := post () rfl
          have here : υ.store = σ.store := store'.trans store
          have pending : Pending υ.store (ws ++ new) := by
            refine .of_other (fun w hw => ?_)
            rcases List.mem_append.mp hw with old | added
            · exact .inl (payloads.table w old)
            · exact .inr (cursors w added)
          rw [store] at cursorSet
          have ids : (postgres.view υ.store (ws ++ new)).EventIdsUnique := by
            rw [here]
            unfold Store.EventIdsUnique
            rw [cursorSet.rest]
            exact payloads.eventIdsUnique unique
          rw [Post.andThen_ok]
          refine wp_mono (wp_storeCollected pending (here ▸ unique) ids) (fun r φ us post => ?_)
          rintro results rfl
          obtain ⟨store'', new', rfl, batchStored⟩ := post results rfl
          rw [here] at batchStored
          obtain ⟨first, then'⟩ := BatchStored.swap cursorSet batchStored
          refine ⟨store''.trans here, collected.1, batched, ?_⟩
          exact .of_phases payloads kept first then'

/-- What a poll leaves up to its commit. -/
theorem wp_ingestUpdates {σ : State Unit} (unique : σ.store.EventIdsUnique) :
    wp serial () (ingestUpdates rt settings correlationId)
      (fun r τ ws => ∀ results, r = .ok results → τ.store = σ.store ∧
        UpdatesImported rt σ.world.remote σ.store (postgres.view σ.store ws)) σ [] := by
  unfold ingestUpdates getCursor
  rw [wp_bind, wp_bind]
  refine wp_selectCursor hosts_serial
    (fun τ rely _ => ⟨fun _ _ impossible => (nomatch impossible), ?_⟩)
  rw [Post.andThen_ok, wp_pure, Post.andThen_ok, parseOffset_eq, wp_bind, wp_ofAnswer]
  have before : τ.store = σ.store := alone_store rely
  change Post.andThen _ _ (offsetOf (τ.store.cursorOf "telegram")) τ []
  rw [before]
  cases resumes : offsetOf (σ.store.cursorOf "telegram") with
  | error e => exact fun _ impossible => (nomatch impossible)
  | ok offset =>
      rw [Post.andThen_ok, wp_bind, TelegramClient.getUpdates, wp_bind]
      refine wp_getUpdates (fun υ rely' _ => ⟨fun _ _ impossible => (nomatch impossible), ?_⟩)
      intro result known
      have same : υ.store = σ.store := (alone_store rely').trans before
      have remote : υ.world.remote = σ.world.remote := by
        rw [(alone_world rely').2, (alone_world rely).2]
      rw [remote] at known
      rw [Post.andThen_ok, wp_pure, Post.andThen_ok]
      refine wp_mono (wp_storeUpdates (same ▸ unique)) (fun r φ ws post => ?_)
      rintro results rfl
      obtain ⟨store, batch, batched, ingested⟩ := post results rfl
      rw [same] at store ingested
      refine ⟨store, offset, _, batch, resumes, fun xs answers => ?_, batched, ingested⟩
      rw [known xs answers]

theorem collectUpdate_ingests (collected : List NormalizedEventCreate × Option Int)
    (update : TelegramUpdate) :
    (collectUpdate rt settings correlationId collected update).Within Stmt.Ingesting := by
  unfold collectUpdate
  dsimp only
  split
  · trivial
  · refine .bind (saveRawPayload_ingests _ _ _) (fun id => ?_)
    refine .bind utcNow_ingests (fun now => .bind (ofAnswer_ingests _) (fun result => ?_))
    split <;> trivial

theorem parseOffset_ingests (cursor : Option String) :
    (parseOffset cursor).Within Stmt.Ingesting := by
  rw [parseOffset_eq]
  exact ofAnswer_ingests _

theorem acknowledge_ingests (maxUpdateId : Option Int) :
    (acknowledge maxUpdateId).Within Stmt.Ingesting := by
  unfold acknowledge
  split
  · exact setCursor_ingests _ _ _
  · trivial

theorem ingestUpdates_ingests :
    (ingestUpdates rt settings correlationId).Within Stmt.Ingesting := by
  unfold ingestUpdates
  refine .bind (.bind (.issue trivial) (fun _ => trivial)) (fun cursor => ?_)
  refine .bind (parseOffset_ingests cursor) (fun off => ?_)
  have requested : (TelegramClient.getUpdates rt off).Within Stmt.Ingesting :=
    .bind (.issue trivial) (fun _ => trivial)
  refine .bind requested (fun updates => .bind (.foldlM _ _ ?_) (fun collected => ?_))
  · exact fun collected update _ => collectUpdate_ingests collected update
  · refine .bind (acknowledge_ingests _) (fun _ => ?_)
    unfold storeCollected
    split
    · trivial
    · exact upsertEventsBulk_ingests _ _

theorem telegramRun_proper : (telegramRun rt settings).Proper where
  ingesting _ := ingestUpdates_ingests
  doomed := LoggedRun.failRun_doomed
  books := LoggedRun.failRun_books

theorem telegramRun_stores (remote : Remote) : (telegramRun rt settings).Stores remote
    (UpdatesImported rt remote) := by
  intro cid σ unique answers
  refine wp_mono (wp_ingestUpdates unique) (fun r τ ws post results value => ?_)
  obtain ⟨same, imported⟩ := post results value
  rw [same, ← answers]
  exact imported

end Poll

/-- What a poll of Telegram that returns has stored. -/
theorem syncTelegramMessages_imports {start τ : State Unit} (unique : start.store.EventIdsUnique)
    (h : postgres.Completes () (syncTelegramMessages rt settings) start () τ) :
    UpdatesImported rt start.world.remote start.store τ.store := by
  rw [syncTelegramMessages_eq] at h
  obtain ⟨s, t, before, after, imported⟩ :=
    LoggedRun.completes telegramRun_proper (telegramRun_stores _) unique h
  exact imported.congr before.symm after

end OmniSync
