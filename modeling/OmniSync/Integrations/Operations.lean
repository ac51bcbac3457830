import OmniSync.Agent.Router
import OmniSync.Dlq.Router
import OmniSync.Dlq.Tasks
import OmniSync.Events.Listing
import OmniSync.Events.Parts
import OmniSync.Github.Parsing
import OmniSync.Integrations.Correlation
import OmniSync.Integrations.Requests
import OmniSync.Outbox.Tasks

/-!
# The operations of the system

What runs against the database: the background tasks, the webhooks and the manual syncs, the
publisher of the outbox, the retrier and the manual replay of dead letters, and the endpoints
that read events and changes. Each of them upserts batches of events and leaves the events alone
otherwise: `Operation.orderly`. So what is shown of the upserts holds of all of them, in any
mixture.
-/

namespace OmniSync

open Txn

/-- What the operations run with. -/
structure SystemConfig extends PollConfig where
  webhooks : WebhookSettings
  imapSettings : ImapSettings

namespace SystemConfig

/-- What the handlers of the requests run with. -/
def requests (c : SystemConfig) : RequestConfig where
  lib := c.lib
  rt := c.rt
  settings := c.settings
  webhooks := c.webhooks
  imapSettings := c.imapSettings

end SystemConfig

/-- One operation of the system. -/
inductive Operation where
  | background (task : BackgroundTask)
  | request (r : Request)
  | publishOutbox
  | retryFailedEvents
  | replayFailedEvent (failedEventId : Uuid)
  | listEvents (filters : EventFilterParams) (limit : Nat)
  | pollChanges (cursor : Option (Time × Uuid)) (limit : Nat)

/-- An operation, without its answer. -/
def Operation.run (c : SystemConfig) : Operation → Tx Unit
  | background task => task.run c.toPollConfig
  | request r => r.run c.requests
  | publishOutbox => do
      let _ ← OmniSync.publishOutbox c.settings
  | retryFailedEvents => do
      let _ ← OmniSync.retryFailedEvents c.settings
  | replayFailedEvent failedEventId => do
      let _ ← OmniSync.replayFailedEvent failedEventId
  | listEvents filters limit => do
      let _ ← NormalizedEventService.listEvents filters limit
  | pollChanges cursor limit => do
      let _ ← OmniSync.pollChanges cursor limit

/-- The sources of the events that the connector makes which is registered for `source`. -/
def Runtime.sourcesOf (rt : Runtime) (source : String) : Set String :=
  {made | ∃ connector raw rawPayloadId e, rt.getConnector source = .ok connector ∧
    connector.normalize raw rawPayloadId = .ok (some e) ∧ e.source = made}

/-- The source that a background task is for. -/
def BackgroundTask.source : BackgroundTask → String
  | poll task _ _ => task.source
  | syncImapMessages _ => "imap"
  | runConnectorSync source _ => source

/-- The source that a webhook is for. -/
def Webhook.source : Webhook → String
  | .github _ _ _ => "github"
  | .telegram _ _ => "telegram"

/-- The source that a request is for. -/
def Request.source : Request → String
  | .webhook w => w.source
  | .githubSync _ _ => "github"
  | .telegramSync => "telegram"
  | .imapSync => "imap"

/-- The source that an operation is for, if any. -/
def Operation.source : Operation → Option String
  | background task => some task.source
  | request r => some r.source
  | _ => none

/-- The sources of the events of a background task. -/
def BackgroundTask.sources (c : PollConfig) : BackgroundTask → Set String
  | runConnectorSync source _ => c.rt.sourcesOf source
  | task => {task.source}

/-- The sources of the events that an operation may write. -/
def Operation.sources (c : SystemConfig) : Operation → Set String
  | background task => task.sources c.toPollConfig
  | request r => {r.source}
  | _ => ∅

/-- A pass of the publisher up to its commit. -/
def deliverPending (settings : Settings) : Tx Nat := do
  let pending ← fetchPending settings none
  pending.foldlM (publishRow settings) 0

theorem publishOutbox_eq (settings : Settings) : publishOutbox settings = (do
    let published ← deliverPending settings
    Prog.commitWork
    return published) := by
  unfold publishOutbox deliverPending
  rw [Prog.bind_assoc]

/-- The part of the publisher. -/
inductive DeliveryPart (settings : Settings) : ∀ β : Type, Tx β → Prop where
  | pass : DeliveryPart settings Nat (deliverPending settings)

/-- The parts of an operation: the publisher has its own, and the others upsert. -/
def Operation.parts (c : SystemConfig) : Operation → ∀ β : Type, Tx β → Prop
  | publishOutbox => DeliveryPart c.settings
  | op => UpsertPart (op.sources c)

section Apart

variable {lib : DatetimeLib} {rt : Runtime} {settings : Settings} {correlationId : String}

theorem ofAnswer_apart {α : Type} (r : Except Exn α) :
    (Prog.ofAnswer r : Tx α).Within Stmt.Apart := by
  cases r <;> trivial

theorem saveRawPayload_apart (source : String) (payload : Json) (correlationId : String) :
    (saveRawPayload rt settings source payload correlationId).Within Stmt.Apart := by
  unfold saveRawPayload
  refine .bind (.issue trivial) (fun existing => ?_)
  cases existing with
  | some existing => trivial
  | none =>
      refine .bind ?_ (fun storageUrl => .issue trivial)
      unfold offloadLarge
      split
      · unfold offloadPayload
        refine .tryCatch (.bind (.issue trivial) (fun now => ?_)) (fun _ => trivial)
        exact .bind (.issue trivial) (fun _ => trivial)
      · trivial

theorem setCursor_apart (source : String) (cursor : Option String) (stream : String) :
    (setCursor source cursor stream).Within Stmt.Apart := by
  unfold setCursor
  refine .bind (.issue trivial) (fun state => ?_)
  cases state with
  | none => exact .bind (.issue trivial) (fun _ => trivial)
  | some state =>
      dsimp only
      split
      · exact .issue trivial
      · trivial

theorem parseItems_apart {α : Type} (parse : ItemParser α) (repoFullName : String)
    (rawPayloadId : Uuid) (events : List NormalizedEventCreate) (items : List α) :
    (parseItems parse repoFullName rawPayloadId events items).Within Stmt.Apart := by
  refine .foldlM _ _ (fun events item _ => .bind (.issue trivial) (fun now => ?_))
  exact .bind (ofAnswer_apart _) (fun _ => trivial)

theorem collectSummarized_apart {α : Type} (type repoFullName : String) (parse : ItemParser α)
    (events : List NormalizedEventCreate) (items : List α) :
    (collectSummarized rt settings type repoFullName correlationId parse events items).Within
      Stmt.Apart := by
  unfold collectSummarized
  split
  · trivial
  · exact .bind (saveRawPayload_apart _ _ _) (fun id => parseItems_apart _ _ _ _ _)

theorem collectItem_apart (connector : Connector) (operation : String)
    (collected : List NormalizedEventCreate × Option Stamp) (raw : Json) :
    (collectItem rt settings connector operation correlationId collected raw).Within
      Stmt.Apart := by
  unfold collectItem
  exact .bind (saveRawPayload_apart _ _ _) (fun id => ofAnswer_apart _)

theorem collectMessage_apart (collected : List NormalizedEventCreate × Option Datetime)
    (raw : RawMessage) :
    (collectMessage lib rt settings correlationId collected raw).Within Stmt.Apart := by
  unfold collectMessage
  refine .bind (ofAnswer_apart _) (fun maxDate => ?_)
  refine .bind (saveRawPayload_apart _ _ _) (fun id => ?_)
  split <;> trivial

theorem syncMessage_apart (events : List NormalizedEventCreate) (raw : RawMessage) :
    (syncMessage lib rt settings correlationId events raw).Within Stmt.Apart := by
  unfold syncMessage
  refine .bind (saveRawPayload_apart _ _ _) (fun id => ?_)
  split <;> trivial

theorem collectUpdate_apart (collected : List NormalizedEventCreate × Option Int)
    (update : TelegramUpdate) :
    (collectUpdate rt settings correlationId collected update).Within Stmt.Apart := by
  unfold collectUpdate
  cases update.message with
  | none => trivial
  | some message =>
      refine .bind (saveRawPayload_apart _ _ _) (fun id => .bind (.issue trivial) (fun now => ?_))
      refine .bind (ofAnswer_apart _) (fun event => ?_)
      cases event <;> trivial

theorem claimDelivery_apart (delivery : Option (String × String)) :
    (claimDelivery delivery).Within Stmt.Apart := by
  unfold claimDelivery
  split
  · trivial
  · refine .bind (.issue trivial) (fun known => ?_)
    cases known with
    | some row => trivial
    | none => exact .bind (.issue trivial) (fun _ => trivial)

theorem settleDelivery_apart (delivery : Option (String × String)) (status : DeliveryStatus)
    (errorText : Option String) :
    (settleDelivery delivery status errorText).Within Stmt.Apart := by
  unfold settleDelivery
  split
  · trivial
  · exact .issue trivial

theorem recordFailure_apart (source operation : String) (payload : Json) (errorText : String)
    (correlationId : Option String) :
    (recordFailure settings source operation payload errorText correlationId).Within
      Stmt.Apart := by
  unfold recordFailure
  refine .bind (.issue trivial) (fun now => .bind (.issue trivial) (fun existing => ?_))
  cases existing with
  | some existing =>
      exact .bind (.issue trivial) (fun _ => .bind (.issue trivial) (fun _ => trivial))
  | none => exact .issue trivial

theorem publishRow_beside (published : Nat) (outbox : OutboxEvent) :
    (publishRow settings published outbox).Within Stmt.Beside := by
  have indexed : ∀ id content source type,
      (indexEvent id content source type).Within Stmt.Beside := by
    intro id content source type
    unfold indexEvent
    refine .bind (.issue trivial) (fun client => ?_)
    split
    · trivial
    · exact .tryCatch (.bind (.issue trivial) (fun _ => trivial)) (fun _ => trivial)
  have delivered : (publishOne outbox).Within Stmt.Beside := by
    refine .bind (indexed _ _ _ _) (fun done => ?_)
    split <;> trivial
  refine .tryCatch (.bind delivered (fun _ => .bind ?_ (fun _ => trivial))) (fun e => ?_)
  · exact .bind (.issue trivial) (fun now => .issue trivial)
  · exact .bind (.issue trivial) (fun _ => trivial)

theorem retryEntry_apart (dispatched : Nat) (failed : FailedEvent) :
    (retryEntry settings dispatched failed).Within Stmt.Apart := by
  have sent : (dispatch failed).Within Stmt.Apart :=
    .tryCatch (.bind (.issue trivial) (fun _ => trivial)) (fun _ => trivial)
  refine .bind sent (fun done => ?_)
  split
  · refine .bind (.bind (.issue trivial) (fun now => .issue trivial)) (fun _ => trivial)
  · trivial

end Apart

section Sources

variable {lib : DatetimeLib} {rt : Runtime} {settings : Settings} {correlationId : String}
variable {sources : Set String} {events : List NormalizedEventCreate} {e : NormalizedEventCreate}
variable {rawPayloadId : Option Uuid}

theorem own_concat (all : ∀ e ∈ events, e.source ∈ sources) (one : e.source ∈ sources) :
    ∀ e' ∈ events ++ [e], e'.source ∈ sources := by
  intro e' he
  rcases List.mem_append.mp he with old | new
  · exact all e' old
  · rwa [List.mem_singleton.mp new]

theorem Parses.source {α : Type} {kind : α → GitHubItem} {parse : ItemParser α}
    (parses : Parses lib kind parse) {now : Time} {item : α} {repoFullName : String}
    (h : parse now item repoFullName rawPayloadId = .ok e) : e.source = "github" := by
  rw [parses] at h
  cases parsed : itemTimestamp lib (kind item).date now with
  | error _ =>
      rw [parsed] at h
      cases h
  | ok timestamp =>
      rw [parsed] at h
      cases h
      rfl

theorem parseMessageToEvent_source {now : Time} {message : TelegramMessage}
    (h : parseMessageToEvent rt now message rawPayloadId = .ok (some e)) :
    e.source = "telegram" := by
  unfold parseMessageToEvent at h
  cases text : message.text with
  | none =>
      rw [text] at h
      cases h
  | some text' =>
      rw [text] at h
      dsimp only at h
      split at h
      · cases h
      · cases time : messageTime rt message.date now with
        | error _ =>
            rw [time] at h
            cases h
        | ok timestamp =>
            rw [time] at h
            cases h
            rfl

theorem IMAPConnector.normalize_source {raw : RawMessage}
    (h : IMAPConnector.normalize lib raw rawPayloadId = some e) : e.source = "imap" := by
  unfold IMAPConnector.normalize at h
  split at h
  · cases h
  · cases h
    rfl

/-- All events of the list are of some sources. -/
def AllFrom (sources : Set String) (events : List NormalizedEventCreate) : Prop :=
  ∀ e ∈ events, e.source ∈ sources

theorem allFrom_nil : AllFrom sources [] :=
  fun _ he => (List.not_mem_nil he).elim

theorem parseItems_returns {α : Type} {kind : α → GitHubItem} {parse : ItemParser α}
    {repoFullName : String} {rawPayloadId : Uuid} (parses : Parses lib kind parse)
    (start : AllFrom {"github"} events) (items : List α) :
    (parseItems parse repoFullName rawPayloadId events items).Returns (AllFrom {"github"}) := by
  refine .foldlM items start (fun all own item => .bind (.any _) (fun now _ => ?_))
  exact .bind (.ofAnswer (fun e parsed => parses.source parsed)) (fun e made => own_concat own made)

theorem collectSummarized_returns {α : Type} {kind : α → GitHubItem} {parse : ItemParser α}
    {type repoFullName : String} (parses : Parses lib kind parse)
    (start : AllFrom {"github"} events) (items : List α) :
    (collectSummarized rt settings type repoFullName correlationId parse events items).Returns
      (AllFrom {"github"}) := by
  unfold collectSummarized
  split
  · exact start
  · exact .bind (.any _) (fun _ _ => parseItems_returns parses start items)

theorem webhookEvents_returns (payload : GitHubWebhookPayload) (rawPayloadId : Uuid) :
    (webhookEvents lib payload rawPayloadId).Returns (AllFrom {"github"}) := by
  refine .bind (parseItems_returns (parses_commit lib) allFrom_nil _) ?_
  exact fun events own => parseItems_returns (parses_pullRequest lib) own _

theorem collectItem_returns {source operation : String} {connector : Connector}
    (known : rt.getConnector source = .ok connector)
    {collected : List NormalizedEventCreate × Option Stamp}
    (start : AllFrom (rt.sourcesOf source) collected.1) (raw : Json) :
    (collectItem rt settings connector operation correlationId collected raw).Returns
      (fun collected => AllFrom (rt.sourcesOf source) collected.1) := by
  refine .bind (.any _) (fun id _ => .ofAnswer (fun next stepped => ?_))
  obtain ⟨result, made, events⟩ := collectEvent_events stepped
  rw [events]
  cases result with
  | none =>
      rw [Option.toList_none, List.append_nil]
      exact start
  | some e => exact own_concat start ⟨connector, raw, some id, e, known, made, rfl⟩

theorem collectMessage_returns {collected : List NormalizedEventCreate × Option Datetime}
    (start : AllFrom {"imap"} collected.1) (raw : RawMessage) :
    (collectMessage lib rt settings correlationId collected raw).Returns
      (fun collected => AllFrom {"imap"} collected.1) := by
  refine .bind (.any _) (fun maxDate _ => .bind (.any _) (fun id _ => ?_))
  split
  · exact start
  · next e made => exact own_concat start (IMAPConnector.normalize_source made)

theorem syncMessage_returns (start : AllFrom {"imap"} events) (raw : RawMessage) :
    (syncMessage lib rt settings correlationId events raw).Returns (AllFrom {"imap"}) := by
  refine .bind (.any _) (fun id _ => ?_)
  split
  · exact start
  · next e made => exact own_concat start (IMAPConnector.normalize_source made)

theorem collectUpdate_returns {collected : List NormalizedEventCreate × Option Int}
    (start : AllFrom {"telegram"} collected.1) (update : TelegramUpdate) :
    (collectUpdate rt settings correlationId collected update).Returns
      (fun collected => AllFrom {"telegram"} collected.1) := by
  unfold collectUpdate
  cases update.message with
  | none => exact start
  | some message =>
      refine .bind (.any _) (fun id _ => .bind (.any _) (fun now _ => ?_))
      refine .bind (.ofAnswer (fun event made => made)) (fun event made => ?_)
      cases event with
      | none => exact start
      | some e => exact own_concat start (parseMessageToEvent_source made)

end Sources

section Composition

variable {lib : DatetimeLib} {rt : Runtime} {settings : Settings} {correlationId : String}
variable {sources : Set String} {α β : Type}

theorem storeCollected_upserting {events : List NormalizedEventCreate}
    (own : ∀ e ∈ events, e.source ∈ sources) :
    Upserting sources (storeCollected events correlationId) := by
  unfold storeCollected
  split
  · exact .ret _
  · exact upsertEventsBulk_upserting _ own

theorem createSyncLog_orderly (ownsSession : Bool) (source : String) :
    Orderly sources (createSyncLog ownsSession correlationId source) := by
  refine .bind (.issue trivial) (fun id => ?_)
  split
  · exact .bind .commitWork (fun _ => .ret id)
  · exact .ret id

theorem updateSyncLogStatus_orderly (ownsSession : Bool) (logId : Uuid) (status : RunStatus)
    (errorText : Option String) :
    Orderly sources (updateSyncLogStatus ownsSession logId status errorText) := by
  refine .bind (.issue trivial) (fun _ => ?_)
  split
  · exact .commitWork
  · exact .issue trivial

theorem recordFailureStandalone_orderly (source operation : String) (payload : Json)
    (errorText : String) (given : Option String) :
    Orderly sources (recordFailureStandalone settings source operation payload errorText given) :=
  .bind (.of_within (recordFailure_apart _ _ _ _ _)) (fun _ => .commitWork)

theorem failRun_recovering (run : String × Uuid) (e : Exn) :
    Recovering sources (failRun run e : Tx β) :=
  .bind .rollbackWork (fun _ => .bind (updateSyncLogStatus_orderly _ _ _ _) (fun _ => .throws e))

theorem failWebhook_recovering (delivery : Option (String × String)) (logId : Uuid) (e : Exn) :
    Recovering sources (failWebhook delivery logId e : Tx β) := by
  refine .bind .rollbackWork (fun _ => .bind (updateSyncLogStatus_orderly _ _ _ _) (fun _ => ?_))
  exact .bind (.of_within (settleDelivery_apart _ _ _)) (fun _ => .throws e)

theorem openRun_orderly (operation : String) : Orderly sources (openRun operation) :=
  .bind (.issue trivial) (fun cid =>
    .bind (createSyncLog_orderly _ _) (fun logId => .ret (cid, logId)))

/-- How a run is completed after its body. -/
theorem complete_upserting {ownsSession : Bool} {logId : Uuid} {rest : Tx β}
    (h : Upserting sources rest) : Upserting sources (do
    Prog.commitWork
    updateSyncLogStatus ownsSession logId .completed none
    rest) :=
  .bind .commitWork (fun _ => .bind (updateSyncLogStatus_orderly _ _ _ _).weaken (fun _ => h))

theorem LoggedRun.orderly {R : LoggedRun α β} (body : ∀ cid, Upserting sources (R.body cid))
    (handler : ∀ run e, Recovering sources (R.handler run e)) : Orderly sources R.prog := by
  refine .bind (openRun_orderly _) (fun run =>
    .tryCatch (.bind (body run.1) (fun a => ?_)) (handler run))
  exact complete_upserting (.ret _)

theorem LoggedRequest.orderly {R : LoggedRequest α β}
    (body : ∀ cid, Upserting sources (R.body cid)) : Orderly sources R.prog := by
  refine .bind (.issue trivial) (fun cid => .bind (createSyncLog_orderly _ _) (fun logId => ?_))
  refine .bind (.ofAnswer _) (fun _ => .tryCatch (.bind (body cid) (fun a => ?_))
    (failWebhook_recovering _ logId))
  exact complete_upserting (.bind (.of_within (settleDelivery_apart _ _ _)) (fun _ => .ret _))

theorem LoggedRequest.received_orderly {R : LoggedRequest α WebhookResponse}
    (body : ∀ cid, Upserting sources (R.body cid)) : Orderly sources R.received := by
  refine .bind (.of_within (claimDelivery_apart _)) (fun known => ?_)
  split
  · exact .ret _
  · exact LoggedRequest.orderly body

theorem ingest_upserting (source operation : String) :
    Upserting (rt.sourcesOf source) (ingest rt settings source operation correlationId) := by
  refine .bind_within (ofAnswer_apart _) (.ofAnswer (fun _ known => known))
    (fun connector known => .bind (.bind (.issue trivial) (fun _ => .ret _)) (fun cursor => ?_))
  refine .bind ?_ (fun since => .bind (.issue trivial) (fun rawItems => ?_))
  · unfold parseSince
    split
    · split
      · exact .ret _
      · exact .bind (.ofAnswer _) (fun _ => .ret _)
    · exact .ret _
  · refine .bind_within (.foldlM _ _ (fun collected raw _ => collectItem_apart _ _ collected raw))
      (.foldlM _ allFrom_nil (fun _ own raw => collectItem_returns known own raw))
      (fun collected own => .bind (storeCollected_upserting own) (fun results => ?_))
    refine .bind ?_ (fun _ => .ret _)
    unfold saveWatermark
    split
    · exact .of_within (setCursor_apart _ _ _)
    · exact .ret _

theorem abandonRun_recovering (source operation : String) (run : String × Uuid) (e : Exn) :
    Recovering sources (abandonRun settings source operation run e) := by
  refine .bind .rollbackWork (fun _ => .bind (updateSyncLogStatus_orderly _ _ _ _) (fun _ => ?_))
  exact .bind (recordFailureStandalone_orderly _ _ _ _ _) (fun _ => .throws e)

theorem runConnectorSync_orderly (source : String) (operation : Option String) :
    Orderly (rt.sourcesOf source) (runConnectorSync rt settings source operation) := by
  rw [runConnectorSync_eq]
  exact LoggedRun.orderly (fun cid => ingest_upserting source _)
    (abandonRun_recovering source _)

theorem ingestMail_upserting (folder : String) :
    Upserting {"imap"} (ingestMail lib rt settings folder correlationId) := by
  refine .bind (.bind (.issue trivial) (fun _ => .ret _)) (fun cursor => ?_)
  refine .bind ?_ (fun since => .bind (.issue trivial) (fun raws => ?_))
  · rw [parseSinceDate_eq]
    exact .ofAnswer _
  · refine .bind_within (.foldlM _ _ (fun collected raw _ => collectMessage_apart collected raw))
      (.foldlM _ allFrom_nil (fun _ own raw => collectMessage_returns own raw))
      (fun collected own => .bind ?_ (fun _ => storeCollected_upserting own))
    unfold saveMaxDate
    split
    · exact .of_within (setCursor_apart _ _ _)
    · exact .ret _

theorem syncImapMessages_orderly (imapSettings : ImapSettings) :
    Orderly {"imap"} (syncImapMessages lib rt settings imapSettings) := by
  by_cases skipped : imapSettings.IMAP_HOST = ""
  · unfold syncImapMessages
    rw [if_pos skipped]
    exact .ret _
  · rw [syncImapMessages_eq skipped]
    refine .bind (openRun_orderly _) (fun run => .bind (.ofAnswer _) (fun _ => ?_))
    refine .tryCatch (.bind (ingestMail_upserting _) (fun events => ?_)) (failRun_recovering run)
    exact complete_upserting (.ret _)

/-- How the two pollers end a run that has collected nothing, or after its upsert. -/
theorem completed_upserting (logId : Uuid) : Upserting sources (do
    Prog.commitWork
    updateSyncLogStatus true logId .completed none) :=
  .bind .commitWork (fun _ => (updateSyncLogStatus_orderly _ _ _ _).weaken)

theorem pollGithub_orderly {α : Type} {env : GitHubEnv} {operation eventType type : String}
    {get : String → String → Option String → Tx (List α)} {kind : α → GitHubItem}
    {parse : ItemParser α} (parses : Parses lib kind parse)
    (getting : ∀ owner repo since, (get owner repo since).Within Stmt.Apart) :
    Orderly {"github"} (pollGithub rt settings env operation eventType type get parse) := by
  unfold pollGithub
  split
  · exact .ret _
  · refine .bind (.issue trivial) (fun cid => .bind (createSyncLog_orderly _ _) (fun logId => ?_))
    refine .tryCatch (.bind (.issue trivial) (fun watermark => ?_))
      (failRun_recovering (cid, logId))
    refine .bind (.of_within (getting _ _ _)) (fun items => ?_)
    split
    · exact completed_upserting logId
    · refine .bind (.of_within (saveRawPayload_apart _ _ _)) (fun id => ?_)
      refine .bind_within (parseItems_apart _ _ _ _ _)
        (parseItems_returns parses allFrom_nil items) (fun events own => ?_)
      exact .bind (upsertEventsBulk_upserting _ own) (fun _ => completed_upserting logId)

theorem pollTelegram_orderly {get : Option Int → Tx (List TelegramUpdate)}
    (getting : ∀ offset, (get offset).Within Stmt.Apart) :
    Orderly {"telegram"} (pollTelegram rt settings get) := by
  have read : Upserting {"telegram"} (getCursor "telegram") :=
    .bind (.issue trivial) (fun _ => .ret _)
  refine .bind (.issue trivial) (fun cid => .bind (createSyncLog_orderly _ _) (fun logId => ?_))
  refine .tryCatch (.bind read (fun cursor => .bind ?_ (fun offset => ?_)))
    (failRun_recovering (cid, logId))
  · unfold parseOffset
    split
    · exact .ret _
    · split
      · exact .ret _
      · split
        · exact .ret _
        · exact .throws _
  · refine .bind (.of_within (getting offset)) (fun updates => ?_)
    refine .bind_within (.foldlM _ _ (fun collected x _ => collectUpdate_apart collected x))
      (.foldlM _ allFrom_nil (fun _ own x => collectUpdate_returns own x))
      (fun collected own => .bind ?_ (fun _ => ?_))
    · unfold acknowledge
      split
      · exact .of_within (setCursor_apart _ _ _)
      · exact .ret _
    · split
      · exact completed_upserting logId
      · exact .bind (upsertEventsBulk_upserting _ own) (fun _ => completed_upserting logId)

theorem githubWebhookRequest_upserting (body : String) (delivery : Option (String × String)) :
    Upserting {"github"}
      ((githubWebhookRequest lib rt settings body delivery).body correlationId) := by
  refine .bind (.ofAnswer _) (fun payload => ?_)
  refine .bind (.of_within (saveRawPayload_apart _ _ _)) (fun id => ?_)
  have apart : (webhookEvents lib payload id).Within Stmt.Apart :=
    .bind (parseItems_apart _ _ _ _ _) (fun _ => parseItems_apart _ _ _ _ _)
  refine .bind_within apart (webhookEvents_returns payload id) (fun events own => ?_)
  exact .bind (upsertEventsBulk_upserting _ own) (fun _ => .ret _)

/-- A message is stored, unless it has no text. -/
theorem storeMessage_upserting {now : Time} {message : TelegramMessage} {rawPayloadId : Option Uuid}
    {none : Tx α} {some : NormalizedEvent → Tx α} (skipped : Upserting {"telegram"} none)
    (stored : ∀ row, Upserting {"telegram"} (some row)) :
    Upserting {"telegram"} (do
      match ← Prog.ofAnswer (parseMessageToEvent rt now message rawPayloadId) with
      | .none => none
      | .some e =>
          let row ← NormalizedEventService.upsertEvent e Option.none
          some row) := by
  refine .bind_within (ofAnswer_apart _) (.ofAnswer (fun _ made => made)) (fun result made => ?_)
  cases result with
  | none => exact skipped
  | some e => exact .bind (upsertEvent_upserting _ (parseMessageToEvent_source made)) stored

theorem telegramWebhookRequest_upserting (body : Json) (delivery : Option (String × String)) :
    Upserting {"telegram"}
      ((telegramWebhookRequest rt settings body delivery).body correlationId) := by
  refine .bind (.ofAnswer _) (fun update => ?_)
  cases update.message with
  | none => exact .ret _
  | some message =>
      refine .bind (.of_within (saveRawPayload_apart _ _ _)) (fun id => ?_)
      exact .bind (.issue trivial) (fun now =>
        storeMessage_upserting (.ret _) (fun _ => .ret _))

theorem Webhook.run_orderly (c : WebhookConfig) (w : Webhook) : Orderly {w.source} (w.run c) := by
  cases w with
  | github body signature deliveryHeader =>
      simp only [run, githubWebhook_eq]
      refine .bind (.ofAnswer _) (fun verified => ?_)
      split
      · exact .throws _
      · exact LoggedRequest.received_orderly (fun cid => githubWebhookRequest_upserting body _)
  | telegram token json =>
      simp only [run, telegramWebhook_eq]
      refine .bind (.ofAnswer _) (fun _ => .bind (.ofAnswer _) (fun body => ?_))
      refine .bind (.ofAnswer _) (fun updateId => ?_)
      exact LoggedRequest.received_orderly (fun cid => telegramWebhookRequest_upserting body _)

theorem syncUpdate_upserting (eventsCreated : Nat) (update : TelegramUpdate) :
    Upserting {"telegram"} (syncUpdate rt settings correlationId eventsCreated update) := by
  unfold syncUpdate
  cases update.message with
  | none => exact .ret _
  | some message =>
      refine .bind (.of_within (saveRawPayload_apart _ _ _)) (fun id => ?_)
      exact .bind (.issue trivial) (fun now =>
        storeMessage_upserting (.ret _) (fun _ => .ret _))

theorem githubSyncRequest_upserting (owner repo : String) :
    Upserting {"github"} ((githubSyncRequest lib rt settings owner repo).body correlationId) := by
  have fetched : Upserting {"github"} (GitHubClient.getPullRequests owner repo none) :=
    .bind (.issue trivial) (fun _ => .ret _)
  refine .bind (.issue trivial) (fun commits => .bind fetched (fun prs => ?_))
  refine .bind_within (collectSummarized_apart _ _ _ _ _)
    (collectSummarized_returns (parses_commit lib) allFrom_nil _) (fun first own => ?_)
  refine .bind_within (collectSummarized_apart _ _ _ _ _)
    (collectSummarized_returns (parses_pullRequest lib) own _) (fun all own => ?_)
  exact .bind (upsertEventsBulk_upserting _ own) (fun _ => .ret _)

theorem telegramSyncRequest_upserting :
    Upserting {"telegram"} ((telegramSyncRequest rt settings).body correlationId) := by
  have requested : Upserting {"telegram"} (TelegramClient.getUpdates rt none) :=
    .bind (.issue trivial) (fun _ => .ret _)
  refine .bind requested (fun updates => .bind (.foldlM _ _ ?_) (fun _ => .ret _))
  exact fun created update => syncUpdate_upserting created update

theorem imapSyncRequest_upserting (imapSettings : ImapSettings) :
    Upserting {"imap"} ((imapSyncRequest lib rt settings imapSettings).body correlationId) := by
  refine .bind (.issue trivial) (fun items => ?_)
  refine .bind_within (.foldlM _ _ (fun events raw _ => syncMessage_apart events raw))
    (.foldlM _ allFrom_nil (fun _ own raw => syncMessage_returns own raw))
    (fun events own => ?_)
  exact .bind (storeCollected_upserting own) (fun _ => .ret _)

theorem Request.run_orderly (c : RequestConfig) (request : Request) :
    Orderly {request.source} (request.run c) := by
  cases request with
  | webhook w => exact .bind (w.run_orderly c.toWebhookConfig) (fun _ => .ret _)
  | githubSync owner repo =>
      refine .bind ?_ (fun _ => .ret _)
      rw [githubSync_eq]
      exact LoggedRequest.orderly (fun cid => githubSyncRequest_upserting owner repo)
  | telegramSync =>
      refine .bind ?_ (fun _ => .ret _)
      rw [telegramSync_eq]
      exact LoggedRequest.orderly (fun cid => telegramSyncRequest_upserting)
  | imapSync =>
      refine .bind ?_ (fun _ => .ret _)
      rw [imapSync_eq]
      split
      · exact .throws _
      · exact LoggedRequest.orderly (fun cid => imapSyncRequest_upserting c.imapSettings)

theorem PollTask.body_orderly (c : PollConfig) (http : Nat → Except Exn HttpResponse)
    (task : PollTask) : Orderly {task.source} (task.body c http) := by
  cases task with
  | syncGithubCommits =>
      exact pollGithub_orderly (parses_commit c.lib) (fun _ _ _ => ofAnswer_apart _)
  | syncGithubPullRequests =>
      exact pollGithub_orderly (parses_pullRequest c.lib) (fun _ _ _ => ofAnswer_apart _)
  | syncTelegramMessages => exact pollTelegram_orderly (fun _ => ofAnswer_apart _)

theorem toDlqIfDone_orderly (retries : Nat) (operation source : String) (e : Exn) :
    Orderly sources (toDlqIfDone settings retries operation source e) := by
  unfold toDlqIfDone
  dsimp only
  split
  · exact recordFailureStandalone_orderly _ _ _ _ _
  · exact .ret _

theorem PollTask.run_orderly (c : PollConfig) (http : Nat → Except Exn HttpResponse)
    (retries : Nat) (task : PollTask) : Orderly {task.source} (task.run c http retries) :=
  .tryCatch (task.body_orderly c http) (fun e =>
    .bind (toDlqIfDone_orderly retries _ _ e) (fun _ => .throws e))

theorem syncImapMessagesTask_orderly (imapSettings : ImapSettings) :
    Orderly {"imap"} (syncImapMessagesTask lib rt settings imapSettings) :=
  .tryCatch (syncImapMessages_orderly imapSettings) (fun e =>
    .bind (recordFailureStandalone_orderly _ _ _ _ _) (fun _ => .throws e))

theorem BackgroundTask.run_orderly (c : PollConfig) (task : BackgroundTask) :
    Orderly (task.sources c) (task.run c) := by
  cases task with
  | poll task http retries => exact task.run_orderly c http retries
  | syncImapMessages imapSettings => exact syncImapMessagesTask_orderly imapSettings
  | runConnectorSync source operation =>
      exact .bind (runConnectorSync_orderly source operation) (fun _ => .ret _)

theorem publishOutbox_composed :
    (publishOutbox settings).Composed (DeliveryPart settings) Stmt.Apart .spoiled .sound := by
  rw [publishOutbox_eq]
  exact .bind (.of_part .pass) (fun _ => .bind .commitWork (fun _ => .ret _))

theorem retryFailedEvents_orderly : Orderly sources (retryFailedEvents settings) := by
  unfold retryFailedEvents
  split
  · exact .ret _
  · refine .bind (.bind (.bind (.issue trivial) (fun now => .issue trivial)) (fun due => ?_))
      (fun dispatched => .bind .commitWork (fun _ => .ret _))
    exact .foldlM _ _ (fun dispatched failed => .of_within (retryEntry_apart dispatched failed))

theorem replayFailedEvent_orderly (failedEventId : Uuid) :
    Orderly sources (replayFailedEvent failedEventId) := by
  refine .bind (.issue trivial) (fun failed => ?_)
  cases failed with
  | none => exact .throws _
  | some failed =>
      refine .bind (.issue trivial) (fun taskId => .bind (.issue trivial) (fun _ => ?_))
      refine .bind (.bind (.issue trivial) (fun now => .issue trivial)) (fun _ => ?_)
      exact .bind .commitWork (fun _ => .ret _)

end Composition

/-- Every operation runs its parts, commits only what is complete, and otherwise leaves the events
and the vector index alone. -/
theorem Operation.composed (c : SystemConfig) (op : Operation) :
    (op.run c).Composed (op.parts c) Stmt.Apart .spoiled .sound := by
  cases op with
  | background task => exact (task.run_orderly c.toPollConfig).weaken
  | request r => exact (r.run_orderly c.requests).weaken
  | publishOutbox => exact .bind publishOutbox_composed (fun _ => .ret _)
  | retryFailedEvents => exact .bind retryFailedEvents_orderly.weaken (fun _ => .ret _)
  | replayFailedEvent id => exact .bind (replayFailedEvent_orderly id).weaken (fun _ => .ret _)
  | listEvents filters limit =>
      exact .bind (.bind (.issue trivial) (fun _ => .ret _)) (fun _ => .ret _)
  | pollChanges cursor limit =>
      exact .bind (.bind (.issue trivial) (fun _ => .ret _)) (fun _ => .ret _)

/-- Every operation upserts batches of events of its sources, commits only what is complete, and
leaves the events alone otherwise. -/
theorem Operation.orderly (c : SystemConfig) (op : Operation) :
    (op.run c).Composed (UpsertPart (op.sources c)) Stmt.Beside .spoiled .sound := by
  refine (op.composed c).widen (fun _ => Stmt.Apart.beside) (fun β q here => ?_)
  cases op with
  | publishOutbox =>
      cases here
      exact .inr (.bind (.issue trivial) (fun pending =>
        .foldlM _ _ (fun published outbox _ => publishRow_beside published outbox)))
  | _ => exact .inl here

end OmniSync
