import OmniSync.Imap.Router
import OmniSync.Integrations.Watermark
import OmniSync.Telegram.Delivery
import OmniSync.Webhooks.Requests

/-!
# How requests are recorded to have ended

A request commits the entry of the log and the delivery that it has opened together with its
work. It writes how it has ended after that commit, or after a rollback, and what it writes then
is never committed. So whatever requests have run, the entries of the log that they have left are
started and the deliveries that they have left are in process.
-/

namespace OmniSync

open Txn

/-- What the handlers run with. -/
structure RequestConfig extends WebhookConfig where
  imapSettings : ImapSettings

/-- A request to one of the handlers that ingest. -/
inductive Request where
  | webhook (w : Webhook)
  | githubSync (owner repo : String)
  | telegramSync
  | imapSync

namespace Request

/-- The handler of a request, without its answer. -/
def run (c : RequestConfig) : Request → Tx Unit
  | webhook w => do
      let _ ← w.run c.toWebhookConfig
  | githubSync owner repo => do
      let _ ← OmniSync.githubSync c.lib c.rt c.settings owner repo
  | telegramSync => do
      let _ ← OmniSync.telegramSync c.rt c.settings
  | imapSync => do
      let _ ← OmniSync.imapSync c.lib c.rt c.settings c.imapSettings

/-- The source of the entry that a request opens in the log. -/
def operation : Request → String
  | webhook w => w.operation
  | githubSync _ _ => "github_poll"
  | telegramSync => "telegram_poll"
  | imapSync => "imap_poll"

/-- The delivery that a request records. -/
def delivery (c : RequestConfig) : Request → Option (String × String)
  | webhook w => w.delivery c.toWebhookConfig
  | _ => none

end Request

/-- How the work of a request has ended, in the log. -/
def runStatus (result : Except Exn Unit) : RunStatus :=
  match result with
  | .ok _ => .completed
  | .error _ => .failed

/-- How the work of a request has ended, for its delivery. -/
def deliveryStatus (result : Except Exn Unit) : DeliveryStatus :=
  match result with
  | .ok _ => .completed
  | .error _ => .failed

/-- An entry of the log that was added since `s` says how the request has ended. -/
def Request.Logged (request : Request) (result : Except Exn Unit) (s t : Store) : Prop :=
  ∃ row ∈ t.syncLogs, s.syncLogs.find row.id = none ∧ row.source = request.operation ∧
    row.status = runStatus result

/-- The delivery was added since `s`, and it says how its request has ended. -/
def DeliverySettled (key : String × String) (result : Except Exn Unit) (s t : Store) : Prop :=
  ∃ row ∈ t.webhookDeliveries, s.webhookDeliveries.find row.key = none ∧ row.key = key ∧
    row.status = deliveryStatus result

/-- What was added since `s` is recorded as not having ended. -/
structure Open (s t : Store) : Prop where
  logs : ∀ row ∈ t.syncLogs, s.syncLogs.find row.id = none → row.status = .started
  deliveries : ∀ row ∈ t.webhookDeliveries, s.webhookDeliveries.find row.key = none →
    row.status = .processing

theorem Open.not_logged {s t : Store} (h : Open s t) (request : Request)
    (result : Except Exn Unit) : ¬ request.Logged result s t := by
  rintro ⟨row, here, new, _, status⟩
  rw [h.logs row here new] at status
  cases result <;> cases status

theorem Open.not_settled {s t : Store} (h : Open s t) (key : String × String)
    (result : Except Exn Unit) : ¬ DeliverySettled key result s t := by
  rintro ⟨row, here, new, _, status⟩
  rw [h.deliveries row here new] at status
  cases result <;> cases status

theorem Open.refl (s : Store) : Open s s where
  logs row here new := (Table.find_eq_none_iff.mp new row here rfl).elim
  deliveries row here new := (Table.find_eq_none_iff.mp new row here rfl).elim

/-- The write does not say of anything that it has ended. -/
def Write.Opens : Write → Prop
  | addSyncLog row => row.status = .started
  | setSyncLog _ _ _ => False
  | addDelivery row => row.status = .processing
  | setDelivery _ _ _ => False
  | _ => True

theorem Write.Ingested.opens {w : Write} (h : w.Ingested) : w.Opens := by
  cases w with
  | addSyncLog | setSyncLog => exact (h.syncLogs rfl).elim
  | addDelivery | setDelivery => exact (h.webhookDeliveries rfl).elim
  | _ => trivial

theorem Open.put {s t : Store} {w : Write} (h : Open s t) (opens : w.Opens) : Open s (t.put w) := by
  cases w with
  | addSyncLog row =>
      refine ⟨fun x hx new => ?_, h.deliveries⟩
      rcases Table.mem_of_mem_add hx with old | rfl
      · exact h.logs x old new
      · exact opens
  | addDelivery row =>
      refine ⟨h.logs, fun x hx new => ?_⟩
      rcases Table.mem_of_mem_add hx with old | rfl
      · exact h.deliveries x old new
      · exact opens
  | setSyncLog | setDelivery => exact opens.elim
  | _ => exact ⟨h.logs, h.deliveries⟩

theorem Open.view {s t : Store} {ws : List Write} (h : Open s t) (opens : ∀ w ∈ ws, w.Opens) :
    Open s (postgres.view t ws) := by
  induction ws generalizing t with
  | nil => exact h
  | cons w ws ih =>
      exact ih (h.put (opens w List.mem_cons_self)) (fun v hv => opens v (List.mem_cons_of_mem w hv))

/-- The protocol of requests. -/
def requesting {ι : Type} (s : Store) : Protocol postgres ι :=
  Protocol.interleaved postgres (fun σ => Open s σ.store) World.Later
    (fun _ ws => ∀ w ∈ ws, w.Opens) (fun _ _ _ => True) World.Later.refl World.Later.trans

section Ingests

variable {lib : DatetimeLib} {rt : Runtime} {settings : Settings} {correlationId : String}

theorem storeCollected_ingests (events : List NormalizedEventCreate) :
    (storeCollected events correlationId).Within Stmt.Ingesting := by
  unfold storeCollected
  split
  · trivial
  · apply upsertEventsBulk_ingests

theorem collectSummarized_ingests {α : Type} (type repoFullName : String) (parse : ItemParser α)
    (events : List NormalizedEventCreate) (items : List α) :
    (collectSummarized rt settings type repoFullName correlationId parse events items).Within
      Stmt.Ingesting := by
  unfold collectSummarized
  split
  · trivial
  · exact .bind (saveRawPayload_ingests _ _ _) (fun id => parseItems_ingests _ _ _ _)

theorem syncUpdate_ingests (eventsCreated : Nat) (update : TelegramUpdate) :
    (syncUpdate rt settings correlationId eventsCreated update).Within Stmt.Ingesting := by
  unfold syncUpdate
  cases update.message with
  | none => trivial
  | some message =>
      refine .bind (saveRawPayload_ingests _ _ _) (fun id => .bind utcNow_ingests (fun now => ?_))
      refine .bind (ofAnswer_ingests _) (fun result => ?_)
      cases result with
      | none => trivial
      | some event => exact .bind (upsertEvent_ingests _ _) (fun _ => trivial)

theorem syncMessage_ingests (events : List NormalizedEventCreate) (raw : RawMessage) :
    (syncMessage lib rt settings correlationId events raw).Within Stmt.Ingesting := by
  unfold syncMessage
  refine .bind (saveRawPayload_ingests _ _ _) (fun id => ?_)
  split <;> trivial

theorem githubSyncRequest_ingests (owner repo : String) :
    ((githubSyncRequest lib rt settings owner repo).body correlationId).Within
      Stmt.Ingesting := by
  have fetched : (GitHubClient.getPullRequests owner repo none).Within Stmt.Ingesting :=
    .bind (.issue trivial) (fun _ => trivial)
  refine .bind (.issue trivial) (fun commits => .bind fetched (fun prs => ?_))
  refine .bind (collectSummarized_ingests _ _ _ _ _) (fun events => ?_)
  refine .bind (collectSummarized_ingests _ _ _ _ _) (fun events => ?_)
  exact .bind (upsertEventsBulk_ingests _ _) (fun _ => trivial)

theorem telegramSyncRequest_ingests :
    ((telegramSyncRequest rt settings).body correlationId).Within Stmt.Ingesting := by
  have requested : (TelegramClient.getUpdates rt none).Within Stmt.Ingesting :=
    .bind (.issue trivial) (fun _ => trivial)
  refine .bind requested (fun updates => .bind (.foldlM _ _ ?_) (fun _ => trivial))
  exact fun created update _ => syncUpdate_ingests created update

theorem imapSyncRequest_ingests (imapSettings : ImapSettings) :
    ((imapSyncRequest lib rt settings imapSettings).body correlationId).Within
      Stmt.Ingesting := by
  refine .bind (.issue trivial) (fun items => ?_)
  refine .bind (.foldlM _ _ (fun events raw _ => syncMessage_ingests events raw)) (fun events => ?_)
  exact .bind (storeCollected_ingests _) (fun _ => trivial)

end Ingests

section Handlers

variable {ι α β : Type} {i : ι} {s : Store} {σ : State ι} {ws : List Write}
variable {lib : DatetimeLib} {rt : Runtime} {settings : Settings}

theorem hosts_requesting : Hosts (@requesting ι s) := hosts_interleaved (fun _ _ inv _ => inv)

/-- The work of a request opens what it logs, up to the commit. -/
theorem LoggedRequest.wp_opens {R : LoggedRequest α β} (ingesting : ∀ cid, (R.body cid).Within Stmt.Ingesting)
    (opens : ∀ w ∈ ws, w.Opens) {cid : String} {id : Uuid} {t : Time} :
    wp (requesting s) i (R.body cid) (fun r υ vs => ∀ a, r = .ok a →
      ∀ φ, (requesting s).rely vs υ φ → (requesting s).inv φ →
        (requesting s).Guarantees i vs φ (postgres.publish φ i vs) ∧ True) σ
      (ws ++ [.addSyncLog ⟨id, cid, R.operation, .started, none, t⟩]) := by
  refine wp_ingests (R := fun _ vs => ∀ w ∈ vs, w.Opens) (ingesting cid) (fun kept _ _ => kept)
    ?_ ?_ ?_
  · intro υ vs new world kept inv moves ingested
    refine ⟨Protocol.interleaved_guarantees_world inv moves.clock, fun w hw => ?_⟩
    exact (List.mem_append.mp hw).elim (kept w) (fun added => (ingested w added).opens)
  · intro w hw
    rcases List.mem_append.mp hw with old | new
    · exact opens w old
    · rw [List.mem_singleton.mp new]
      exact rfl
  · intro _ υ vs kept _ _ φ _ inv
    exact ⟨Protocol.interleaved_guarantees_publish (inv.view kept) kept, trivial⟩

/-- A logged request whose work ingests. -/
theorem LoggedRequest.wp_requesting {R : LoggedRequest α β}
    (ingesting : ∀ cid, (R.body cid).Within Stmt.Ingesting) :
    wp (requesting s) i R.prog (fun _ _ _ => True) σ [] :=
  wp_prog (Q := fun _ _ => True) hosts_requesting (fun _ _ => trivial) (fun _ _ _ => trivial)
    (fun _ _ _ _ _ _ _ => wp_opens ingesting (fun _ hw => (List.not_mem_nil hw).elim))

/-- A webhook request whose work ingests. -/
theorem LoggedRequest.wp_requesting_received {R : LoggedRequest α WebhookResponse}
    (ingesting : ∀ cid, (R.body cid).Within Stmt.Ingesting) :
    wp (requesting s) i R.received (fun _ _ _ => True) σ [] := by
  refine wp_received (Q := fun _ _ => True) hosts_requesting (fun _ _ => trivial)
    (fun _ _ _ => trivial) (fun _ _ _ _ _ => trivial) ?_
  intro υ ws _ claimed cid id t τ _ _ _
  refine LoggedRequest.wp_opens ingesting (fun w hw => ?_)
  unfold Claimed at claimed
  split at claimed
  · rw [claimed] at hw
    exact (List.not_mem_nil hw).elim
  · obtain ⟨_, row, rfl, _, status⟩ := claimed
    rw [List.mem_singleton.mp hw]
    exact status

/-- Each request is a logged one, behind the checks of its handler. -/
theorem Request.wp_run (c : RequestConfig) (request : Request) :
    wp (requesting s) i (request.run c) (fun _ _ _ => True) σ [] := by
  have answered : ∀ {γ : Type} {p : Tx γ}, wp (requesting s) i p (fun _ _ _ => True) σ [] →
      wp (requesting s) i (p >>= fun _ => pure ()) (fun _ _ _ => True) σ [] := by
    intro γ p verified
    rw [wp_bind]
    refine wp_mono verified (fun r _ _ _ => ?_)
    cases r <;> trivial
  cases request with
  | webhook w =>
      refine answered ?_
      rcases w.run_cases c.toWebhookConfig with ⟨e, refused⟩ | ⟨R, logged, _, _, _, ingesting⟩
      · rw [refused]
        trivial
      · rw [logged]
        exact LoggedRequest.wp_requesting_received ingesting
  | githubSync owner repo =>
      refine answered ?_
      rw [githubSync_eq]
      exact LoggedRequest.wp_requesting (fun cid => githubSyncRequest_ingests owner repo)
  | telegramSync =>
      refine answered ?_
      rw [telegramSync_eq]
      exact LoggedRequest.wp_requesting (fun cid => telegramSyncRequest_ingests)
  | imapSync =>
      refine answered ?_
      rw [imapSync_eq]
      split
      · trivial
      · exact LoggedRequest.wp_requesting (fun cid => imapSyncRequest_ingests c.imapSettings)

end Handlers

section Runs

variable {ι : Type} [Fintype ι] [DecidableEq ι]

/-- Whatever requests have run, all that they have left is open. -/
theorem requests_open (c : RequestConfig) (requests : ι → Request) (start : State ι)
    {st : Cluster Answer Exn Store Write World ι Unit}
    (run : Cluster.Reachable postgres (Cluster.start start (fun i => (requests i).run c)) st) :
    Open start.store st.shared.store := by
  have safe := Cluster.Safe.start (requesting start.store) (Q := fun _ _ _ _ => True)
    (Open.refl start.store) (fun i => (requests i).wp_run c)
  exact (safe.run Protocol.interleaved_coherent (fun _ => .trivial) run).inv

/-- Whatever requests have run, nothing that they have left says of a request how it has ended,
neither in the log nor for its delivery. -/
theorem requests_not_recorded (c : RequestConfig) (requests : ι → Request) (start : State ι)
    {st : Cluster Answer Exn Store Write World ι Unit}
    (run : Cluster.Reachable postgres (Cluster.start start (fun i => (requests i).run c)) st)
    (i : ι) (result : Except Exn Unit) :
    ¬ (requests i).Logged result start.store st.shared.store ∧
      ∀ key, (requests i).delivery c = some key →
        ¬ DeliverySettled key result start.store st.shared.store :=
  have kept := requests_open c requests start run
  ⟨kept.not_logged (requests i) result, fun key _ => kept.not_settled key result⟩

end Runs

section Example

/-- A webhook request for an update without a message. -/
def bareUpdate : Request := .webhook (.telegram none (.ok (.obj [("update_id", .int 9)])))

def bareConfig : RequestConfig where
  lib := calendar []
  rt := updateRuntime
  settings := {}
  webhooks := { hmacSha256 := fun secret body => secret ++ body }
  imapSettings := {}

def bareStart : Cluster Answer Exn Store Write World Unit Unit :=
  Cluster.start (unpolled []) (fun _ => bareUpdate.run bareConfig)

/-- Nothing fails, and the session is closed at the end. -/
def bareSchedule : List (Unit × Move Exn Choice) :=
  [((), .step .none), ((), .step (.draw 1 0)), ((), .step (.text "c")), ((), .step (.draw 2 0)),
    ((), .step .none), ((), .step .none), ((), .step .none), ((), .step .none), ((), .close)]

def bareRun : Option (Cluster Answer Exn Store Write World Unit Unit) :=
  bareStart.play postgres (fun _ _ _ => True) bareSchedule

theorem bareRun_spec : ∃ st, Cluster.Reachable postgres bareStart st ∧
    (st.sessions ()).returned = some () ∧
      st.shared.store.syncLogs.rows.map SyncLog.status = [.started] ∧
        st.shared.store.webhookDeliveries.rows.map WebhookDelivery.status = [.processing] := by
  have shape : bareRun.map (fun st => ((st.sessions ()).returned,
      st.shared.store.syncLogs.rows.map SyncLog.status,
      st.shared.store.webhookDeliveries.rows.map WebhookDelivery.status)) =
        some (some (), [.started], [.processing]) := by decide +kernel
  obtain ⟨st, run, same⟩ := Option.map_eq_some_iff.mp shape
  obtain ⟨returned, logs, deliveries⟩ : _ ∧ _ ∧ _ := by simpa only [Prod.mk.injEq] using same
  exact ⟨st, Cluster.run_of_play run, returned, logs, deliveries⟩

/-- The request has been processed, and neither its entry in the log nor its delivery says so. -/
theorem processed_not_recorded : ∃ st, Cluster.Reachable postgres bareStart st ∧
    (st.sessions ()).returned = some () ∧
      ¬ bareUpdate.Logged (.ok ()) (unpolled []).store st.shared.store ∧
        bareUpdate.delivery bareConfig = some ("telegram", "9") ∧
          ¬ DeliverySettled ("telegram", "9") (.ok ()) (unpolled []).store st.shared.store := by
  obtain ⟨st, run, returned, logs, deliveries⟩ := bareRun_spec
  refine ⟨st, run, returned, ?_, by decide, ?_⟩
  · rintro ⟨row, here, _, _, status⟩
    have among := List.mem_map_of_mem (f := SyncLog.status) here
    rw [logs, status] at among
    exact absurd among (by decide)
  · rintro ⟨row, here, _, _, status⟩
    have among := List.mem_map_of_mem (f := WebhookDelivery.status) here
    rw [deliveries, status] at among
    exact absurd among (by decide)

/-- The same of all requests, at this one. -/
theorem requests_not_recorded_bare : ∃ st, Cluster.Reachable postgres bareStart st ∧
    (st.sessions ()).returned = some () ∧
      ¬ bareUpdate.Logged (.ok ()) (unpolled []).store st.shared.store := by
  obtain ⟨st, run, returned, _⟩ := bareRun_spec
  exact ⟨st, run, returned,
    (requests_not_recorded bareConfig (fun _ : Unit => bareUpdate) _ run () (.ok ())).1⟩

end Example

end OmniSync
