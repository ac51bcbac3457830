import OmniSync.Telegram.Agreement

/-!
# Messages of several chats

Telegram numbers messages per chat, and the event of a message is stored under the number alone.
Whatever webhooks, requests and polls ingest messages, the event of each number carries the
content of one of the ingested messages with that number. So each message is kept apart from
the others if and only if no two chats have used the same number.
-/

namespace OmniSync

open Txn

variable {rt : Runtime} {settings : Settings} {webhooks : WebhookSettings}

/-- The text messages of updates, each with the content of its event. -/
def textsOf (updates : List TelegramUpdate) : List (TelegramMessage × String) :=
  updates.filterMap (fun update => update.message.bind (fun message =>
    message.some?.map (fun text => (message, chatTitle message.chat ++ text))))

namespace TelegramMessage

/-- The key of the event of a message. -/
def numberKey (m : TelegramMessage) : String × String := ("telegram", toString m.messageId)

/-- The messages have the same number in the same chat. -/
def SameAs (m m' : TelegramMessage) : Prop :=
  m.chat.map TelegramChat.id = m'.chat.map TelegramChat.id ∧ m.messageId = m'.messageId

end TelegramMessage

/-- The text messages are stored as different events, and each event has the content of a message
of its own identity. -/
structure KeptApart (updates : List TelegramUpdate) (t : Store) : Prop where
  own : ∀ x ∈ textsOf updates, ∃ row ∈ t.normalizedEvents, row.key = x.1.numberKey ∧
    ∃ y ∈ textsOf updates, y.1.SameAs x.1 ∧ row.content = y.2
  apart : ∀ x ∈ textsOf updates, ∀ y ∈ textsOf updates, ¬ x.1.SameAs y.1 →
    ∀ row ∈ t.normalizedEvents, ∀ row' ∈ t.normalizedEvents,
      row.key = x.1.numberKey → row'.key = y.1.numberKey → row ≠ row'

/-- No two chats have used the same number for a text message. -/
def OneChatEach (updates : List TelegramUpdate) : Prop :=
  ∀ x ∈ textsOf updates, ∀ y ∈ textsOf updates, x.1.messageId = y.1.messageId →
    x.1.chat.map TelegramChat.id = y.1.chat.map TelegramChat.id

/-- One step of the ingestion: a webhook request, a request to sync the messages, or a poll, which
returns. The updates are those that it ingests. -/
inductive IngestsUpdates (rt : Runtime) (settings : Settings) (webhooks : WebhookSettings) :
    State Unit → List TelegramUpdate → State Unit → Prop where
  | webhook {σ τ : State Unit} {token : Option String} {body : Json} {update : TelegramUpdate}
      {n : Nat} (valid : rt.validateUpdate body = .ok update)
      (run : postgres.Completes () (telegramWebhook rt settings webhooks token (.ok body)) σ
        (.processed n) τ) : IngestsUpdates rt settings webhooks σ [update] τ
  | duplicate {σ τ : State Unit} {token : Option String} {body : Json}
      (run : postgres.Completes () (telegramWebhook rt settings webhooks token (.ok body)) σ
        .duplicate τ) : IngestsUpdates rt settings webhooks σ [] τ
  | sync {σ τ : State Unit} {xs : List Json} {response : TelegramSyncResponse}
      (run : postgres.Completes () (telegramSync rt settings) (σ.facing (updateServer xs))
        response τ) : IngestsUpdates rt settings webhooks σ (TelegramClient.validated rt xs) τ
  | poll {σ τ : State Unit} {xs : List Json}
      (run : postgres.Completes () (syncTelegramMessages rt settings) (σ.facing (updateServer xs))
        () τ) : IngestsUpdates rt settings webhooks σ (TelegramClient.validated rt xs) τ

/-- Any sequence of such steps, with all the updates that they ingest. -/
inductive IngestedUpdates (rt : Runtime) (settings : Settings) (webhooks : WebhookSettings)
    (start : State Unit) : List TelegramUpdate → State Unit → Prop where
  | nil : IngestedUpdates rt settings webhooks start [] start
  | snoc {updates new : List TelegramUpdate} {σ τ : State Unit} :
      IngestedUpdates rt settings webhooks start updates σ →
        IngestsUpdates rt settings webhooks σ new τ →
          IngestedUpdates rt settings webhooks start (updates ++ new) τ

section Webhook

variable {body : Json} {update : TelegramUpdate} {delivery : Option (String × String)}
variable {correlationId : String} {start : Store} {σ τ : State Unit} {ws : List Write}

theorem wp_telegramWebhookRequest (h : SyncingUpdates start [] σ ws) :
    wp serial () ((telegramWebhookRequest rt settings body delivery).body correlationId)
      (fun r τ vs => ∀ n, r = .ok n → ∃ update, rt.validateUpdate body = .ok update ∧
        SyncingUpdates start [update] τ vs) σ ws := by
  unfold telegramWebhookRequest
  dsimp only
  rw [wp_bind, wp_ofAnswer]
  cases valid : rt.validateUpdate body with
  | error e => exact fun _ impossible => (nomatch impossible)
  | ok update =>
      rw [Post.andThen_ok]
      cases message : update.message with
      | none => exact fun _ _ => ⟨update, rfl, h.skip_none message⟩
      | some m =>
          refine wp_mono (wp_storeMessage h message) (fun r τ vs post n value => ?_)
          exact ⟨update, rfl, post n value⟩

/-- What a webhook request leaves: what its update says, or nothing. -/
def WebhookDelivered (rt : Runtime) (start : Store) (body : Json) (r : Except Exn WebhookResponse)
    (τ : State Unit) : Prop :=
  (∀ n, r = .ok (.processed n) → ∀ update, rt.validateUpdate body = .ok update →
    Wrote (entriesOf [update]) start τ.store) ∧ (r = .ok .duplicate → τ.store = start)

theorem webhookDelivered_error (e : Exn) : WebhookDelivered rt start body (.error e) τ :=
  ⟨fun _ impossible => (nomatch impossible), fun impossible => (nomatch impossible)⟩

theorem SyncingUpdates.received {request : Option (String × String)} {row : SyncLog}
    (keys : start.KeysHold) (same : σ.store = start) (same' : τ.store = start)
    (claimed : LoggedRequest.Claimed request σ ws) :
    SyncingUpdates start [] τ (ws ++ [.addSyncLog row]) := by
  subst same
  have aside : ∀ w ∈ ws ++ [.addSyncLog row], w.Aside := claimed.aside
  have events := view_normalizedEvents_of_aside (s := τ.store) aside
  have versions := view_eventVersions_of_aside (s := τ.store) aside
  rw [same'] at events versions
  refine ⟨fun k => ?_, ?_, .of_aside aside, same' ▸ keys.ids⟩
  · rw [same']
    exact Store.cell_congr events versions k
  · rw [same']
    exact keys.congr events versions

theorem wp_telegramWebhook {token : Option String} (keys : σ.store.KeysHold) :
    wp serial () (telegramWebhook rt settings webhooks token (.ok body))
      (fun r τ _ => WebhookDelivered rt σ.store body r τ) σ [] := by
  rw [telegramWebhook_eq, wp_bind, wp_ofAnswer]
  cases verifySecretToken webhooks token with
  | error e => exact webhookDelivered_error e
  | ok _ =>
      rw [Post.andThen_ok, wp_bind, wp_ofAnswer, Post.andThen_ok, wp_bind, wp_ofAnswer]
      cases body.get? "update_id" with
      | error e => exact webhookDelivered_error e
      | ok updateId =>
          rw [Post.andThen_ok]
          refine LoggedRequest.wp_received (Q := fun r τ => WebhookDelivered rt σ.store body r τ)
            hosts_serial ?_ (fun e _ _ => webhookDelivered_error e) ?_ ?_
          · intro r τ υ ws left rely
            unfold WebhookDelivered
            rw [alone_store rely]
            exact left
          · intro key τ _ rely _
            exact ⟨fun _ impossible => (nomatch impossible), fun _ => alone_store rely⟩
          · intro υ ws rely claimed cid id t τ rely' _ _
            have before : υ.store = σ.store := alone_store rely
            have opened : SyncingUpdates σ.store [] τ (ws ++ [.addSyncLog ⟨id, cid,
                "telegram_webhook", .started, none, t⟩]) :=
              .received keys before ((alone_store rely').trans before) claimed
            refine wp_mono (wp_telegramWebhookRequest opened) (fun r φ vs post => ?_)
            rintro n rfl ψ rely'' inv
            obtain ⟨update, valid, synced⟩ := post n rfl
            have store : ψ.store = φ.store := alone_store rely''
            have wrote : Wrote (entriesOf [update]) σ.store (postgres.view ψ.store vs) :=
              store ▸ ⟨synced.keysHold, synced.cells⟩
            refine ⟨alone_guarantees wrote.1.ids, fun _ _ update' valid' => ?_, ?_⟩
            · cases valid.symm.trans valid'
              exact wrote
            · exact fun impossible => (nomatch impossible)

end Webhook

/-- What a webhook request has left that returns. -/
theorem telegramWebhook_delivered {σ τ : State Unit} {token : Option String} {body : Json}
    {response : WebhookResponse} (keys : σ.store.KeysHold)
    (h : postgres.Completes () (telegramWebhook rt settings webhooks token (.ok body)) σ response
      τ) : WebhookDelivered rt σ.store body (.ok response) τ := by
  have verified : wp serial () (telegramWebhook rt settings webhooks token (.ok body))
      (fun r τ _ => ∀ a, r = .ok a → WebhookDelivered rt σ.store body (.ok a) τ) σ [] :=
    wp_mono (wp_telegramWebhook keys) (fun r τ _ left a same => same ▸ left)
  refine (wp_completes serial (Q := fun a τ => WebhookDelivered rt σ.store body (.ok a) τ)
    (fun _ _ _ => trivial) (fun left rely => ?_) keys.ids verified h).2
  unfold WebhookDelivered
  rw [alone_store rely]
  exact left

section Ingested

variable {updates new : List TelegramUpdate} {start s t : Store} {σ τ : State Unit}

theorem entriesOf_eq_map : entriesOf updates =
    (textsOf updates).map (fun x => (x.1.numberKey, x.2)) := by
  unfold entriesOf textsOf
  rw [List.map_filterMap]
  refine List.filterMap_congr (fun update _ => ?_)
  unfold TelegramUpdate.entry?
  cases update.message with
  | none => rfl
  | some m =>
      rw [Option.bind_some, Option.bind_some, Option.map_map]
      rfl

theorem mem_valuesAt_entriesOf {k : String × String} {content : String} :
    content ∈ valuesAt (entriesOf updates) k ↔
      ∃ x ∈ textsOf updates, x.1.numberKey = k ∧ x.2 = content := by
  rw [mem_valuesAt, entriesOf_eq_map, List.mem_map]
  simp only [Prod.mk.injEq]

theorem numberKey_inj {m m' : TelegramMessage} :
    m.numberKey = m'.numberKey ↔ m.messageId = m'.messageId := by
  unfold TelegramMessage.numberKey
  rw [Prod.mk.injEq, and_iff_right rfl]
  exact toString_int_injective.eq_iff

/-- Whatever was ingested for a key, the event of the key has one of these contents. -/
structure Holding (updates : List TelegramUpdate) (t : Store) : Prop where
  keysHold : t.KeysHold
  holds : ∀ k, valuesAt (entriesOf updates) k ≠ [] →
    ∃ content ∈ valuesAt (entriesOf updates) k, ∃ version, (t.cell k).current = some (content, version)

theorem entriesOf_append : entriesOf (updates ++ new) = entriesOf updates ++ entriesOf new :=
  List.filterMap_append

/-- What a step leaves that writes, under each key, some of the contents that it ingests. -/
theorem Holding.step (h : Holding updates s) (keys : t.KeysHold)
    (written : ∀ k, ∃ as, (∀ a ∈ as, a ∈ valuesAt (entriesOf new) k) ∧
      (as = [] → valuesAt (entriesOf new) k = []) ∧ t.cell k = (s.cell k).writes as) :
    Holding (updates ++ new) t := by
  refine ⟨keys, fun k some => ?_⟩
  obtain ⟨as, among, all, cell⟩ := written k
  rw [entriesOf_append, valuesAt_append] at some ⊢
  rw [cell]
  by_cases none' : as = []
  · subst none'
    rw [all rfl, List.append_nil] at some ⊢
    exact h.holds k some
  · obtain ⟨content, here, version, current⟩ := (s.cell k).current_writes none'
    exact ⟨content, List.mem_append.mpr (.inr (among content here)), version, current⟩

theorem Holding.wrote (h : Holding updates s) (wrote : Wrote (entriesOf new) s t) :
    Holding (updates ++ new) t :=
  h.step wrote.1 (fun k => ⟨_, fun _ here => here, id, wrote.2 k⟩)

theorem Holding.wroteFirst (h : Holding updates s) (wrote : WroteFirst (entriesOf new) s t) :
    Holding (updates ++ new) t := by
  refine h.step wrote.1 (fun k => ⟨_, fun a here => ?_, fun none' => ?_, wrote.2 k⟩)
  · exact List.mem_of_mem_head? (Option.mem_toList.mp here)
  · rw [Option.toList_eq_nil_iff, List.head?_eq_none_iff] at none'
    exact none'

/-- Every step of the ingestion keeps the events of its keys among what was ingested for them. -/
theorem Holding.ingest (h : Holding updates σ.store)
    (step : IngestsUpdates rt settings webhooks σ new τ) : Holding (updates ++ new) τ.store := by
  cases step with
  | webhook valid run =>
      exact h.wrote ((telegramWebhook_delivered h.keysHold run).1 _ rfl _ valid)
  | duplicate run =>
      rw [(telegramWebhook_delivered h.keysHold run).2 rfl, List.append_nil]
      exact h
  | sync run =>
      rename_i xs response
      exact h.wrote (telegramSync_wrote (σ := σ.facing (updateServer xs)) h.keysHold rfl run)
  | poll run =>
      rename_i xs
      exact h.wroteFirst (syncTelegramMessages_wrote (σ := σ.facing (updateServer xs)) h.keysHold
        (fun _ _ => rfl) run)

/-- Whatever was ingested, in any batches and on any path. -/
theorem ingested_holding {start : State Unit} (keys : start.store.KeysHold)
    (run : IngestedUpdates rt settings webhooks start updates τ) : Holding updates τ.store := by
  induction run with
  | nil => exact ⟨keys, fun _ some => (some rfl).elim⟩
  | snoc _ step ih => exact ih.ingest step

/-- After any sequence of webhook requests, syncs and polls that return, the text messages are
kept apart if and only if no two chats have used the same number. -/
theorem messages_keptApart_iff {start : State Unit} (keys : start.store.KeysHold)
    (run : IngestedUpdates rt settings webhooks start updates τ) :
    KeptApart updates τ.store ↔ OneChatEach updates := by
  have holding := ingested_holding keys run
  have stored : ∀ x ∈ textsOf updates, ∃ row ∈ τ.store.normalizedEvents, row.key = x.1.numberKey ∧
      ∃ y ∈ textsOf updates, y.1.numberKey = x.1.numberKey ∧ y.2 = row.content := by
    intro x hx
    have some : valuesAt (entriesOf updates) x.1.numberKey ≠ [] :=
      List.ne_nil_of_mem (mem_valuesAt_entriesOf.mpr ⟨x, hx, rfl, rfl⟩)
    obtain ⟨content, among, version, current⟩ := holding.holds _ some
    obtain ⟨row, found, same⟩ := Option.map_eq_some_iff.mp current
    obtain ⟨here, key⟩ := Table.find_eq_some_iff.mp found
    cases same
    exact ⟨row, here, key, mem_valuesAt_entriesOf.mp among⟩
  constructor
  · intro kept x hx y hy number
    by_contra chats
    obtain ⟨row, here, key, _⟩ := stored x hx
    exact kept.apart x hx y hy (fun same => chats same.1) row here row here key
      (key.trans (numberKey_inj.mpr number)) rfl
  · intro one
    constructor
    · intro x hx
      obtain ⟨row, here, key, y, hy, same, content⟩ := stored x hx
      have number := numberKey_inj.mp same
      exact ⟨row, here, key, y, hy, ⟨one y hy x hx number, number⟩, content.symm⟩
    · rintro x hx y hy different row _ row' _ key key' rfl
      have number := numberKey_inj.mp (key.symm.trans key')
      exact different ⟨one x hx y hy number, number⟩

end Ingested

section Example

def chatWebhooks : WebhookSettings where
  hmacSha256 secret body := secret ++ body

/-- Before anything is ingested. -/
def unsynced : State Unit := ⟨{}, ∅, []⟩

/-- The messages of two chats have the same number, and only the second one is left. -/
theorem twoChats_not_keptApart : ∃ τ,
    IngestedUpdates chatRuntime {} chatWebhooks unsynced
      (TelegramClient.validated chatRuntime twoChats) τ ∧
        ¬ KeptApart (TelegramClient.validated chatRuntime twoChats) τ.store := by
  have shape : twoChatsRequest.map (fun x =>
      (x.2.store.normalizedEvents.find ("telegram", "7")).map NormalizedEvent.content) =
        some (some "[chat:200] hello") := by decide +kernel
  obtain ⟨⟨response, τ⟩, run, last⟩ := Option.map_eq_some_iff.mp shape
  refine ⟨τ, .snoc .nil (.sync (Engine.completes_of_outcome run)), fun kept => ?_⟩
  have texts : textsOf (TelegramClient.validated chatRuntime twoChats) =
      [({ messageId := 7, chat := some ⟨100, none, none⟩, text := some "hi" }, "[chat:100] hi"),
        ({ messageId := 7, chat := some ⟨200, none, none⟩, text := some "hello" },
          "[chat:200] hello")] := by decide
  have own := kept.own
  rw [texts] at own
  obtain ⟨row, here, key, y, hy, same, content⟩ := own _ List.mem_cons_self
  have found : τ.store.normalizedEvents.find ("telegram", "7") = some row :=
    Table.find_eq_some_iff.mpr ⟨here, key⟩
  rw [show row.content = "[chat:200] hello" by simpa [found] using last] at content
  rcases List.mem_cons.mp hy with rfl | hy
  · exact absurd content (by decide)
  · rw [List.mem_singleton.mp hy] at same
    exact absurd same.1 (by decide)

/-- A message that is delivered twice is kept. -/
theorem redelivered_keptApart : ∃ τ,
    IngestedUpdates chatRuntime {} chatWebhooks unsynced
      (TelegramClient.validated chatRuntime redelivered) τ ∧
        KeptApart (TelegramClient.validated chatRuntime redelivered) τ.store := by
  have shape : redeliveredRequest.map (fun _ => true) = some true := by decide +kernel
  obtain ⟨⟨response, τ⟩, request, _⟩ := Option.map_eq_some_iff.mp shape
  have run : IngestedUpdates chatRuntime {} chatWebhooks unsynced
      (TelegramClient.validated chatRuntime redelivered) τ :=
    .snoc .nil (.sync (Engine.completes_of_outcome request))
  have chats : ∀ x ∈ textsOf (TelegramClient.validated chatRuntime redelivered),
      x.1.chat.map TelegramChat.id = some 100 := by decide
  have keys : unsynced.store.KeysHold := unpolled_keysHold []
  refine ⟨τ, run, (messages_keptApart_iff keys run).mpr ?_⟩
  exact fun x hx y hy _ => (chats x hx).trans (chats y hy).symm

end Example

end OmniSync
