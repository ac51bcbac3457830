import OmniSync.Events.Cells
import OmniSync.Telegram.Delivery
import OmniSync.Telegram.Router

/-!
# A request and a poll for the same updates

The request upserts the events of the updates one by one, and the poll upserts them as one
batch, of which only the first event of each key is stored. The two leave the same contents
and versions if and only if the updates have one text for each message id.
-/

namespace OmniSync

open Txn

variable {rt : Runtime} {settings : Settings}

/-- The key and the content of the event of an update, if it has one. -/
def TelegramUpdate.entry? (update : TelegramUpdate) : Option ((String × String) × String) :=
  update.message.bind (fun message => message.some?.map (fun text =>
    (("telegram", toString message.messageId), chatTitle message.chat ++ text)))

/-- What the updates say, in their order. -/
def entriesOf (updates : List TelegramUpdate) : List ((String × String) × String) :=
  updates.filterMap TelegramUpdate.entry?

/-- The same content is stored under each key, in the same version, and with the same history. -/
structure SameContents (s t : Store) : Prop where
  events : ∀ k, (s.normalizedEvents.find k).map (fun row => (row.content, row.version)) =
    (t.normalizedEvents.find k).map (fun row => (row.content, row.version))
  versions : ∀ k n, (versionOf s k n).map EventVersion.content =
    (versionOf t k n).map EventVersion.content

/-- Text messages with the same id have the same content. -/
def OneTextEach (updates : List TelegramUpdate) : Prop :=
  ∀ x ∈ updates, ∀ y ∈ updates, ∀ m m' text text', x.message = some m → y.message = some m' →
    m.some? = some text → m'.some? = some text' → m.messageId = m'.messageId →
      chatTitle m.chat ++ text = chatTitle m'.chat ++ text'

theorem sameContents_iff {s t : Store} : SameContents s t ↔ ∀ k, s.cell k = t.cell k := by
  constructor
  · intro same k
    exact Versioned.ext (same.events k) (funext (same.versions k))
  · intro same
    exact ⟨fun k => congrArg Versioned.current (same k),
      fun k n => congrFun (congrArg Versioned.history (same k)) n⟩

section Entries

variable {updates : List TelegramUpdate} {update : TelegramUpdate}

theorem entry?_of_makes {result : Option NormalizedEventCreate} (h : update.Makes rt result) :
    result.map (fun e => (e.key, e.content)) = update.entry? := by
  unfold TelegramUpdate.Makes at h
  unfold TelegramUpdate.entry?
  cases message : update.message with
  | none =>
      rw [message] at h
      rw [h]
      rfl
  | some m =>
      rw [message] at h
      obtain ⟨id, now, parsed⟩ := h
      rw [Option.bind_some]
      cases text : m.some? with
      | none =>
          rw [parseMessageToEvent_none text] at parsed
          cases parsed
          rfl
      | some content =>
          rw [parseMessageToEvent_some text] at parsed
          cases time : messageTime rt m.date now with
          | error e =>
              rw [time] at parsed
              cases parsed
          | ok t =>
              rw [time] at parsed
              cases parsed
              rfl

/-- The contents of a batch that was made of updates. -/
theorem contentsOf_batched {batch : List NormalizedEventCreate}
    (h : Batched (TelegramUpdate.Makes rt) updates batch) :
    contentsOf batch = entriesOf updates := by
  obtain ⟨results, each, rfl⟩ := h
  unfold contentsOf entriesOf
  induction each with
  | nil => rfl
  | @cons update result updates results made _ ih =>
      have entry := entry?_of_makes made
      cases result with
      | none => rw [List.reduceOption_cons_of_none, List.filterMap_cons_none entry.symm, ih]
      | some e =>
          rw [List.reduceOption_cons_of_some, List.filterMap_cons_some entry.symm, List.map_cons, ih]

theorem mem_entriesOf {k : String × String} {content : String} :
    (k, content) ∈ entriesOf updates ↔ ∃ x ∈ updates, ∃ m text, x.message = some m ∧
      m.some? = some text ∧ ("telegram", toString m.messageId) = k ∧
        chatTitle m.chat ++ text = content := by
  simp only [entriesOf, List.mem_filterMap, TelegramUpdate.entry?, Option.bind_eq_some_iff,
    Option.map_eq_some_iff, Prod.mk.injEq]
  constructor
  · rintro ⟨x, hx, m, message, text, some, key, same⟩
    exact ⟨x, hx, m, text, message, some, key, same⟩
  · rintro ⟨x, hx, m, text, message, some, key, same⟩
    exact ⟨x, hx, m, message, text, some, key, same⟩

theorem toString_int_injective : Function.Injective (fun n : Int => toString n) := by
  intro m n same
  have read := signed_toString m
  rw [show toString m = toString n from same, signed_toString] at read
  exact (Option.some.inj read).symm

theorem oneTextEach_iff : OneTextEach updates ↔
    ∀ k, ∀ a ∈ valuesAt (entriesOf updates) k, ∀ b ∈ valuesAt (entriesOf updates) k, a = b := by
  simp only [mem_valuesAt, mem_entriesOf]
  constructor
  · rintro one k _ ⟨x, hx, m, text, message, some, rfl, rfl⟩ _
      ⟨y, hy, m', text', message', some', key, rfl⟩
    refine one x hx y hy m m' text text' message message' some some' ?_
    exact toString_int_injective (congrArg Prod.snd key).symm
  · intro one x hx y hy m m' text text' message message' some some' id
    exact one _ _ ⟨x, hx, m, text, message, some, rfl, rfl⟩ _
      ⟨y, hy, m', text', message', some', by rw [id], rfl⟩

end Entries

section Request

variable {correlationId : String} {start : Store} {σ τ : State Unit} {ws : List Write}

/-- The loop over the updates has visited `first`: their contents are written. -/
structure SyncingUpdates (start : Store) (first : List TelegramUpdate) (τ : State Unit)
    (ws : List Write) : Prop where
  cells : ∀ k, (postgres.view τ.store ws).cell k =
    (start.cell k).writes (valuesAt (entriesOf first) k)
  keysHold : (postgres.view τ.store ws).KeysHold
  pending : Pending τ.store ws
  unique : τ.store.EventIdsUnique

theorem entriesOf_concat (first : List TelegramUpdate) (update : TelegramUpdate) :
    entriesOf (first ++ [update]) = entriesOf first ++ update.entry?.toList := by
  unfold entriesOf
  rw [List.filterMap_append]
  cases entry : update.entry? with
  | none => rw [List.filterMap_cons_none entry, List.filterMap_nil, Option.toList_none]
  | some x => rw [List.filterMap_cons_some entry, List.filterMap_nil, Option.toList_some]

/-- An update without an event. -/
theorem SyncingUpdates.skip {first : List TelegramUpdate} {update : TelegramUpdate}
    (h : SyncingUpdates start first τ ws) (none : update.entry? = none) :
    SyncingUpdates start (first ++ [update]) τ ws := by
  have same : entriesOf (first ++ [update]) = entriesOf first := by
    rw [entriesOf_concat, none, Option.toList_none, List.append_nil]
  refine ⟨fun k => ?_, h.keysHold, h.pending, h.unique⟩
  rw [same]
  exact h.cells k

/-- A raw payload has been kept. -/
theorem SyncingUpdates.keep {first : List TelegramUpdate} (h : SyncingUpdates start first σ ws)
    (same : τ.store = σ.store) {new : List Write} (payloads : OnlyPayloads new) :
    SyncingUpdates start first τ (ws ++ new) := by
  have events : (postgres.view σ.store (ws ++ new)).normalizedEvents =
      (postgres.view σ.store ws).normalizedEvents := by
    rw [postgres.view_append]
    exact payloads.look Store.normalizedEvents (fun _ _ => rfl)
  have versions : (postgres.view σ.store (ws ++ new)).eventVersions =
      (postgres.view σ.store ws).eventVersions := by
    rw [postgres.view_append]
    exact payloads.look Store.eventVersions (fun _ _ => rfl)
  refine ⟨fun k => ?_, ?_, ?_, same ▸ h.unique⟩
  · rw [same, Store.cell_congr events versions]
    exact h.cells k
  · rw [same]
    exact h.keysHold.congr events versions
  · rw [same]
    refine h.pending.append_aside (fun w hw => ?_)
    simp [Write.Aside, payloads.table w hw]

/-- The event of an update has been upserted. -/
theorem SyncingUpdates.upsert {first : List TelegramUpdate} {update : TelegramUpdate}
    {e : NormalizedEventCreate} {p : UpsertPlan} (h : SyncingUpdates start first σ ws)
    (made : update.entry? = some (e.key, e.content))
    (upserted : Upserted serial [e] none p σ ws τ) (unique : τ.store.EventIdsUnique) :
    SyncingUpdates start (first ++ [update]) τ (ws ++ p.writes) := by
  have alone := upserted.alone
  have view : postgres.view τ.store (ws ++ p.writes) =
      postgres.view (postgres.view σ.store ws) p.writes := by
    rw [alone_store upserted.rely, postgres.view_append]
  refine ⟨fun k => ?_, ?_, upserted.pending, unique⟩
  · have entry : valuesAt [(e.key, e.content)] k = (valuesAt (contentsOf [e]) k).head?.toList := by
      unfold valuesAt contentsOf
      by_cases key : e.key = k <;> simp [key]
    rw [view, alone.cell h.keysHold, h.cells, entriesOf_concat, made, Option.toList_some,
      valuesAt_append, entry]
    exact (List.foldl_append).symm
  · rw [view]
    exact alone.keysHold h.keysHold

/-- What becomes of a message, between the number of events that it leaves and its successor. -/
def storeMessage (rt : Runtime) (settings : Settings) (source : String) (payload : Json)
    (correlationId : String) (message : TelegramMessage) (skipped stored : Nat) : Tx Nat := do
  let rawPayloadId ← saveRawPayload rt settings source payload correlationId
  let now ← Db.utcNow
  match ← Prog.ofAnswer (parseMessageToEvent rt now message (some rawPayloadId)) with
  | none => return skipped
  | some eventData =>
      let _ ← NormalizedEventService.upsertEvent eventData none
      return stored

theorem wp_storeMessage {first : List TelegramUpdate} {update : TelegramUpdate}
    {m : TelegramMessage} {source : String} {payload : Json} {skipped stored : Nat}
    (h : SyncingUpdates start first σ ws) (message : update.message = some m) :
    wp serial () (storeMessage rt settings source payload correlationId m skipped stored)
      (fun r τ vs => ∀ n, r = .ok n → SyncingUpdates start (first ++ [update]) τ vs) σ ws := by
  unfold storeMessage
  rw [wp_bind]
  refine wp_mono wp_saveRawPayload (fun r τ vs post => ?_)
  cases r with
  | error e => exact fun _ impossible => (nomatch impossible)
  | ok id =>
      obtain ⟨store, new, rfl, payloads, _⟩ := post id rfl
      have kept := h.keep store payloads
      rw [Post.andThen_ok, wp_bind]
      refine wp_utcNow hosts_serial (fun υ rely _ now => ?_)
      have here : SyncingUpdates start first υ (ws ++ new) := by
        have none' : OnlyPayloads [] := fun _ hw => (nomatch hw)
        have same := kept.keep (alone_store rely) none'
        rw [List.append_nil] at same
        exact same
      rw [Post.andThen_ok, wp_bind, wp_ofAnswer]
      cases parsed : parseMessageToEvent rt now m (some id) with
      | error e => exact fun _ impossible => (nomatch impossible)
      | ok result =>
          have made : update.Makes rt result := by
            unfold TelegramUpdate.Makes
            rw [message]
            exact ⟨id, now, parsed⟩
          have entry := entry?_of_makes made
          rw [Post.andThen_ok]
          cases result with
          | none => exact fun _ _ => here.skip entry.symm
          | some e =>
              dsimp only
              unfold NormalizedEventService.upsertEvent
              rw [wp_bind, wp_bind]
              refine wp_upsertEventsBulk hosts_serial (fun _ unique => unique) here.unique
                here.pending (fun _ _ _ _ => nofun) ?_
              intro p φ unique upserted
              rw [Post.andThen_ok]
              cases p.rows with
              | nil => exact nofun
              | cons row rows =>
                  exact fun _ _ => here.upsert entry.symm upserted unique

/-- An update without a message. -/
theorem SyncingUpdates.skip_none {first : List TelegramUpdate} {update : TelegramUpdate}
    (h : SyncingUpdates start first σ ws) (none' : update.message = none) :
    SyncingUpdates start (first ++ [update]) σ ws := by
  refine h.skip ?_
  unfold TelegramUpdate.entry?
  rw [none']
  rfl

theorem wp_syncUpdate {first : List TelegramUpdate} {update : TelegramUpdate} {n : Nat}
    (h : SyncingUpdates start first σ ws) :
    wp serial () (syncUpdate rt settings correlationId n update)
      (fun r τ vs => ∀ m, r = .ok m → SyncingUpdates start (first ++ [update]) τ vs) σ ws := by
  unfold syncUpdate
  cases message : update.message with
  | none => exact fun _ _ => h.skip_none message
  | some m => exact wp_storeMessage h message

/-- The request has opened its entry of the log. -/
theorem SyncingUpdates.opened (keys : start.KeysHold) (same : σ.store = start) {row : SyncLog} :
    SyncingUpdates start [] σ [.addSyncLog row] := by
  subst same
  refine ⟨fun _ => rfl, keys.congr rfl rfl, .of_aside (fun w hw => ?_), keys.ids⟩
  rw [List.mem_singleton.mp hw]
  simp [Write.Aside, Write.table]

theorem wp_syncUpdates {updates : List TelegramUpdate} (h : SyncingUpdates start [] σ ws) :
    wp serial () (updates.foldlM (syncUpdate rt settings correlationId) 0)
      (fun r τ vs => ∀ n, r = .ok n → SyncingUpdates start updates τ vs) σ ws := by
  refine wp_foldlM (fun _ rest τ vs => ∃ first, updates = first ++ rest ∧
    SyncingUpdates start first τ vs) ?_ ?_ 0 updates ⟨[], rfl, h⟩
  · rintro n update rest τ vs ⟨first, rfl, syncing⟩
    refine wp_mono (wp_syncUpdate syncing) (fun r υ us post => ?_)
    cases r with
    | error e => exact fun _ impossible => (nomatch impossible)
    | ok m => exact ⟨first ++ [update], by simp, post m rfl⟩
  · rintro n τ vs ⟨first, rfl, syncing⟩ m _
    rw [List.append_nil]
    exact syncing

/-- What a request writes that returns: everything that the updates say. -/
def Wrote (xs : List ((String × String) × String)) (start t : Store) : Prop :=
  t.KeysHold ∧ ∀ k, t.cell k = (start.cell k).writes (valuesAt xs k)

theorem wp_telegramSync {xs : List Json} (keys : σ.store.KeysHold)
    (answers : σ.world.remote (.getUpdates none) = some xs) :
    wp serial () (telegramSync rt settings) (fun r τ _ => ∀ a, r = .ok a →
      Wrote (entriesOf (TelegramClient.validated rt xs)) σ.store τ.store) σ [] := by
  rw [telegramSync_eq]
  refine LoggedRequest.wp_prog (Q := fun r τ => ∀ a, r = .ok a →
    Wrote (entriesOf (TelegramClient.validated rt xs)) σ.store τ.store) hosts_serial ?_
    (fun _ _ _ _ => nofun) ?_
  · intro r τ υ ws wrote rely a value
    rw [alone_store rely]
    exact wrote a value
  · intro cid id t τ rely _ _
    unfold telegramSyncRequest TelegramClient.getUpdates
    dsimp only
    rw [wp_bind, wp_bind]
    refine wp_getUpdates (fun υ rely' unique => ⟨fun _ _ => nofun, fun result known => ?_⟩)
    have remote : υ.world.remote = σ.world.remote := by
      rw [(alone_world rely').2, (alone_world rely).2]
    have same : υ.store = σ.store := (alone_store rely').trans (alone_store rely)
    obtain rfl : result = xs := known xs (remote ▸ answers)
    rw [Post.andThen_ok, wp_pure, Post.andThen_ok, wp_bind]
    refine wp_mono (wp_syncUpdates (.opened keys same)) (fun r φ vs post => ?_)
    cases r with
    | error e => exact fun _ impossible => (nomatch impossible)
    | ok n =>
        rintro _ ⟨⟩ ψ rely'' inv
        have synced := post n rfl
        have store : ψ.store = φ.store := alone_store rely''
        have wrote : Wrote (entriesOf (TelegramClient.validated rt result)) σ.store
            (postgres.view ψ.store vs) := store ▸ ⟨synced.keysHold, synced.cells⟩
        exact ⟨alone_guarantees wrote.1.ids, fun _ _ => wrote⟩

end Request

section Poll

variable {correlationId : String} {remote : Remote}

/-- What a poll writes that returns: the first that the updates say of each key. -/
def WroteFirst (xs : List ((String × String) × String)) (start t : Store) : Prop :=
  t.KeysHold ∧ ∀ k, t.cell k = (start.cell k).writes (valuesAt xs k).head?.toList

theorem WroteFirst.congr {xs : List ((String × String) × String)} {s s' t t' : Store}
    (h : WroteFirst xs s t) (before : s.SameContent s') (after : t.SameContent t') :
    WroteFirst xs s' t' := by
  refine ⟨h.1.congr after.normalizedEvents after.eventVersions, fun k => ?_⟩
  rw [Store.cell_congr after.normalizedEvents after.eventVersions,
    Store.cell_congr before.normalizedEvents before.eventVersions]
  exact h.2 k

/-- A batch is stored behind other writes. -/
theorem wp_storeCollected_cells {σ : State Unit} {ws : List Write} {start : Store}
    {batch : List NormalizedEventCreate} (aside : ∀ w ∈ ws, w.Aside) (keys : start.KeysHold)
    (same : σ.store = start) :
    wp serial () (storeCollected batch correlationId) (fun r τ vs => ∀ results, r = .ok results →
      WroteFirst (contentsOf batch) start (postgres.view τ.store vs)) σ ws := by
  subst same
  have events := view_normalizedEvents_of_aside (s := σ.store) aside
  have versions := view_eventVersions_of_aside (s := σ.store) aside
  have here : (postgres.view σ.store ws).KeysHold := keys.congr events versions
  unfold storeCollected
  split
  · rename_i empty
    rw [List.isEmpty_iff.mp empty]
    exact fun _ _ => ⟨here, Store.cell_congr events versions⟩
  · refine wp_upsertEventsBulk hosts_serial (fun _ unique => unique) keys.ids (.of_aside aside)
      (fun _ _ _ _ => nofun) ?_
    intro p τ _ upserted results _
    rw [alone_store upserted.rely, postgres.view_append]
    refine ⟨upserted.alone.keysHold here, fun k => ?_⟩
    rw [upserted.alone.cell here, Store.cell_congr events versions]

/-- What a poll leaves up to its commit that receives `xs`. -/
theorem wp_ingestUpdates_cells {σ : State Unit} {xs : List Json} (keys : σ.store.KeysHold)
    (answers : ∀ off, offsetOf (σ.store.cursorOf "telegram") = .ok off →
      σ.world.remote (.getUpdates off) = some xs) :
    wp serial () (ingestUpdates rt settings correlationId) (fun r τ ws => ∀ results, r = .ok results →
      WroteFirst (entriesOf (TelegramClient.validated rt xs)) σ.store (postgres.view τ.store ws))
      σ [] := by
  unfold ingestUpdates getCursor
  rw [wp_bind, wp_bind]
  refine wp_selectCursor hosts_serial (fun τ rely _ => ⟨fun _ _ => nofun, ?_⟩)
  have before : τ.store = σ.store := alone_store rely
  rw [Post.andThen_ok, wp_pure, Post.andThen_ok, parseOffset_eq, wp_bind, wp_ofAnswer]
  change Post.andThen _ _ (offsetOf (τ.store.cursorOf "telegram")) τ []
  rw [before]
  cases resumes : offsetOf (σ.store.cursorOf "telegram") with
  | error e => exact fun _ impossible => (nomatch impossible)
  | ok off =>
      rw [Post.andThen_ok, wp_bind, TelegramClient.getUpdates, wp_bind]
      refine wp_getUpdates (fun υ rely' _ => ⟨fun _ _ => nofun, fun result known => ?_⟩)
      have same : υ.store = σ.store := (alone_store rely').trans before
      have remote : υ.world.remote = σ.world.remote := by
        rw [(alone_world rely').2, (alone_world rely).2]
      obtain rfl : result = xs := known xs (remote ▸ answers off resumes)
      rw [Post.andThen_ok, wp_pure, Post.andThen_ok, wp_bind]
      refine wp_mono (wp_collectUpdates _ same) (fun r φ ws post => ?_)
      cases r with
      | error e => exact fun _ impossible => (nomatch impossible)
      | ok collected =>
          obtain ⟨store, collecting⟩ := post collected rfl
          rw [Post.andThen_ok, wp_bind]
          refine wp_mono wp_acknowledge (fun r ψ vs post => ?_)
          cases r with
          | error e => exact fun _ impossible => (nomatch impossible)
          | ok _ =>
              obtain ⟨store', new, rfl, cursors, _⟩ := post () rfl
              have aside : ∀ w ∈ ws ++ new, w.Aside := by
                intro w hw
                rcases List.mem_append.mp hw with old | added
                · simp [Write.Aside, collecting.payloads.table w old]
                · simp [Write.Aside, cursors w added]
              rw [Post.andThen_ok, ← contentsOf_batched collecting.batched]
              exact wp_storeCollected_cells aside keys (store'.trans store)

/-- What a poll has written that returns. -/
theorem syncTelegramMessages_wrote {σ τ : State Unit} {xs : List Json} (keys : σ.store.KeysHold)
    (answers : ∀ off, offsetOf (σ.store.cursorOf "telegram") = .ok off →
      σ.world.remote (.getUpdates off) = some xs)
    (h : postgres.Completes () (syncTelegramMessages rt settings) σ () τ) :
    WroteFirst (entriesOf (TelegramClient.validated rt xs)) σ.store τ.store := by
  rw [syncTelegramMessages_eq] at h
  have stores : (telegramRun rt settings).Stores σ.world.remote (fun s t => s.KeysHold →
      (∀ off, offsetOf (s.cursorOf "telegram") = .ok off →
        σ.world.remote (.getUpdates off) = some xs) →
          WroteFirst (entriesOf (TelegramClient.validated rt xs)) s t) := by
    intro cid υ unique same
    by_cases assumed : υ.store.KeysHold ∧ ∀ off, offsetOf (υ.store.cursorOf "telegram") = .ok off →
        σ.world.remote (.getUpdates off) = some xs
    · have answered : ∀ off, offsetOf (υ.store.cursorOf "telegram") = .ok off →
          υ.world.remote (.getUpdates off) = some xs := same ▸ assumed.2
      refine wp_mono (wp_ingestUpdates_cells assumed.1 answered) (fun r φ ws post results value _ _ => ?_)
      exact post results value
    · refine wp_mono (wp_ingestUpdates unique) (fun _ _ _ _ _ _ keys answers => ?_)
      exact (assumed ⟨keys, answers⟩).elim
  obtain ⟨s, t, before, after, wrote⟩ := LoggedRun.completes telegramRun_proper stores keys.ids h
  refine (wrote ?_ ?_).congr before.symm after
  · exact keys.congr before.normalizedEvents before.eventVersions
  · rw [cursorOf_of_sameContent before]
    exact answers

end Poll

/-- What a request has written that returns. -/
theorem telegramSync_wrote {σ τ : State Unit} {xs : List Json} {response : TelegramSyncResponse}
    (keys : σ.store.KeysHold) (answers : σ.world.remote (.getUpdates none) = some xs)
    (h : postgres.Completes () (telegramSync rt settings) σ response τ) :
    Wrote (entriesOf (TelegramClient.validated rt xs)) σ.store τ.store := by
  refine (wp_completes serial (Q := fun _ τ =>
    Wrote (entriesOf (TelegramClient.validated rt xs)) σ.store τ.store)
    (fun _ _ _ => trivial) (fun wrote rely => ?_) keys.ids (wp_telegramSync keys answers) h).2
  exact alone_store rely ▸ wrote

/-- The request and the poll agree if and only if the updates have one text for each id. -/
theorem telegramSync_agrees_iff {σ σ' τ υ : State Unit} {xs : List Json}
    {response : TelegramSyncResponse} (keys : σ.store.KeysHold) (same : σ'.store = σ.store)
    (answers : σ.world.remote (.getUpdates none) = some xs)
    (answers' : ∀ off, offsetOf (σ.store.cursorOf "telegram") = .ok off →
      σ'.world.remote (.getUpdates off) = some xs)
    (request : postgres.Completes () (telegramSync rt settings) σ response τ)
    (poll : postgres.Completes () (syncTelegramMessages rt settings) σ' () υ) :
    SameContents τ.store υ.store ↔ OneTextEach (TelegramClient.validated rt xs) := by
  obtain ⟨_, all⟩ := telegramSync_wrote keys answers request
  have first := (syncTelegramMessages_wrote (same ▸ keys) (same ▸ answers') poll).2
  rw [same] at first
  rw [sameContents_iff, oneTextEach_iff]
  refine forall_congr' (fun k => ?_)
  rw [all, first, eq_comm]
  exact Versioned.writes_head_iff _ _

section Example

/-- Messages of two chats. -/
def twoChats : List Json := [chatUpdate 1 100 "hi", chatUpdate 2 200 "hello"]

/-- One message, delivered in two updates. -/
def redelivered : List Json := [chatUpdate 1 100 "hi", chatUpdate 2 100 "hi"]

/-- The moves of a request up to its second upsert. -/
def firstMoves : List (Move Exn Choice) :=
  [.step (.text "c"), .step (.draw 1 0), .step (.items []), .step .none, .step (.draw 2 0),
    .step (.time 0)] ++ (createScript 10).dropLast ++
      [.step .none, .step (.draw 3 0), .step (.time 0)]

/-- The moves that end a request. -/
def lastMoves : List (Move Exn Choice) := [.step .none, .step .none, .step .none]

def pollMoves : List (Move Exn Choice) :=
  [.step (.text "c"), .step (.draw 1 0), .step .none, .step .none, .step (.items []),
    .step .none, .step (.draw 2 0), .step (.time 0), .step .none, .step (.draw 3 0),
    .step (.time 0), .step .none, .step (.draw 4 0)] ++ createScript 10 ++
      [.step .none, .step .none]

def twoChatsRequest : Option (TelegramSyncResponse × State Unit) :=
  postgres.outcome () (firstMoves ++ (changeScript 20).dropLast ++ lastMoves)
    (telegramSync chatRuntime {}) (unpolled twoChats)

def twoChatsPoll : Option (Unit × State Unit) :=
  postgres.outcome () pollMoves (syncTelegramMessages chatRuntime {}) (unpolled twoChats)

def redeliveredRequest : Option (TelegramSyncResponse × State Unit) :=
  postgres.outcome () (firstMoves ++ [.step (.time 0), .step .none, .step (.draw 20 0),
    .step .none, .step .none, .step .none, .step (.draws [(22, 0)])] ++ lastMoves)
    (telegramSync chatRuntime {}) (unpolled redelivered)

def redeliveredPoll : Option (Unit × State Unit) :=
  postgres.outcome () pollMoves (syncTelegramMessages chatRuntime {}) (unpolled redelivered)

theorem unpolled_keysHold (result : List Json) : (unpolled result).store.KeysHold := by
  have empty : (∅ : Store).KeysHold := Upserts.keysHold rfl (@Upserts.none ⟨{}, ∅, []⟩)
  exact empty

/-- The request and the poll agree on a message that is delivered twice. -/
theorem redelivered_agrees : ∃ response τ υ,
    postgres.Completes () (telegramSync chatRuntime {}) (unpolled redelivered) response τ ∧
      postgres.Completes () (syncTelegramMessages chatRuntime {}) (unpolled redelivered) () υ ∧
        SameContents τ.store υ.store := by
  have answered : redeliveredRequest.map (fun _ => true) = some true := by decide +kernel
  have polled : redeliveredPoll.map (fun _ => true) = some true := by decide +kernel
  obtain ⟨⟨response, τ⟩, run, _⟩ := Option.map_eq_some_iff.mp answered
  obtain ⟨⟨⟨⟩, υ⟩, run', _⟩ := Option.map_eq_some_iff.mp polled
  have request := Engine.completes_of_outcome run
  have poll := Engine.completes_of_outcome run'
  refine ⟨response, τ, υ, request, poll, ?_⟩
  refine (telegramSync_agrees_iff (unpolled_keysHold _) rfl rfl (fun _ _ => rfl) request poll).mpr ?_
  have texts : ∀ x ∈ TelegramClient.validated chatRuntime redelivered,
      x.message = some { messageId := 7, chat := some ⟨100, none, none⟩, text := some "hi" } := by
    decide
  intro x hx y hy m m' text text' message message' some some' _
  rw [texts x hx] at message
  rw [texts y hy] at message'
  cases message
  cases message'
  cases some
  cases some'
  rfl

/-- The request and the poll disagree on messages of two chats that have the same id. -/
theorem twoChats_disagrees : ∃ response τ υ,
    postgres.Completes () (telegramSync chatRuntime {}) (unpolled twoChats) response τ ∧
      postgres.Completes () (syncTelegramMessages chatRuntime {}) (unpolled twoChats) () υ ∧
        ¬ SameContents τ.store υ.store := by
  have answered : twoChatsRequest.map (fun x =>
      (x.2.store.normalizedEvents.find ("telegram", "7")).map (fun row => (row.content, row.version)))
        = some (some ("[chat:200] hello", 2)) := by decide +kernel
  have polled : twoChatsPoll.map (fun x =>
      (x.2.store.normalizedEvents.find ("telegram", "7")).map (fun row => (row.content, row.version)))
        = some (some ("[chat:100] hi", 1)) := by decide +kernel
  obtain ⟨⟨response, τ⟩, run, last⟩ := Option.map_eq_some_iff.mp answered
  obtain ⟨⟨⟨⟩, υ⟩, run', first⟩ := Option.map_eq_some_iff.mp polled
  refine ⟨response, τ, υ, Engine.completes_of_outcome run, Engine.completes_of_outcome run', ?_⟩
  intro same
  have agreed := same.events ("telegram", "7")
  rw [last, first] at agreed
  exact absurd agreed (by decide)

end Example

end OmniSync
