import OmniSync.Data.Trace
import OmniSync.Events.Transaction
import OmniSync.Github.Webhook
import OmniSync.Integrations.Watermark
import OmniSync.RawPayloads.Content

/-!
# The raw payloads of GitHub events

A poll keeps one raw payload for each page: the kind of its items and their number. A webhook
keeps what it received. So an event can be traced to an item that it was made of if and only if
its raw payload is that of a webhook.
-/

namespace OmniSync

open Txn

namespace Json

/-- The second value occurs somewhere inside the first one. -/
inductive Contains : Json → Json → Prop where
  | here (j : Json) : j.Contains j
  | item {items : List Json} {x inner : Json} (hx : x ∈ items) (h : x.Contains inner) :
      (arr items).Contains inner
  | field {fields : List (String × Json)} {name : String} {x inner : Json}
      (hx : (name, x) ∈ fields) (h : x.Contains inner) : (obj fields).Contains inner

/-- Lists and dictionaries are rebuilt of what their parts become, and texts and integers stay. -/
structure Rebuilds (f : Json → Json) : Prop where
  str : ∀ text, f (.str text) = .str text
  int : ∀ n, f (.int n) = .int n
  arr : ∀ items, f (.arr items) = .arr (items.map f)
  obj : ∀ fields, ∃ fields', f (.obj fields) = .obj fields' ∧
    ∀ name x, (name, x) ∈ fields → (name, f x) ∈ fields'

theorem rebuilds_coerce : Rebuilds coerce where
  str _ := rfl
  int _ := rfl
  arr items := by rw [coerce, coerceItems_eq]
  obj fields := ⟨_, rfl, fun name x hx => by
    rw [coerceFields_eq]
    exact List.mem_map.mpr ⟨(name, x), hx, rfl⟩⟩

theorem rebuilds_jsonb : Rebuilds jsonb where
  str _ := rfl
  int _ := rfl
  arr items := by rw [jsonb, jsonbItems_eq]
  obj fields := ⟨_, rfl, fun name x hx => by
    rw [jsonbFields_eq]
    exact List.mem_map.mpr ⟨(name, x), hx, rfl⟩⟩

theorem rebuilds_sorted : Rebuilds sorted where
  str _ := rfl
  int _ := rfl
  arr items := by rw [sorted, sortedItems_eq]
  obj fields := ⟨_, rfl, fun name x hx => by
    rw [sortedFields_eq, List.mem_insertionSort]
    exact List.mem_map.mpr ⟨(name, x), hx, rfl⟩⟩

theorem Rebuilds.contains {f : Json → Json} (rebuilds : Rebuilds f) {j x : Json}
    (h : j.Contains x) : (f j).Contains (f x) := by
  induction h with
  | here j => exact .here _
  | item hx _ ih =>
      rw [rebuilds.arr]
      exact .item (List.mem_map_of_mem hx) ih
  | @field fields name x inner hx _ ih =>
      obtain ⟨fields', same, kept⟩ := rebuilds.obj fields
      rw [same]
      exact .field (kept name x hx) ih

/-- What sorting the keys makes a dictionary of. -/
theorem sorted_eq_obj {j : Json} {fields : List (String × Json)} (h : j.sorted = .obj fields) :
    ∃ unsorted, j = .obj unsorted ∧
      ∀ name y, (name, y) ∈ fields → ∃ x, (name, x) ∈ unsorted ∧ x.sorted = y := by
  cases j with
  | obj unsorted =>
      rw [sorted, sortedFields_eq, Json.obj.injEq] at h
      refine ⟨unsorted, rfl, fun name y member => ?_⟩
      rw [← h, List.mem_insertionSort, List.mem_map] at member
      obtain ⟨⟨_, x⟩, hx, same⟩ := member
      cases same
      exact ⟨x, hx, rfl⟩
  | _ => cases h

theorem sorted_eq_str {j : Json} {text : String} (h : j.sorted = .str text) : j = .str text := by
  cases j with
  | str text' => exact h
  | _ => cases h

theorem sorted_eq_int {j : Json} {n : Int} (h : j.sorted = .int n) : j = .int n := by
  cases j with
  | int n' => exact h
  | _ => cases h

/-- What occurs in a value with its keys in order is something that occurs in the value. -/
theorem contains_of_sorted {j y : Json} (h : j.sorted.Contains y) :
    ∃ x, j.Contains x ∧ x.sorted = y := by
  generalize same : j.sorted = k at h
  induction h generalizing j with
  | here k => exact ⟨j, .here j, same⟩
  | item hx _ ih =>
      cases j with
      | arr items =>
          rw [sorted, sortedItems_eq, Json.arr.injEq] at same
          rw [← same] at hx
          obtain ⟨x, member, rfl⟩ := List.mem_map.mp hx
          obtain ⟨y, inside, found⟩ := ih rfl
          exact ⟨y, .item member inside, found⟩
      | _ => cases same
  | field hx _ ih =>
      obtain ⟨unsorted, rfl, kept⟩ := sorted_eq_obj same
      obtain ⟨x, member, found⟩ := kept _ _ hx
      obtain ⟨y, inside, found'⟩ := ih found
      exact ⟨y, .field member inside, found'⟩

end Json

namespace GitHubItem

/-- The item occurs in a payload: a commit with its sha and its message, a pull request with
its id and its title. -/
def In (body : Json) : GitHubItem → Prop
  | commit c => ∃ fields inner, body.Contains (.obj fields) ∧ ("sha", .str c.sha) ∈ fields ∧
      ("commit", .obj inner) ∈ fields ∧ ("message", .str c.commit.message) ∈ inner
  | pullRequest pr => ∃ fields, body.Contains (.obj fields) ∧ ("id", .int pr.id) ∈ fields ∧
      ("title", .str pr.title) ∈ fields

def modelDump : GitHubItem → Json
  | commit c => c.modelDump
  | pullRequest pr => pr.modelDump

/-- An item occurs in a payload that holds its dump. -/
theorem in_of_contains {item : GitHubItem} {body : Json} (h : body.Contains item.modelDump) :
    item.In body := by
  cases item with
  | commit c => exact ⟨_, _, h, by simp, .tail _ (.head _), by simp⟩
  | pullRequest pr => exact ⟨_, h, by simp, by simp⟩

/-- The items of a webhook occur in its payload. -/
theorem in_modelDump {item : GitHubItem} {payload : GitHubWebhookPayload}
    (h : item ∈ payload.items) : item.In payload.modelDump := by
  refine in_of_contains ?_
  rcases List.mem_append.mp h with commit | pullRequest
  · obtain ⟨c, hc, rfl⟩ := List.mem_map.mp commit
    cases commits : payload.commits with
    | none =>
        rw [commits] at hc
        exact (List.not_mem_nil hc).elim
    | some cs =>
        rw [commits] at hc
        unfold GitHubWebhookPayload.modelDump
        rw [commits]
        exact .field (.tail _ (.head _)) (.item (List.mem_map_of_mem hc) (.here _))
  · obtain ⟨pr, hpr, rfl⟩ := List.mem_map.mp pullRequest
    unfold GitHubWebhookPayload.modelDump
    rw [Option.mem_toList.mp hpr]
    exact .field (.tail _ (.tail _ (.head _))) (.here _)

theorem contains_pollSummary {type : String} {count : Nat} {fields : List (String × Json)}
    (h : (pollSummary type count).Contains (.obj fields)) :
    fields = [("type", .str type), ("count", .int count)] := by
  cases h with
  | here => rfl
  | field hx h =>
      rcases List.mem_cons.mp hx with first | rest
      · cases first
        cases h
      · rw [List.mem_singleton] at rest
        cases rest
        cases h

/-- No item occurs in the summary of a page. -/
theorem not_in_pollSummary (item : GitHubItem) (type : String) (count : Nat) :
    ¬ item.In (pollSummary type count) := by
  cases item with
  | commit c =>
      rintro ⟨fields, inner, contains, sha, _⟩
      rw [contains_pollSummary contains] at sha
      simp at sha
  | pullRequest pr =>
      rintro ⟨fields, contains, id, _⟩
      rw [contains_pollSummary contains] at id
      simp at id

/-- An item still occurs when the payload has been rebuilt. -/
theorem In.rebuilt {item : GitHubItem} {body : Json} {f : Json → Json} (h : item.In body)
    (rebuilds : Json.Rebuilds f) : item.In (f body) := by
  cases item with
  | commit c =>
      obtain ⟨fields, inner, contains, sha, commit, message⟩ := h
      obtain ⟨fields', same, kept⟩ := rebuilds.obj fields
      obtain ⟨inner', same', kept'⟩ := rebuilds.obj inner
      refine ⟨fields', inner', same ▸ rebuilds.contains contains, ?_, ?_, ?_⟩
      · exact rebuilds.str _ ▸ kept _ _ sha
      · exact same' ▸ kept _ _ commit
      · exact rebuilds.str _ ▸ kept' _ _ message
  | pullRequest pr =>
      obtain ⟨fields, contains, id, title⟩ := h
      obtain ⟨fields', same, kept⟩ := rebuilds.obj fields
      refine ⟨fields', same ▸ rebuilds.contains contains, ?_, ?_⟩
      · exact rebuilds.int _ ▸ kept _ _ id
      · exact rebuilds.str _ ▸ kept _ _ title

/-- The order of the keys does not matter for what occurs. -/
theorem in_sorted_iff {item : GitHubItem} {body : Json} : item.In body.sorted ↔ item.In body := by
  refine ⟨fun h => ?_, fun h => h.rebuilt Json.rebuilds_sorted⟩
  cases item with
  | commit c =>
      obtain ⟨fields, inner, contains, sha, commit, message⟩ := h
      obtain ⟨j, inside, same⟩ := Json.contains_of_sorted contains
      obtain ⟨unsorted, rfl, kept⟩ := Json.sorted_eq_obj same
      obtain ⟨x, hx, sha'⟩ := kept _ _ sha
      obtain rfl := Json.sorted_eq_str sha'
      obtain ⟨y, hy, commit'⟩ := kept _ _ commit
      obtain ⟨unsorted', rfl, kept'⟩ := Json.sorted_eq_obj commit'
      obtain ⟨z, hz, message'⟩ := kept' _ _ message
      obtain rfl := Json.sorted_eq_str message'
      exact ⟨unsorted, unsorted', inside, hx, hy, hz⟩
  | pullRequest pr =>
      obtain ⟨fields, contains, id, title⟩ := h
      obtain ⟨j, inside, same⟩ := Json.contains_of_sorted contains
      obtain ⟨unsorted, rfl, kept⟩ := Json.sorted_eq_obj same
      obtain ⟨x, hx, id'⟩ := kept _ _ id
      obtain rfl := Json.sorted_eq_int id'
      obtain ⟨y, hy, title'⟩ := kept _ _ title
      obtain rfl := Json.sorted_eq_str title'
      exact ⟨unsorted, inside, hx, hy⟩

end GitHubItem

/-- The payload and the event of a row have an item in common: the payload is loaded, and the item
that occurs in it has the key and the content of the event. -/
def NormalizedEvent.Traced (settings : Settings) (dialect : Dialect) (τ : State Unit)
    (row : NormalizedEvent) : Prop :=
  ∃ p ∈ τ.store.rawPayloads, row.rawPayloadId = some p.id ∧
    ∃ body, loadPayloadContent settings τ.world.objectStore (p.read dialect) = some body ∧
      ∃ item : GitHubItem, item.key = row.key ∧ item.content = row.content ∧ item.In body

/-- The payload of an event was kept under a source. -/
def NormalizedEvent.From (source : String) (s : Store) (row : NormalizedEvent) : Prop :=
  ∃ p ∈ s.rawPayloads, row.rawPayloadId = some p.id ∧ p.source = source

/-- What is known of a payload: one of a poll is a summary, and one of a webhook is that of a
webhook that was received. -/
structure RawPayload.Recorded (rt : Runtime) (settings : Settings)
    (Received : GitHubWebhookPayload → Prop) (objects : List (String × Json)) (p : RawPayload) :
    Prop where
  poll : p.source = "github_poll" → p.Summary rt settings
  webhook : p.source = "github_webhook" → ∃ payload, Received payload ∧
    p.Keeps rt settings "github_webhook" payload.modelDump objects

/-- The event comes from a poll, or from a webhook that was received and has an item with its key
and its content. -/
def NormalizedEvent.Origin (rt : Runtime) (Received : GitHubWebhookPayload → Prop)
    (row : NormalizedEvent) (p : RawPayload) : Prop :=
  p.OfPoll ∨ ∃ payload, Received payload ∧ p.OfWebhook rt payload ∧
    ∃ item ∈ payload.items, item.key = row.key ∧ item.content = row.content

/-- Between the steps: the payloads are as recorded, and every GitHub event has an origin. -/
structure LineageKept (rt : Runtime) (settings : Settings)
    (Received : GitHubWebhookPayload → Prop) (σ : State Unit) : Prop where
  ids : σ.store.EventIdsUnique
  payloads : ∀ p ∈ σ.store.rawPayloads, p.Recorded rt settings Received σ.world.objects
  events : ∀ row ∈ σ.store.normalizedEvents, row.source = "github" →
    ∃ p ∈ σ.store.rawPayloads, row.rawPayloadId = some p.id ∧ row.Origin rt Received p
  polled : ∀ o ∈ σ.world.objects, Polled o.1 →
    ∃ type count, o.2 = rt.jsonSafe (pollSummary type count)

section Kept

variable {lib : DatetimeLib} {rt : Runtime} {settings : Settings} {σ τ : State Unit}
variable {Received Received' : GitHubWebhookPayload → Prop}
variable {objects objects' : List (String × Json)}
variable {Kept Added : RawPayload → Prop} {correlationId : String} {items : List GitHubItem}
variable {made : List NormalizedEventCreate} {plan : UpsertPlan} {ws : List Write}

theorem RawPayload.Recorded.mono {p : RawPayload} (h : p.Recorded rt settings Received objects)
    (received : ∀ payload, Received payload → Received' payload)
    (put : ∀ o ∈ objects, o ∈ objects') : p.Recorded rt settings Received' objects' := by
  refine ⟨h.poll, fun source => ?_⟩
  obtain ⟨payload, known, keeps⟩ := h.webhook source
  exact ⟨payload, received payload known, keeps.mono put⟩

/-- More webhooks have been received. -/
theorem LineageKept.mono (h : LineageKept rt settings Received σ)
    (received : ∀ payload, Received payload → Received' payload) :
    LineageKept rt settings Received' σ := by
  refine ⟨h.ids, fun p hp => (h.payloads p hp).mono received (fun _ member => member), ?_, h.polled⟩
  intro row hr source
  obtain ⟨p, hp, id, origin⟩ := h.events row hr source
  refine ⟨p, hp, id, origin.imp_right ?_⟩
  rintro ⟨payload, known, made⟩
  exact ⟨payload, received payload known, made⟩

theorem LineageKept.tick (h : LineageKept rt settings Received σ) (c : Clock) :
    LineageKept rt settings Received (withClock σ c) :=
  ⟨h.ids, h.payloads, h.events, h.polled⟩

/-- An object is put into the object store. One of a poll is a summary. -/
theorem LineageKept.put (h : LineageKept rt settings Received σ) {key : String} {body : Json}
    (summary : Polled key → ∃ type count, body = rt.jsonSafe (pollSummary type count)) :
    LineageKept rt settings Received (withObject σ key body) := by
  refine ⟨h.ids, fun p hp => (h.payloads p hp).mono (fun _ known => known) ?_, h.events, ?_⟩
  · exact fun o member => List.mem_append_left _ member
  · intro o member polled
    rcases List.mem_append.mp member with old | new
    · exact h.polled o old polled
    · rw [List.mem_singleton.mp new] at polled ⊢
      exact summary polled

theorem LineageKept.logs (h : LineageKept rt settings Received σ) (only : OnlyLogs ws) :
    LineageKept rt settings Received (postgres.publish σ () ws) := by
  have content := sameContent_of_onlyLogs (s := σ.store) only
  refine ⟨?_, ?_, ?_, h.polled⟩
  · unfold Store.EventIdsUnique
    rw [Engine.publish_store, content.normalizedEvents]
    exact h.ids
  · rw [Engine.publish_store, content.rawPayloads]
    exact h.payloads
  · rw [Engine.publish_store, content.normalizedEvents, content.rawPayloads]
    exact h.events

/-- The payloads that are seen were stored, or they are pending. -/
theorem mem_rawPayloads_of_view {s : Store} {p : RawPayload}
    (hp : p ∈ (postgres.view s ws).rawPayloads) : p ∈ s.rawPayloads ∨ .addRawPayload p ∈ ws := by
  induction ws generalizing s with
  | nil => exact .inl hp
  | cons w ws ih =>
      rcases ih hp with stored | pending
      · cases w with
        | addRawPayload row =>
            rcases Table.mem_of_mem_add stored with old | rfl
            · exact .inl old
            · exact .inr List.mem_cons_self
        | _ => exact .inl stored
      · exact .inr (List.mem_cons_of_mem _ pending)

/-- Items are stored whose payloads are as recorded, and their events have an origin. -/
theorem LineageKept.stored (h : LineageKept rt settings Received τ)
    (stored : ItemsStored lib Kept Added correlationId items made plan τ.store ws)
    (recorded : ∀ p, Added p → p.Recorded rt settings Received τ.world.objects)
    (origin : ∀ p, Kept p → ∀ row : NormalizedEvent,
      (∃ item ∈ items, item.key = row.key ∧ item.content = row.content) →
        row.Origin rt Received p) :
    LineageKept rt settings Received (postgres.publish τ () (ws ++ plan.writes)) := by
  refine ⟨stored.pending h.ids, fun p hp => ?_, fun row hr source => ?_, h.polled⟩
  · rcases mem_rawPayloads_of_view hp with old | new
    · exact h.payloads p old
    · exact recorded p (stored.added p new)
  · have found := Table.find_eq_some_iff.mpr ⟨hr, rfl⟩
    rw [Engine.publish_store] at found ⊢
    by_cases known : ∃ item ∈ items, item.key = row.key
    · obtain ⟨item, hi, key⟩ := known
      obtain ⟨row', payload, found', member, kept, id, made⟩ := stored.event hi
      rw [key] at found' made
      obtain rfl : row' = row := Option.some.inj (found'.symm.trans found)
      exact ⟨payload, member, id, origin payload kept row' made⟩
    · rw [stored.find_other (fun item hi key => known ⟨item, hi, key⟩)] at found
      obtain ⟨p, hp, id, old⟩ := h.events row (Table.find_eq_some_iff.mp found).1 source
      exact ⟨p, mem_view_rawPayloads hp, id, old⟩

theorem lineage_keptByPolls : KeptByPolls rt (LineageKept rt settings Received) where
  ids _ h := h.ids
  saves _ type count := ⟨fun _ c h => h.tick c, fun _ _ h => h.put (fun _ => ⟨type, count, rfl⟩)⟩
  logs _ _ only h := h.logs only

theorem lineage_commitsPolls (s : Store) (items : List GitHubItem) :
    CommitsPolls lib rt settings (LineageKept rt settings Received) s items := by
  intro _ _ _ _ τ _ stored h
  refine h.stored stored (fun p summary => ⟨fun _ => summary, fun source => ?_⟩)
    (fun p kept _ _ => .inl kept)
  rw [summary.source] at source
  exact absurd source (by decide)

/-- An object of a webhook is none of a poll. -/
theorem not_polled_webhook (t : Time) :
    ¬ Polled (objectKey rt "github_webhook" correlationId t) := by
  unfold Polled objectKey
  simp only [String.toList_append, List.append_assoc]
  rintro ⟨rest, same⟩
  have seventh : some 'p' = some 'w' := congrArg (fun text => text[7]?) same
  cases seventh

theorem lineage_keptByWebhook (body : String) :
    KeptByWebhook rt body (LineageKept rt settings Received) where
  ids _ h := h.ids
  ticks _ c h := h.tick c
  saves _ _ _ := ⟨fun _ c h => h.tick c,
    fun _ t h => h.put (fun polled => (not_polled_webhook t polled).elim)⟩

theorem lineage_commitsWebhook {payload : GitHubWebhookPayload} (known : Received payload)
    (s : Store) :
    CommitsWebhook lib rt settings (LineageKept rt settings Received) s payload := by
  intro _ _ _ _ τ _ stored h
  refine h.stored stored (fun p keeps => ⟨fun source => ?_, fun _ => ⟨payload, known, keeps⟩⟩)
    (fun p kept _ made => .inr ⟨payload, known, kept, made⟩)
  rw [keeps.columns.1] at source
  exact absurd source (by decide)

end Kept

/-- What the addresses of the objects are relied on for: the bucket has no slash, the endpoint
occurs in no bucket and key, and no key has been used twice. -/
structure Addressable (settings : Settings) (τ : State Unit) : Prop where
  slash : '/' ∉ settings.S3_BUCKET.toList
  apart : ∀ p ∈ τ.store.rawPayloads, ∀ key, p.storageUrl = some (objectUrl settings key) →
    ¬ settings.S3_ENDPOINT_URL.toList <:+: (settings.S3_BUCKET ++ "/" ++ key).toList
  once : (τ.world.objects.map Prod.fst).Nodup

section Loaded

variable {rt : Runtime} {settings : Settings} {τ : State Unit} {dialect : Dialect}
variable {Received : GitHubWebhookPayload → Prop} {p : RawPayload} {body : Json}
variable {payload : GitHubWebhookPayload} {item : GitHubItem} {row : NormalizedEvent}

/-- What is loaded for a row that has an address is the object there. -/
theorem Addressable.loaded (addressable : Addressable settings τ) (hp : p ∈ τ.store.rawPayloads)
    {key : String} (url : p.storageUrl = some (objectUrl settings key)) :
    loadPayloadContent settings τ.world.objectStore (p.read dialect) =
      lastWrite Prod.fst Prod.snd τ.world.objects key := by
  rw [RawPayload.loaded_objectStore url,
    getObject_objectUrl addressable.slash (addressable.apart p hp key url)]
  unfold World.objectStore
  cases lastWrite Prod.fst Prod.snd τ.world.objects key <;> rfl

/-- What is loaded for a payload of a poll is a summary. -/
theorem LineageKept.loaded_poll (json : JsonLib rt) (kept : LineageKept rt settings Received τ)
    (addressable : Addressable settings τ) (hp : p ∈ τ.store.rawPayloads)
    (source : p.source = "github_poll")
    (loaded : loadPayloadContent settings τ.world.objectStore (p.read dialect) = some body) :
    ∃ type count, body = pollSummary type count := by
  have summary := (kept.payloads p hp).poll source
  have coerced : ∀ type count, rt.jsonSafe (pollSummary type count) = pollSummary type count :=
    fun type count => json.safe _
  cases url : p.storageUrl with
  | none =>
      rw [RawPayload.loaded_database url] at loaded
      obtain ⟨stored, same, rfl⟩ := Option.map_eq_some_iff.mp loaded
      obtain ⟨type, count, rfl⟩ := summary.body stored same
      refine ⟨type, count, ?_⟩
      rw [coerced]
      cases dialect <;> rfl
  | some address =>
      obtain ⟨key, rfl, polled⟩ := summary.url address url
      rw [addressable.loaded hp url] at loaded
      obtain ⟨o, ho, rfl, rfl⟩ := exists_of_lastWrite _ _ loaded
      obtain ⟨type, count, same⟩ := kept.polled o ho polled
      exact ⟨type, count, same.trans (coerced type count)⟩

/-- What is loaded for a payload of a webhook is the payload, or what a column makes of it. -/
theorem RawPayload.Keeps.loaded (json : JsonLib rt) {j : Json}
    (keeps : p.Keeps rt settings "github_webhook" j τ.world.objects)
    (addressable : Addressable settings τ) (hp : p ∈ τ.store.rawPayloads) :
    ∃ body, loadPayloadContent settings τ.world.objectStore (p.read dialect) = some body ∧
      (body = j.coerce ∨ body = JSONBType.column dialect j.coerce) := by
  rcases keeps.body with ⟨stored, url⟩ | ⟨key, url, put⟩
  · refine ⟨_, ?_, .inr rfl⟩
    rw [RawPayload.loaded_database url, stored, json.safe]
    rfl
  · refine ⟨_, ?_, .inl rfl⟩
    rw [addressable.loaded hp url, ← json.safe]
    exact lastWrite_of_nodup _ _ addressable.once put

/-- What occurs in a payload occurs in what is loaded for another one with its canonical JSON. -/
theorem GitHubItem.In.loaded {j k : Json} (h : item.In j) (hj : j.Serializable)
    (hk : k.Serializable) (same : k.canonical = j.canonical)
    (loaded : body = k.coerce ∨ body = JSONBType.column dialect k.coerce) : item.In body := by
  have coerced : item.In k.coerce := by
    have equal := (Json.canonical_eq_iff hk hj).mp same
    rw [← in_sorted_iff, equal, in_sorted_iff]
    exact h.rebuilt Json.rebuilds_coerce
  rcases loaded with rfl | rfl
  · exact coerced
  · cases dialect with
    | postgresql => exact coerced.rebuilt Json.rebuilds_jsonb
    | other => exact coerced

/-- An event is traced if and only if its payload is that of a webhook. -/
theorem LineageKept.traced_iff (json : JsonLib rt) (kept : LineageKept rt settings Received τ)
    (addressable : Addressable settings τ)
    (serializable : ∀ payload, Received payload → payload.modelDump.Serializable)
    (collisionFree : ∀ payload payload', Received payload → Received payload' →
      rt.canonicalHash payload.modelDump = rt.canonicalHash payload'.modelDump →
        payload.modelDump.canonical = payload'.modelDump.canonical)
    (hr : row ∈ τ.store.normalizedEvents) (source : row.source = "github") :
    row.Traced settings dialect τ ↔ row.From "github_webhook" τ.store := by
  obtain ⟨p, hp, id, origin⟩ := kept.events row hr source
  have only : ∀ q ∈ τ.store.rawPayloads, row.rawPayloadId = some q.id → q = p := fun q hq id' =>
    Table.eq_of_key_eq hq hp (Option.some.inj (id'.symm.trans id))
  constructor
  · rintro ⟨q, hq, id', body, loaded, item, _, _, occurs⟩
    obtain rfl := only q hq id'
    rcases origin with poll | ⟨payload, _, webhook, _⟩
    · obtain ⟨type, count, rfl⟩ := kept.loaded_poll json addressable hp poll loaded
      exact (item.not_in_pollSummary type count occurs).elim
    · exact ⟨q, hp, id, webhook.1⟩
  · rintro ⟨q, hq, id', webhook⟩
    obtain rfl := only q hq id'
    rcases origin with poll | ⟨payload, known, own, item, hi, key, content⟩
    · exact absurd (poll.symm.trans webhook) (by decide)
    · obtain ⟨first, known', keeps⟩ := (kept.payloads q hp).webhook webhook
      have hash := Option.some.inj (keeps.columns.2.symm.trans own.2)
      obtain ⟨body, loaded, rebuilt⟩ : ∃ body,
          loadPayloadContent settings τ.world.objectStore (q.read dialect) = some body ∧
            (body = first.modelDump.coerce ∨
              body = JSONBType.column dialect first.modelDump.coerce) :=
        keeps.loaded json addressable hp
      exact ⟨q, hp, id, body, loaded, item, key, content,
        (GitHubItem.in_modelDump hi).loaded (serializable payload known)
          (serializable first known') (collisionFree first payload known' known hash) rebuilt⟩

end Loaded

/-- What happens: a poll returns, a webhook is processed, or one of them comes to a state and gets
no further, whether it is a crash, a failure or the answer to a duplicate. -/
inductive LineageEvent where
  | poll (path : GitHubPath) (server : GitHubServer)
  | interruptedPoll (path : GitHubPath) (server : GitHubServer)
  | webhook (body : String) (signature deliveryHeader : Option String) (eventsCreated : Nat)
  | interruptedWebhook (body : String) (signature deliveryHeader : Option String)

namespace LineageEvent

/-- The webhook was received with this payload. -/
def Receives (rt : Runtime) (payload : GitHubWebhookPayload) : LineageEvent → Prop
  | webhook body _ _ _ | interruptedWebhook body _ _ => rt.validateWebhook body = .ok payload
  | _ => False

/-- The items of a poll or of a webhook that finds a store. -/
def items (rt : Runtime) (s : Store) : LineageEvent → List GitHubItem
  | poll path server => path.items rt server s
  | webhook body _ _ _ =>
      ((rt.validateWebhook body).toOption.map GitHubWebhookPayload.items).getD []
  | _ => []

/-- The source of the payloads that it keeps. -/
def source : LineageEvent → String
  | poll _ _ | interruptedPoll _ _ => "github_poll"
  | webhook _ _ _ _ | interruptedWebhook _ _ _ => "github_webhook"

def Happens (lib : DatetimeLib) (rt : Runtime) (settings : Settings) (webhooks : WebhookSettings)
    (σ : State Unit) : LineageEvent → State Unit → Prop
  | poll path server, τ => path.Configured ∧
      postgres.Completes () (path.prog lib rt settings) (σ.facing server.remote) () τ
  | interruptedPoll path server, τ => path.Configured ∧
      postgres.Visits () (path.prog lib rt settings) (σ.facing server.remote) τ
  | webhook body signature deliveryHeader eventsCreated, τ =>
      postgres.Completes () (githubWebhook lib rt settings webhooks body signature deliveryHeader)
        σ (.processed eventsCreated) τ
  | interruptedWebhook body signature deliveryHeader, τ =>
      postgres.Visits () (githubWebhook lib rt settings webhooks body signature deliveryHeader) σ τ

end LineageEvent

section Lineage

variable {lib : DatetimeLib} {rt : Runtime} {settings : Settings} {webhooks : WebhookSettings}
variable {σ τ start last : State Unit} {steps : List (Taken (State Unit) LineageEvent)}
variable {server : GitHubServer} {path : GitHubPath} {Received : GitHubWebhookPayload → Prop}

/-- What a poll leaves that returns. -/
theorem GitHubPath.left (configured : path.Configured) (kept : LineageKept rt settings Received σ)
    (h : postgres.Completes () (path.prog lib rt settings) (σ.facing server.remote) () τ) :
    LineageKept rt settings Received τ ∧
      PollLeft lib rt settings (path.items rt server σ.store) σ.store τ.store := by
  have begin : LineageKept rt settings Received (σ.facing server.remote) :=
    ⟨kept.ids, kept.payloads, kept.events, kept.polled⟩
  have remote : (σ.facing server.remote).world.remote = server.remote := rfl
  have left := GitHubPath.completes configured lineage_keptByPolls remote
    (lineage_commitsPolls _ _) begin h
  exact left

theorem webhook_wp {body : String} {signature deliveryHeader : Option String}
    (known : ∀ payload, rt.validateWebhook body = .ok payload → Received payload) :
    wp (alone (LineageKept rt settings Received) (fun _ _ _ => True)) ()
      (githubWebhook lib rt settings webhooks body signature deliveryHeader)
      (fun r τ _ => ∀ n, r = .ok (.processed n) → ∃ payload,
        rt.validateWebhook body = .ok payload ∧
          WebhookLeft lib rt settings payload σ.store τ.store) σ [] :=
  wp_githubWebhook (lineage_keptByWebhook body)
    (fun payload valid => lineage_commitsWebhook (known payload valid) _)

/-- What a step leaves: the events of its items come from it. -/
theorem LineageEvent.Happens.left {event : LineageEvent}
    (kept : LineageKept rt settings Received σ)
    (known : ∀ payload, event.Receives rt payload → Received payload)
    (h : event.Happens lib rt settings webhooks σ τ) :
    LineageKept rt settings Received τ ∧ ∀ item ∈ event.items rt σ.store, ∃ row,
      τ.store.normalizedEvents.find item.key = some row ∧ row.From event.source τ.store := by
  have none : ∀ item ∈ ([] : List GitHubItem), ∃ row,
      τ.store.normalizedEvents.find item.key = some row ∧ row.From event.source τ.store :=
    fun item hi => (List.not_mem_nil hi).elim
  cases event with
  | poll path server =>
      obtain ⟨after, left⟩ := GitHubPath.left h.1 kept h.2
      refine ⟨after, fun item hi => ?_⟩
      obtain ⟨row, payload, found, stored, source, id, _⟩ := left.event hi
      exact ⟨row, found, payload, stored, id, source⟩
  | interruptedPoll path server =>
      have begin : LineageKept rt settings Received (σ.facing server.remote) :=
        ⟨kept.ids, kept.payloads, kept.events, kept.polled⟩
      have remote : (σ.facing server.remote).world.remote = server.remote := rfl
      have verified : wp (alone (LineageKept rt settings Received) (fun _ _ _ => True)) ()
          (path.prog lib rt settings) (fun _ _ _ => True) (σ.facing server.remote) [] :=
        wp_mono (GitHubPath.wp_prog h.1 lineage_keptByPolls remote (lineage_commitsPolls _ _))
          (fun _ _ _ _ => trivial)
      exact ⟨wp_visits _ (fun _ _ _ => trivial) begin verified h.2, none⟩
  | webhook body signature deliveryHeader n =>
      obtain ⟨after, stored⟩ :=
        wp_completes (alone (LineageKept rt settings Received) (fun _ _ _ => True))
          (Q := fun response τ => ∀ n, response = .processed n → ∃ payload,
            rt.validateWebhook body = .ok payload ∧
              WebhookLeft lib rt settings payload σ.store τ.store)
          (fun _ _ _ => trivial) (fun left rely => by rwa [alone_store rely]) kept
          (wp_mono (webhook_wp known) (fun r τ _ left response same n processed =>
            left n (by rw [same, processed]))) h
      refine ⟨after, fun item hi => ?_⟩
      obtain ⟨payload, valid, objects, left⟩ := stored n rfl
      rw [LineageEvent.items, valid] at hi
      obtain ⟨row, p, found, here, own, id, _⟩ := left.event hi
      exact ⟨row, found, p, here, id, own.1⟩
  | interruptedWebhook body signature deliveryHeader =>
      have verified : wp (alone (LineageKept rt settings Received) (fun _ _ _ => True)) ()
          (githubWebhook lib rt settings webhooks body signature deliveryHeader)
          (fun _ _ _ => True) σ [] := wp_mono (webhook_wp known) (fun _ _ _ _ => trivial)
      exact ⟨wp_visits _ (fun _ _ _ => trivial) kept verified h, none⟩

/-- One of the steps received the payload. -/
def ReceivedIn (rt : Runtime) (steps : List (Taken (State Unit) LineageEvent))
    (payload : GitHubWebhookPayload) : Prop :=
  ∃ x ∈ steps, x.label.Receives rt payload

theorem lineageKept_empty (store : start.store = ∅) (objects : start.world.objects = []) :
    LineageKept rt settings Received start := by
  constructor
  · unfold Store.EventIdsUnique
    rw [store]
    exact fun x hx => (List.not_mem_nil hx).elim
  · rw [store]
    exact fun p hp => (List.not_mem_nil hp).elim
  · rw [store]
    exact fun row hr => (List.not_mem_nil hr).elim
  · rw [objects]
    exact fun o ho => (List.not_mem_nil ho).elim

/-- Whatever polls and webhooks have run, and however far: an event can be traced to an item of
its payload if and only if the payload is that of a webhook. The events of a poll are those of its
summaries, and the events of a webhook are those of its payload. -/
theorem events_traced_iff (json : JsonLib rt) (store : start.store = ∅)
    (objects : start.world.objects = [])
    (run : Trace (fun σ event τ => LineageEvent.Happens lib rt settings webhooks σ event τ) start
      steps last)
    (serializable : ∀ payload, ReceivedIn rt steps payload → payload.modelDump.Serializable)
    (collisionFree : ∀ payload payload', ReceivedIn rt steps payload →
      ReceivedIn rt steps payload' →
        rt.canonicalHash payload.modelDump = rt.canonicalHash payload'.modelDump →
          payload.modelDump.canonical = payload'.modelDump.canonical)
    (addressable : Addressable settings last) (dialect : Dialect) :
    (∀ row ∈ last.store.normalizedEvents, row.source = "github" →
      (row.Traced settings dialect last ↔ row.From "github_webhook" last.store)) ∧
    ∀ x ∈ steps, ∀ item ∈ x.label.items rt x.before.store, ∃ row,
      x.after.store.normalizedEvents.find item.key = some row ∧
        row.From x.label.source x.after.store := by
  have initial : LineageKept rt settings (ReceivedIn rt steps) start :=
    lineageKept_empty store objects
  have known : ∀ x ∈ steps, ∀ payload, x.label.Receives rt payload → ReceivedIn rt steps payload :=
    fun x hx payload received => ⟨x, hx, received⟩
  obtain ⟨kept, each⟩ := run.forall_of_met initial
    (fun kept taken known => (LineageEvent.Happens.left kept known taken).1) known
  refine ⟨fun row hr source => ?_, fun x hx => ?_⟩
  · exact kept.traced_iff json addressable serializable collisionFree hr source
  · obtain ⟨before, taken⟩ := each x hx
    exact (LineageEvent.Happens.left before (known x hx) taken).2

end Lineage

section Example

def omnisyncEnv : GitHubEnv := ⟨"leakull", "omnisync"⟩

def firstCommit : GitHubCommitData := { sha := "a1", commit := { id := "a1", message := "Start" } }

/-- A server whose repositories have one commit. -/
def oneCommitServer : GitHubServer := ⟨fun _ _ _ => [firstCommit], fun _ _ => []⟩

/-- A poll that finds one commit. -/
def firstCommitPoll (rt : Runtime) : Option (Unit × State Unit) :=
  postgres.outcome ()
    ([.step (.text "c"), .step (.draw 1 0), .step .none, .step .none, .step (.commits []),
      .step .none, .step (.draw 2 0), .step (.time 0)] ++ createScript 3 ++
      [.step .none, .step .none])
    ((GitHubPath.commits omnisyncEnv).prog (calendar mayDays) rt {})
    (State.facing ⟨{}, ∅, []⟩ oneCommitServer.remote)

/-- The digests of the summaries of pages with one or two items. -/
def summarySha256 : Json → String
  | .obj [("type", .str "commits"), ("count", .int 1)] =>
      "e74e75c36d9141350cb444684b7834a37594b1abea94ee58dac7876b66b91136"
  | .obj [("type", .str "commits"), ("count", .int 2)] =>
      "ec9afcdb6ea21305a920dc5fcc686f30b3e7d5025626bfef92b26d3f8ed3febc"
  | .obj [("type", .str "pull_requests"), ("count", .int 1)] =>
      "ab078611fefd35f180db19f2796e336b0fd4f8ebc21de6c0eb90764af044a4cb"
  | _ => ""

def summaryRuntime : Runtime := textRuntime summarySha256

def secondCommit : GitHubCommitData := { sha := "b2", commit := { id := "b2", message := "Fix" } }

/-- What a push of it sends, as far as it is read. -/
def push : GitHubWebhookPayload := { commits := some [secondCommit] }

def pushText : String :=
  "\x7b\"commits\":[\x7b\"sha\":\"b2\",\"commit\":\x7b\"id\":\"b2\",\"message\":\"Fix\"\x7d\x7d]\x7d"

/-- The digests of the summary of a page with one commit and of the push, and of nothing else. -/
def pageSha256 (text : String) : String :=
  if text = (pollSummary "commits" 1).canonical then
    "e74e75c36d9141350cb444684b7834a37594b1abea94ee58dac7876b66b91136"
  else if text = push.modelDump.canonical then
    "ee7ab57608c3f1e15107825d7433e159ea7b8f7e59948f3732819851a725f7a9"
  else ""

def pushRuntime : Runtime :=
  { textRuntime (fun j => pageSha256 j.canonical) with
    validateWebhook := fun body =>
      if body = pushText then .ok push else .error ⟨"ValidationError", "Invalid JSON"⟩ }

theorem pushRuntime_jsonLib : JsonLib pushRuntime :=
  { textRuntime_jsonLib pageSha256 with }

def unsigned : WebhookSettings where
  hmacSha256 secret body := secret ++ body

/-- The first commit is polled, and then the second one is pushed. -/
def polledAndPushed : Option (State Unit × WebhookResponse × State Unit) :=
  (firstCommitPoll pushRuntime).bind (fun polled =>
    (postgres.outcome ()
      ([.step (.text "d"), .step (.draw 11 0), .step .none, .step (.draw 12 0), .step (.time 0)] ++
        createScript 13 ++ [.step .none, .step .none])
      (githubWebhook (calendar mayDays) pushRuntime {} unsigned pushText none none)
      polled.2).map (fun pushed => (polled.2, pushed)))

theorem push_serializable : push.modelDump.Serializable := by
  have text : ∀ t, (Json.str t).Serializable := fun t => .leaf rfl (fun _ => nofun)
  have null : Json.null.Serializable := .leaf rfl (fun _ => nofun)
  have commit : secondCommit.commit.modelDump.Serializable :=
    .obj (List.forall_mem_cons.mpr ⟨text _, List.forall_mem_cons.mpr ⟨text _,
      List.forall_mem_cons.mpr ⟨null, List.forall_mem_singleton.mpr null⟩⟩⟩)
  have item : secondCommit.modelDump.Serializable :=
    .obj (List.forall_mem_cons.mpr ⟨text _, List.forall_mem_cons.mpr ⟨commit,
      List.forall_mem_cons.mpr ⟨null, List.forall_mem_singleton.mpr null⟩⟩⟩)
  exact .obj (List.forall_mem_cons.mpr ⟨null, List.forall_mem_cons.mpr
    ⟨.arr (List.forall_mem_singleton.mpr item), List.forall_mem_cons.mpr ⟨null,
      List.forall_mem_cons.mpr ⟨null, List.forall_mem_cons.mpr ⟨null,
        List.forall_mem_singleton.mpr null⟩⟩⟩⟩⟩)

/-- The run of the poll, which ends in `σ`, and of the push. -/
def pollAndPush (σ τ : State Unit) : List (Taken (State Unit) LineageEvent) :=
  [⟨⟨{}, ∅, []⟩, .poll (.commits omnisyncEnv) oneCommitServer, σ⟩,
    ⟨σ, .webhook pushText none none 1, τ⟩]

theorem trace_of_polledAndPushed {σ τ : State Unit}
    (h : polledAndPushed = some (σ, .processed 1, τ)) :
    Trace (fun σ event τ => LineageEvent.Happens (calendar mayDays) pushRuntime {} unsigned σ
      event τ) ⟨{}, ∅, []⟩ (pollAndPush σ τ) τ := by
  obtain ⟨⟨_, υ⟩, poll, rest⟩ := Option.bind_eq_some_iff.mp h
  obtain ⟨⟨_, τ'⟩, webhook, same⟩ := Option.map_eq_some_iff.mp rest
  cases same
  have configured : (GitHubPath.commits omnisyncEnv).Configured := by
    change ¬ ("leakull" = "" ∨ "omnisync" = "")
    decide
  exact .concat (.concat .nil ⟨configured, Engine.completes_of_outcome poll⟩)
    (Engine.completes_of_outcome webhook)

theorem received_pollAndPush {σ τ : State Unit} {payload : GitHubWebhookPayload}
    (h : ReceivedIn pushRuntime (pollAndPush σ τ) payload) : payload = push := by
  obtain ⟨x, hx, received⟩ := h
  rcases List.mem_cons.mp hx with rfl | hx
  · exact received.elim
  · rw [List.mem_singleton.mp hx] at received
    exact (Except.ok.inj received).symm

/-- Only the event of the push can be traced. -/
theorem only_push_traced : ∃ τ polled pushed, polledAndPushed.map (fun x => x.2.2) = some τ ∧
    τ.store.normalizedEvents.find ("github", "a1") = some polled ∧
      ¬ polled.Traced {} .postgresql τ ∧
        τ.store.normalizedEvents.find ("github", "b2") = some pushed ∧
          pushed.Traced {} .postgresql τ := by
  have shape : polledAndPushed.map (fun x =>
      (decide (x.2.1 = .processed 1), x.2.2.world.objects.map Prod.fst)) = some (true, []) := by
    decide +kernel
  have payloads : polledAndPushed.map (fun x =>
      x.2.2.store.rawPayloads.rows.map (fun p => (p.id, p.source, p.storageUrl))) =
        some [(2, "github_poll", none), (12, "github_webhook", none)] := by decide +kernel
  have events : polledAndPushed.map (fun x =>
      ((x.2.2.store.normalizedEvents.find ("github", "a1")).map NormalizedEvent.rawPayloadId,
        (x.2.2.store.normalizedEvents.find ("github", "b2")).map NormalizedEvent.rawPayloadId)) =
          some (some (some 2), some (some 12)) := by decide +kernel
  obtain ⟨⟨σ, response, τ⟩, all, seen⟩ := Option.map_eq_some_iff.mp shape
  obtain ⟨processed, objects⟩ := Prod.mk.inj seen
  rw [all] at payloads events ⊢
  obtain ⟨first, second⟩ := Prod.mk.inj (Option.some.inj events)
  obtain ⟨polled, found, polledId⟩ := Option.map_eq_some_iff.mp first
  obtain ⟨pushed, found', pushedId⟩ := Option.map_eq_some_iff.mp second
  replace payloads : τ.store.rawPayloads.rows.map (fun p => (p.id, p.source, p.storageUrl)) = _ :=
    Option.some.inj payloads
  have stored : ∀ p ∈ τ.store.rawPayloads,
      (p.id, p.source, p.storageUrl) = (2, "github_poll", none) ∨
        (p.id, p.source, p.storageUrl) = (12, "github_webhook", none) := by
    intro p hp
    have member := List.mem_map_of_mem (f := fun p => (p.id, p.source, p.storageUrl)) hp
    rw [payloads] at member
    simpa only [List.mem_cons, List.not_mem_nil, or_false] using member
  obtain rfl : response = .processed 1 := of_decide_eq_true processed
  have addressable : Addressable {} τ := by
    refine ⟨by decide, fun p hp key url => ?_, ?_⟩
    · rcases stored p hp with row | row <;> cases url.symm.trans (congrArg (fun x => x.2.2) row)
    · rw [objects]
      exact List.nodup_nil
  obtain ⟨traced, -⟩ := events_traced_iff pushRuntime_jsonLib rfl rfl (trace_of_polledAndPushed all)
    (fun payload known => received_pollAndPush known ▸ push_serializable)
    (fun payload payload' known known' _ => by
      rw [received_pollAndPush known, received_pollAndPush known'])
    addressable .postgresql
  obtain ⟨here, key⟩ := Table.find_eq_some_iff.mp found
  obtain ⟨here', key'⟩ := Table.find_eq_some_iff.mp found'
  refine ⟨τ, polled, pushed, rfl, found, ?_, found', ?_⟩
  · rw [traced polled here (congrArg Prod.fst key)]
    rintro ⟨p, hp, id, source⟩
    rw [polledId, Option.some.injEq] at id
    rcases stored p hp with row | row
    · exact absurd ((congrArg (fun x => x.2.1) row).symm.trans source) (by decide)
    · exact absurd (id.trans (congrArg Prod.fst row)) (by decide)
  · rw [traced pushed here' (congrArg Prod.fst key')]
    have member : (12, "github_webhook", none) ∈
        τ.store.rawPayloads.rows.map (fun p => (p.id, p.source, p.storageUrl)) := by
      rw [payloads]
      exact .tail _ (.head _)
    obtain ⟨p, hp, row⟩ := List.mem_map.mp member
    refine ⟨p, hp, ?_, congrArg (fun x => x.2.1) row⟩
    rw [pushedId]
    exact congrArg some (congrArg Prod.fst row).symm

end Example

end OmniSync
