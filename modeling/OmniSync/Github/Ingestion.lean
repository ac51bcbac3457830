import OmniSync.Events.Cells
import OmniSync.Github.Polling
import OmniSync.Github.Router

/-!
# What is stored of the items that were fetched

The tasks and the request to sync a repository store the items that the server returned: every
item gets an event, and the events of a page share the summary of the page as their payload.
Their contents are written as one batch.
-/

namespace OmniSync

open Txn

/-- The key of an object that a poll puts into the object store. -/
def Polled (key : String) : Prop := "github_poll/".toList <+: key.toList

/-- The payload of a poll is a summary, or an object of a poll. -/
structure RawPayload.Summary (rt : Runtime) (settings : Settings) (p : RawPayload) : Prop where
  source : p.source = "github_poll"
  body : ∀ body, p.payload = some body → ∃ type count, body = rt.jsonSafe (pollSummary type count)
  url : ∀ url, p.storageUrl = some url → ∃ key, url = objectUrl settings key ∧ Polled key

theorem polled_objectKey (rt : Runtime) (correlationId : String) (t : Time) :
    Polled (objectKey rt "github_poll" correlationId t) := by
  unfold Polled objectKey
  simp only [String.toList_append, List.append_assoc]
  exact ⟨_, rfl⟩

/-- The event was made of the item, and its payload is one of those that are kept. -/
def GitHubItem.MadeInto (lib : DatetimeLib) (Kept : RawPayload → Prop) (item : GitHubItem)
    (s : Store) (e : NormalizedEventCreate) : Prop :=
  ∃ row ∈ s.rawPayloads, Kept row ∧ item.Makes lib row.id e

theorem GitHubItem.MadeInto.mono {lib : DatetimeLib} {Kept : RawPayload → Prop}
    {item : GitHubItem} {s t : Store} {e : NormalizedEventCreate} (h : item.MadeInto lib Kept s e)
    (stored : ∀ p ∈ s.rawPayloads, p ∈ t.rawPayloads) : item.MadeInto lib Kept t e := by
  obtain ⟨row, here, made⟩ := h
  exact ⟨row, stored row here, made⟩

/-- The items have been made into events, and nothing else is pending than their payloads, which
are `Added`, and writes that concern no events. -/
structure ItemsCollected (lib : DatetimeLib) (Kept Added : RawPayload → Prop)
    (items : List GitHubItem) (made : List NormalizedEventCreate) (s : Store) (ws : List Write) :
    Prop where
  aside : ∀ w ∈ ws, w.Aside
  added : ∀ p, .addRawPayload p ∈ ws → Added p
  each : List.Forall₂ (fun item e => item.MadeInto lib Kept (postgres.view s ws) e) items made

/-- The items have been stored as one batch. -/
structure ItemsStored (lib : DatetimeLib) (Kept Added : RawPayload → Prop) (correlationId : String)
    (items : List GitHubItem) (made : List NormalizedEventCreate) (p : UpsertPlan) (s : Store)
    (ws : List Write) : Prop where
  collected : ItemsCollected lib Kept Added items made s ws
  upserted : UpsertedAlone (postgres.view s ws) made (some correlationId) p

/-- From `s` to `t` the items were stored. Entries of the log may have been written, too. -/
def ItemsLeft (lib : DatetimeLib) (Kept Added : RawPayload → Prop) (items : List GitHubItem)
    (s t : Store) : Prop :=
  ∃ correlationId made p s' ws, s.SameContent s' ∧
    ItemsStored lib Kept Added correlationId items made p s' ws ∧
      (postgres.view s' (ws ++ p.writes)).SameContent t

/-- The payload is one that polls keep. -/
def RawPayload.OfPoll (p : RawPayload) : Prop := p.source = "github_poll"

/-- A poll has collected the items. -/
abbrev PollCollected (lib : DatetimeLib) (rt : Runtime) (settings : Settings) :=
  ItemsCollected lib RawPayload.OfPoll (RawPayload.Summary rt settings)

/-- A poll has stored the items. -/
abbrev PollStored (lib : DatetimeLib) (rt : Runtime) (settings : Settings) :=
  ItemsStored lib RawPayload.OfPoll (RawPayload.Summary rt settings)

/-- From `s` to `t` a poll has stored the items. -/
abbrev PollLeft (lib : DatetimeLib) (rt : Runtime) (settings : Settings) :=
  ItemsLeft lib RawPayload.OfPoll (RawPayload.Summary rt settings)

section Collected

variable {lib : DatetimeLib} {rt : Runtime} {settings : Settings} {type correlationId : String}
variable {items xs : List GitHubItem} {made new' : List NormalizedEventCreate} {s : Store}
variable {w w' : World} {ws new : List Write}

theorem PayloadSaved.summary {row : RawPayload} {count : Nat}
    (saved : PayloadSaved rt settings "github_poll" correlationId (pollSummary type count) s w w'
      row new) : ∀ p, .addRawPayload p ∈ new → p.Summary rt settings := by
  intro p hp
  rcases saved.outcome with ⟨_, rfl, _⟩ | ⟨_, _, rfl, stored⟩
  · exact (List.not_mem_nil hp).elim
  · cases List.mem_singleton.mp hp
    cases stored with
    | database kept url _ =>
        refine ⟨saved.columns.1, fun body same => ⟨type, count, ?_⟩, fun url' same => ?_⟩
        · exact Option.some.inj (same.symm.trans kept)
        · cases url.symm.trans same
    | objectStore t _ kept url _ =>
        refine ⟨saved.columns.1, fun body same => ?_,
          fun url' same => ⟨_, ?_, polled_objectKey rt correlationId t⟩⟩
        · cases kept.symm.trans same
        · exact Option.some.inj (same.symm.trans url)

/-- Another page has been made into events. -/
theorem PollCollected.page (h : PollCollected lib rt settings items made s ws)
    (page : PageSummarized lib rt settings type correlationId xs (postgres.view s ws) w new new') :
    PollCollected lib rt settings (items ++ xs) (made ++ new') s (ws ++ new) := by
  cases page with
  | nothing empty =>
      subst empty
      rw [List.append_nil, List.append_nil, List.append_nil]
      exact h
  | kept some saved each =>
      have view : postgres.view s (ws ++ new) = postgres.view (postgres.view s ws) new :=
        postgres.view_append s ws new
      refine ⟨fun write hw => ?_, fun p hp => ?_, List.rel_append ?_ ?_⟩
      · rcases List.mem_append.mp hw with old | now
        · exact h.aside write old
        · obtain ⟨p, rfl⟩ := saved.onlyPayloads write now
          simp [Write.Aside, Write.table]
      · rcases List.mem_append.mp hp with old | now
        · exact h.added p old
        · exact saved.summary p now
      · refine h.each.imp (fun item e stored => stored.mono (fun p hp => ?_))
        rw [view]
        exact mem_view_rawPayloads hp
      · refine each.imp (fun item e makes => ?_)
        exact ⟨_, view ▸ saved.mem, saved.columns.1, makes⟩

end Collected

section Stored

variable {lib : DatetimeLib} {Kept Added : RawPayload → Prop} {correlationId : String}
variable {items : List GitHubItem}
variable {made : List NormalizedEventCreate} {p : UpsertPlan} {s t : Store} {ws : List Write}

theorem GitHubItem.Makes.key_content {item : GitHubItem} {rawPayloadId : Uuid}
    {e : NormalizedEventCreate} (h : item.Makes lib rawPayloadId e) :
    e.key = item.key ∧ e.content = item.content := by
  obtain ⟨now, timestamp, _, rfl⟩ := h
  exact ⟨rfl, rfl⟩

theorem GitHubItem.MadeInto.key_content {item : GitHubItem} {e : NormalizedEventCreate}
    (h : item.MadeInto lib Kept s e) : e.key = item.key ∧ e.content = item.content := by
  obtain ⟨row, _, _, makes⟩ := h
  exact makes.key_content

namespace ItemsCollected

theorem contents (h : ItemsCollected lib Kept Added items made s ws) :
    contentsOf made = items.map (fun item => (item.key, item.content)) :=
  h.each.map_eq (fun _ _ stored => Prod.ext stored.key_content.1 stored.key_content.2)

theorem keys (h : ItemsCollected lib Kept Added items made s ws) :
    made.map NormalizedEventCreate.key = items.map GitHubItem.key :=
  h.each.map_eq (fun _ _ stored => stored.key_content.1)

end ItemsCollected

namespace ItemsStored

theorem view_eq (s : Store) (ws : List Write) (p : UpsertPlan) :
    postgres.view s (ws ++ p.writes) = postgres.view (postgres.view s ws) p.writes :=
  postgres.view_append s ws p.writes

theorem pending (h : ItemsStored lib Kept Added correlationId items made p s ws)
    (ids : s.EventIdsUnique) : (postgres.view s (ws ++ p.writes)).EventIdsUnique := by
  rw [view_eq]
  refine h.upserted.pending.eventIdsUnique_view ?_
  unfold Store.EventIdsUnique
  rw [view_normalizedEvents_of_aside h.collected.aside]
  exact ids

/-- What is stored of the contents. -/
theorem cells (h : ItemsStored lib Kept Added correlationId items made p s ws) (keys : s.KeysHold) :
    (postgres.view s (ws ++ p.writes)).KeysHold ∧
      ∀ k, (postgres.view s (ws ++ p.writes)).cell k = (s.cell k).writes
        (valuesAt (items.map (fun item => (item.key, item.content))) k).head?.toList := by
  have events := view_normalizedEvents_of_aside (s := s) h.collected.aside
  have versions := view_eventVersions_of_aside (s := s) h.collected.aside
  have before := keys.congr events versions
  rw [view_eq]
  refine ⟨h.upserted.keysHold before, fun k => ?_⟩
  rw [h.upserted.cell before, h.collected.contents, Store.cell_congr events versions]

/-- The event of an item holds what was made of an item with its key. -/
theorem holds (h : ItemsStored lib Kept Added correlationId items made p s ws) {item : GitHubItem}
    (hi : item ∈ items) : ∃ row,
      (postgres.view s (ws ++ p.writes)).normalizedEvents.find item.key = some row ∧
        ∃ origin ∈ items, origin.key = item.key ∧ ∃ e,
          origin.MadeInto lib Kept (postgres.view s ws) e ∧ row.Holds e := by
  have known : item.key ∈ (deduped made).map NormalizedEventCreate.key := by
    rw [mem_deduped_key, h.collected.keys]
    exact List.mem_map_of_mem hi
  obtain ⟨e, he, key⟩ := List.mem_map.mp known
  obtain ⟨row, hr, holds⟩ := h.upserted.holds.exists_right he
  obtain ⟨origin, ho, made⟩ := h.collected.each.exists_left (mem_of_mem_deduped he)
  refine ⟨row, ?_, origin, ho, made.key_content.1.symm.trans key, e, made, holds⟩
  rw [view_eq, ← key, ← holds.key]
  exact find_after h.upserted.committing hr

/-- The event of an item is stored with the id of a payload that is kept. -/
theorem event (h : ItemsStored lib Kept Added correlationId items made p s ws) {item : GitHubItem}
    (hi : item ∈ items) : ∃ row payload,
      (postgres.view s (ws ++ p.writes)).normalizedEvents.find item.key = some row ∧
        payload ∈ (postgres.view s (ws ++ p.writes)).rawPayloads ∧ Kept payload ∧
          row.rawPayloadId = some payload.id ∧
            ∃ origin ∈ items, origin.key = item.key ∧ origin.content = row.content := by
  obtain ⟨row, found, origin, ho, key, _, ⟨payload, stored, kept, _, _, _, rfl⟩, holds⟩ :=
    h.holds hi
  refine ⟨row, payload, found, ?_, kept, holds.rawPayloadId, origin, ho, key, holds.content.symm⟩
  rw [view_eq]
  exact mem_view_rawPayloads stored

/-- The other events stay as they are. -/
theorem find_other (h : ItemsStored lib Kept Added correlationId items made p s ws)
    {k : String × String} (other : ∀ item ∈ items, item.key ≠ k) :
    (postgres.view s (ws ++ p.writes)).normalizedEvents.find k = s.normalizedEvents.find k := by
  rw [view_eq, find_untouched, view_normalizedEvents_of_aside h.collected.aside]
  intro row hr same
  obtain ⟨e, he, holds⟩ := h.upserted.holds.exists_left hr
  obtain ⟨item, hi, made⟩ := h.collected.each.exists_left (mem_of_mem_deduped he)
  exact other item hi (made.key_content.1.symm.trans (holds.key.symm.trans same))

/-- The events that are stored are those that were there and those of the items. -/
theorem find_iff (h : ItemsStored lib Kept Added correlationId items made p s ws)
    (k : String × String) :
    (postgres.view s (ws ++ p.writes)).normalizedEvents.find k ≠ none ↔
      s.normalizedEvents.find k ≠ none ∨ ∃ item ∈ items, item.key = k := by
  by_cases known : ∃ item ∈ items, item.key = k
  · obtain ⟨item, hi, rfl⟩ := known
    obtain ⟨row, found, _⟩ := h.holds hi
    rw [found]
    exact ⟨fun _ => .inr ⟨item, hi, rfl⟩, fun _ => nofun⟩
  · rw [h.find_other (fun item hi same => known ⟨item, hi, same⟩)]
    exact ⟨.inl, fun old => old.resolve_right known⟩

/-- The payloads that are added. -/
theorem added (h : ItemsStored lib Kept Added correlationId items made p s ws) :
    ∀ payload, .addRawPayload payload ∈ ws ++ p.writes → Added payload := by
  intro payload hp
  rcases List.mem_append.mp hp with old | now
  · exact h.collected.added payload old
  · simp [UpsertPlan.writes, UpsertPlan.stored] at now

end ItemsStored

namespace ItemsLeft

/-- The event of an item holds what was made of an item with its key. -/
theorem holds (h : ItemsLeft lib Kept Added items s t) {item : GitHubItem} (hi : item ∈ items) :
    ∃ row, t.normalizedEvents.find item.key = some row ∧
      ∃ origin ∈ items, origin.key = item.key ∧
        ∃ rawPayloadId e, origin.Makes lib rawPayloadId e ∧ row.Holds e := by
  obtain ⟨cid, made, p, s', ws, -, stored, after⟩ := h
  rw [after.normalizedEvents]
  obtain ⟨row, found, origin, ho, key, e, ⟨_, _, _, makes⟩, holds⟩ := stored.holds hi
  exact ⟨row, found, origin, ho, key, _, e, makes, holds⟩

theorem event (h : ItemsLeft lib Kept Added items s t) {item : GitHubItem} (hi : item ∈ items) :
    ∃ row payload, t.normalizedEvents.find item.key = some row ∧ payload ∈ t.rawPayloads ∧
      Kept payload ∧ row.rawPayloadId = some payload.id ∧
        ∃ origin ∈ items, origin.key = item.key ∧ origin.content = row.content := by
  obtain ⟨cid, made, p, s', ws, before, stored, after⟩ := h
  rw [after.normalizedEvents, after.rawPayloads]
  exact stored.event hi

theorem find_other (h : ItemsLeft lib Kept Added items s t) {k : String × String}
    (other : ∀ item ∈ items, item.key ≠ k) :
    t.normalizedEvents.find k = s.normalizedEvents.find k := by
  obtain ⟨cid, made, p, s', ws, before, stored, after⟩ := h
  rw [after.normalizedEvents, stored.find_other other, before.normalizedEvents]

theorem find_iff (h : ItemsLeft lib Kept Added items s t) (k : String × String) :
    t.normalizedEvents.find k ≠ none ↔
      s.normalizedEvents.find k ≠ none ∨ ∃ item ∈ items, item.key = k := by
  obtain ⟨cid, made, p, s', ws, before, stored, after⟩ := h
  rw [after.normalizedEvents, stored.find_iff, before.normalizedEvents]

theorem cells (h : ItemsLeft lib Kept Added items s t) (keys : s.KeysHold) :
    t.KeysHold ∧ ∀ k, t.cell k = (s.cell k).writes
      (valuesAt (items.map (fun item => (item.key, item.content))) k).head?.toList := by
  obtain ⟨cid, made, p, s', ws, before, stored, after⟩ := h
  have keys' := keys.congr before.normalizedEvents before.eventVersions
  obtain ⟨kept, cells⟩ := stored.cells keys'
  refine ⟨kept.congr after.normalizedEvents after.eventVersions, fun k => ?_⟩
  rw [Store.cell_congr after.normalizedEvents after.eventVersions, cells,
    Store.cell_congr before.normalizedEvents before.eventVersions]

theorem congr {s' t' : Store} (h : ItemsLeft lib Kept Added items s t) (before : s.SameContent s')
    (after : t.SameContent t') : ItemsLeft lib Kept Added items s' t' := by
  obtain ⟨cid, made, p, u, ws, before', stored, after'⟩ := h
  exact ⟨cid, made, p, u, ws, before.symm.trans before', stored, after'.trans after⟩

end ItemsLeft

end Stored

/-- A GitHub server: the page of commits that it returns for a repository and the text of an
instant, and the page of pull requests of a repository. -/
structure GitHubServer where
  commits : String → String → Option String → List GitHubCommitData
  pullRequests : String → String → List GitHubPRData

namespace GitHubServer

def remote (server : GitHubServer) : Remote
  | .getCommits owner repo since => some (server.commits owner repo since)
  | .getPullRequests owner repo _ => some (server.pullRequests owner repo)
  | _ => none

/-- What the client returns. An empty `since` is not sent. -/
def getCommits (server : GitHubServer) (owner repo : String) (since : Option String) :
    List GitHubCommitData :=
  server.commits owner repo (since.filter (fun text => decide (text ≠ "")))

def getPullRequests (server : GitHubServer) (owner repo : String) (since : Option String) :
    List GitHubPRData :=
  trimmed since (server.pullRequests owner repo)

end GitHubServer

section Programs

variable {α : Type} {lib : DatetimeLib} {rt : Runtime} {settings : Settings}
variable {type repoFullName correlationId : String} {kind : α → GitHubItem} {parse : ItemParser α}
variable {inv : State Unit → Prop} {σ : State Unit} {ws : List Write} {items : List GitHubItem}
variable {made : List NormalizedEventCreate}

/-- The invariant is kept by the passage of time, by the objects of polls, and by commits of
entries of the log. -/
structure KeptByPolls (rt : Runtime) (inv : State Unit → Prop) : Prop where
  ids : ∀ σ, inv σ → σ.store.EventIdsUnique
  saves : ∀ correlationId type count,
    Saves rt "github_poll" correlationId (rt.jsonSafe (pollSummary type count)) inv
  logs : ∀ σ ws, OnlyLogs ws → inv σ → inv (postgres.publish σ () ws)

namespace KeptByPolls

theorem ticks (keeps : KeptByPolls rt inv) : ∀ σ c, inv σ → inv (withClock σ c) :=
  (keeps.saves "" "" 0).ticks

theorem hosts (keeps : KeptByPolls rt inv) : Hosts (alone inv (fun _ _ _ => True)) :=
  hosts_alone keeps.ticks

theorem logsAllowed (keeps : KeptByPolls rt inv) :
    LogsAllowed (alone inv (fun _ _ _ => True)) () :=
  fun ws τ only here => alone_guarantees (keeps.logs τ ws only here)

end KeptByPolls

theorem wp_collectPage (parses : Parses lib kind parse) (keeps : KeptByPolls rt inv)
    (start : inv σ) (h : PollCollected lib rt settings items made σ.store ws) (xs : List α) :
    wp (alone inv (fun _ _ _ => True)) ()
      (collectSummarized rt settings type repoFullName correlationId parse made xs)
      (fun r τ vs => inv τ ∧ ∀ all, r = .ok all → τ.store = σ.store ∧
        PollCollected lib rt settings (items ++ xs.map kind) all τ.store vs) σ ws := by
  have saves := keeps.saves correlationId type xs.length
  refine wp_mono (wp_inv start (wp_collectSummarized parses xs saves)) (fun r τ vs post => ?_)
  refine ⟨post.1, fun all value => ?_⟩
  obtain ⟨store, new, made', rfl, rfl, page⟩ := post.2 all value
  exact ⟨store, store ▸ h.page page⟩

/-- What the upsert of collected items leaves. -/
theorem wp_upsertCollected {Kept Added : RawPayload → Prop}
    (ticks : ∀ σ c, inv σ → inv (withClock σ c)) (ids : ∀ σ, inv σ → σ.store.EventIdsUnique)
    (start : inv σ) (h : ItemsCollected lib Kept Added items made σ.store ws) :
    wp (alone inv (fun _ _ _ => True)) ()
      (NormalizedEventService.upsertEventsBulk made (some correlationId))
      (fun r τ vs => ∀ rows, r = .ok rows → (τ.store = σ.store ∧ σ.world.Idle τ.world) ∧ ∃ p,
        vs = ws ++ p.writes ∧ ItemsStored lib Kept Added correlationId items made p τ.store ws)
      σ ws := by
  refine wp_upsertEventsBulk (hosts_alone ticks) ids start (.of_aside h.aside)
    (fun _ _ _ _ _ => nofun) ?_
  intro p τ _ upserted rows _
  have store : τ.store = σ.store := alone_store upserted.rely
  refine ⟨⟨store, alone_world upserted.rely⟩, p, rfl, ?_⟩
  rw [store]
  exact ⟨h, upserted.alone⟩

/-- How the items of a kind are fetched from a server. -/
structure ServesItems (get : String → String → Option String → Tx (List α))
    (fetched : GitHubServer → String → String → Option String → List α) : Prop where
  rule : ∀ {inv : State Unit → Prop} {σ : State Unit} {ws : List Write} {server : GitHubServer}
    {owner repo : String} {since : Option String} {Q : Post Exn Store Write World Unit (List α)},
    σ.world.remote = server.remote →
      (∀ τ, (alone inv (fun _ _ _ => True)).rely ws σ τ → inv τ →
        (∀ e, Q (.error e) τ ws) ∧ Q (.ok (fetched server owner repo since)) τ ws) →
      wp (alone inv (fun _ _ _ => True)) () (get owner repo since) Q σ ws

theorem serves_commits : ServesItems GitHubClient.getCommits GitHubServer.getCommits := by
  refine ⟨fun {inv σ ws server owner repo since Q} remote h => ?_⟩
  unfold GitHubClient.getCommits
  refine wp_getCommits (fun τ rely here => ?_)
  obtain ⟨failing, answered⟩ := h τ rely here
  refine ⟨failing, fun items known => ?_⟩
  have same : items = server.getCommits owner repo since := by
    refine known _ ?_
    rw [(alone_world rely).2]
    change σ.world.remote _ = _
    rw [remote]
    rfl
  rw [same]
  exact answered

theorem serves_pullRequests :
    ServesItems GitHubClient.getPullRequests GitHubServer.getPullRequests := by
  refine ⟨fun {inv σ ws server owner repo since Q} remote h => ?_⟩
  unfold GitHubClient.getPullRequests
  rw [wp_bind]
  refine wp_getPullRequests (fun τ rely here => ?_)
  obtain ⟨failing, answered⟩ := h τ rely here
  refine ⟨failing, fun items known => ?_⟩
  have same : items = server.pullRequests owner repo := by
    refine known _ ?_
    rw [(alone_world rely).2]
    change σ.world.remote _ = _
    rw [remote]
    rfl
  rw [Post.andThen_ok, wp_pure, same]
  exact answered

end Programs

section Runs

variable {α : Type} {lib : DatetimeLib} {rt : Runtime} {settings : Settings} {env : GitHubEnv}
variable {operation eventType type : String}
variable {get : String → String → Option String → Tx (List α)} {parse : ItemParser α}
variable {kind : α → GitHubItem}
variable {fetched : GitHubServer → String → String → Option String → List α}
variable {inv : State Unit → Prop} {σ : State Unit} {server : GitHubServer}

/-- The items that a task fetches when it finds a store. -/
def polledItems (rt : Runtime) (env : GitHubEnv) (eventType : String) (kind : α → GitHubItem)
    (fetched : GitHubServer → String → String → Option String → List α) (server : GitHubServer)
    (s : Store) : List GitHubItem :=
  (fetched server env.GITHUB_SYNC_OWNER env.GITHUB_SYNC_REPO
    ((s.watermark "github" (some eventType)).map rt.isoformat)).map kind

theorem sameContent_of_onlyLogs {s : Store} {ws : List Write} (only : OnlyLogs ws) :
    s.SameContent (postgres.view s ws) :=
  Store.sameContent_view (fun w hw => .inr (.inl (only w hw)))

theorem watermark_of_sameContent {s t : Store} (h : s.SameContent t) (source : String)
    (eventType : Option String) : t.watermark source eventType = s.watermark source eventType := by
  unfold Store.watermark
  rw [h.normalizedEvents]

/-- What the work of a task leaves up to its commit. -/
theorem wp_ingestGithub (parses : Parses lib kind parse) (serves : ServesItems get fetched)
    (keeps : KeptByPolls rt inv) (remote : σ.world.remote = server.remote)
    (correlationId : String) :
    wp (alone inv (fun _ _ _ => True)) ()
      (ingestGithub rt settings env eventType type get parse correlationId)
      (fun r τ vs => ∀ rows, r = .ok rows → τ.store = σ.store ∧ ∃ made p ws,
        vs = ws ++ p.writes ∧ PollStored lib rt settings correlationId
          (polledItems rt env eventType kind fetched server σ.store) made p τ.store ws) σ [] := by
  unfold ingestGithub NormalizedEventService.getWatermark
  rw [wp_bind]
  refine wp_selectWatermark keeps.hosts (fun τ rely _ =>
    ⟨fun _ _ impossible => (nomatch impossible), ?_⟩)
  have store : τ.store = σ.store := alone_store rely
  have remote' : τ.world.remote = server.remote := by rw [(alone_world rely).2, remote]
  rw [Post.andThen_ok, wp_bind]
  refine serves.rule remote' (fun υ rely' start => ⟨fun _ _ impossible => (nomatch impossible), ?_⟩)
  have store' : υ.store = σ.store := (alone_store rely').trans store
  rw [Post.andThen_ok]
  unfold storeSummarized
  rw [wp_bind]
  have empty : PollCollected lib rt settings [] [] υ.store [] :=
    ⟨fun _ hw => (List.not_mem_nil hw).elim, fun _ hp => (List.not_mem_nil hp).elim, .nil⟩
  refine wp_mono (wp_collectPage parses keeps start empty _) (fun r φ vs post => ?_)
  obtain ⟨start', collected⟩ := post
  cases r with
  | error e => exact fun _ impossible => (nomatch impossible)
  | ok all =>
      obtain ⟨store'', collected⟩ := collected all rfl
      rw [Post.andThen_ok]
      refine wp_mono (wp_upsertCollected keeps.ticks keeps.ids start' collected)
        (fun r ψ us post rows value => ?_)
      obtain ⟨⟨after, _⟩, p, rfl, stored⟩ := post rows value
      refine ⟨after.trans (store''.trans store'), all, p, vs, rfl, ?_⟩
      rw [store] at stored
      exact stored

/-- A commit of stored items keeps the invariant. -/
def CommitsPolls (lib : DatetimeLib) (rt : Runtime) (settings : Settings)
    (inv : State Unit → Prop) (s : Store) (items : List GitHubItem) : Prop :=
  ∀ correlationId made p ws τ, s.SameContent τ.store →
    PollStored lib rt settings correlationId items made p τ.store ws → inv τ →
      inv (postgres.publish τ () (ws ++ p.writes))

/-- What a task leaves. -/
theorem wp_githubRun (parses : Parses lib kind parse) (serves : ServesItems get fetched)
    (keeps : KeptByPolls rt inv) (remote : σ.world.remote = server.remote)
    (commits : CommitsPolls lib rt settings inv σ.store
      (polledItems rt env eventType kind fetched server σ.store)) :
    wp (alone inv (fun _ _ _ => True)) ()
      (githubRun rt settings env operation eventType type get parse).prog
      (fun r τ _ => ∀ a, r = .ok a → PollLeft lib rt settings
        (polledItems rt env eventType kind fetched server σ.store) σ.store τ.store) σ [] := by
  refine LoggedRun.wp_prog (Q := fun r τ => ∀ a, r = .ok a → PollLeft lib rt settings
    (polledItems rt env eventType kind fetched server σ.store) σ.store τ.store) keeps.hosts
    keeps.logsAllowed rfl ?_ ?_ (fun _ _ _ _ impossible => (nomatch impossible)) ?_
  · intro r τ υ ws left rely a value
    rw [alone_store rely]
    exact left a value
  · intro _ τ ws only left a value
    exact (left a value).congr (.refl _) (sameContent_of_onlyLogs only)
  · intro cid τ ws rely only _
    have content : σ.store.SameContent (postgres.view τ.store ws) := by
      rw [alone_store rely]
      exact sameContent_of_onlyLogs only
    have items : polledItems rt env eventType kind fetched server (postgres.view τ.store ws) =
        polledItems rt env eventType kind fetched server σ.store := by
      unfold polledItems
      rw [watermark_of_sameContent content]
    have remote' : (postgres.publish τ () ws).world.remote = server.remote := by
      change τ.world.remote = _
      rw [(alone_world rely).2, remote]
    refine wp_mono (wp_ingestGithub parses serves keeps remote' cid) (fun r υ vs post => ?_)
    intro rows value φ rely' here
    obtain ⟨store, made, p, us, rfl, stored⟩ := post rows value
    rw [Engine.publish_store, items] at stored
    rw [Engine.publish_store] at store
    have same : φ.store = υ.store := alone_store rely'
    have content' : σ.store.SameContent φ.store := by
      rw [same, store]
      exact content
    rw [← same] at stored
    refine ⟨alone_guarantees (commits cid made p us φ content' stored here), fun _ _ => ?_⟩
    exact ⟨cid, made, p, φ.store, us, content', stored, .refl _⟩

end Runs

section Paths

variable {lib : DatetimeLib} {rt : Runtime} {settings : Settings} {env : GitHubEnv}
variable {inv : State Unit → Prop} {σ : State Unit} {server : GitHubServer} {owner repo : String}

/-- The ways in which the items of a repository are polled: the two tasks, and the request to
sync it. -/
inductive GitHubPath where
  | commits (env : GitHubEnv)
  | pullRequests (env : GitHubEnv)
  | sync (owner repo : String)

namespace GitHubPath

/-- The task has a repository to poll. -/
def Configured : GitHubPath → Prop
  | commits env | pullRequests env => ¬ (env.GITHUB_SYNC_OWNER = "" ∨ env.GITHUB_SYNC_REPO = "")
  | sync _ _ => True

/-- The run, which returns nothing of interest here. -/
def prog (lib : DatetimeLib) (rt : Runtime) (settings : Settings) : GitHubPath → Tx Unit
  | commits env => syncGithubCommits lib rt settings env
  | pullRequests env => syncGithubPullRequests lib rt settings env
  | sync owner repo => githubSync lib rt settings owner repo >>= fun _ => pure ()

/-- The items that a run fetches when it finds a store. -/
def items (rt : Runtime) (server : GitHubServer) (s : Store) : GitHubPath → List GitHubItem
  | commits env => polledItems rt env "commit" .commit GitHubServer.getCommits server s
  | pullRequests env =>
      polledItems rt env "pull_request" .pullRequest GitHubServer.getPullRequests server s
  | sync owner repo => (server.getCommits owner repo none).map .commit ++
      (server.getPullRequests owner repo none).map .pullRequest

end GitHubPath

/-- What the request leaves. -/
theorem wp_githubSync (keeps : KeptByPolls rt inv) (remote : σ.world.remote = server.remote)
    (commits : CommitsPolls lib rt settings inv σ.store
      (GitHubPath.items rt server σ.store (.sync owner repo))) :
    wp (alone inv (fun _ _ _ => True)) () (githubSync lib rt settings owner repo)
      (fun r τ _ => ∀ a, r = .ok a → PollLeft lib rt settings
        (GitHubPath.items rt server σ.store (.sync owner repo)) σ.store τ.store) σ [] := by
  rw [githubSync_eq]
  refine LoggedRequest.wp_prog (Q := fun r τ => ∀ a, r = .ok a → PollLeft lib rt settings
    (GitHubPath.items rt server σ.store (.sync owner repo)) σ.store τ.store) keeps.hosts ?_
    (fun _ _ _ _ impossible => (nomatch impossible)) ?_
  · intro r τ υ ws left rely a value
    rw [alone_store rely]
    exact left a value
  · intro cid id t τ rely _ _
    have store : τ.store = σ.store := alone_store rely
    have remote' : τ.world.remote = server.remote := by rw [(alone_world rely).2, remote]
    unfold githubSyncRequest
    dsimp only
    rw [wp_bind]
    refine serves_commits.rule remote' (fun υ rely' _ =>
      ⟨fun _ _ impossible => (nomatch impossible), ?_⟩)
    have store' : υ.store = σ.store := (alone_store rely').trans store
    have remote'' : υ.world.remote = server.remote := by rw [(alone_world rely').2, remote']
    rw [Post.andThen_ok, wp_bind]
    refine serves_pullRequests.rule remote'' (fun φ rely'' start =>
      ⟨fun _ _ impossible => (nomatch impossible), ?_⟩)
    have store'' : φ.store = σ.store := (alone_store rely'').trans store'
    have opened : PollCollected lib rt settings [] [] φ.store
        [.addSyncLog ⟨id, cid, "github_poll", .started, none, t⟩] := by
      refine ⟨fun w hw => ?_, fun p hp => ?_, .nil⟩
      · rw [List.mem_singleton.mp hw]
        simp [Write.Aside, Write.table]
      · cases List.mem_singleton.mp hp
    rw [Post.andThen_ok, wp_bind]
    refine wp_mono (wp_collectPage (parses_commit lib) keeps start opened _) (fun r ψ vs post => ?_)
    obtain ⟨start', collected⟩ := post
    cases r with
    | error e => exact fun _ impossible => (nomatch impossible)
    | ok all =>
        obtain ⟨same, collected⟩ := collected all rfl
        rw [Post.andThen_ok, wp_bind]
        refine wp_mono (wp_collectPage (parses_pullRequest lib) keeps start' collected _)
          (fun r χ us post => ?_)
        obtain ⟨start'', collected'⟩ := post
        cases r with
        | error e => exact fun _ impossible => (nomatch impossible)
        | ok all' =>
            obtain ⟨same', collected'⟩ := collected' all' rfl
            rw [Post.andThen_ok, wp_bind]
            refine wp_mono (wp_upsertCollected keeps.ticks keeps.ids start'' collected')
              (fun r α os post => ?_)
            cases r with
            | error e => exact fun _ impossible => (nomatch impossible)
            | ok rows =>
                obtain ⟨⟨same'', _⟩, p, rfl, stored⟩ := post rows rfl
                rw [Post.andThen_ok, wp_pure]
                intro _ _ β rely''' here
                have content : σ.store.SameContent β.store := by
                  rw [alone_store rely''', same'', same', same, store'']
                  exact .refl _
                rw [← alone_store rely'''] at stored
                refine ⟨alone_guarantees (commits cid all' p us β content stored here), ?_⟩
                exact fun _ _ => ⟨cid, all', p, β.store, us, content, stored, .refl _⟩

/-- What a run leaves on any path. -/
theorem GitHubPath.wp_prog {path : GitHubPath} (configured : path.Configured)
    (keeps : KeptByPolls rt inv) (remote : σ.world.remote = server.remote)
    (commits : CommitsPolls lib rt settings inv σ.store (path.items rt server σ.store)) :
    wp (alone inv (fun _ _ _ => True)) () (path.prog lib rt settings)
      (fun r τ _ => ∀ a, r = .ok a →
        PollLeft lib rt settings (path.items rt server σ.store) σ.store τ.store) σ [] := by
  cases path with
  | commits env =>
      change wp _ () (syncGithubCommits lib rt settings env) _ σ []
      unfold syncGithubCommits
      rw [pollGithub_eq rt settings _ _ _ _ _ configured]
      exact wp_githubRun (parses_commit lib) serves_commits keeps remote commits
  | pullRequests env =>
      change wp _ () (syncGithubPullRequests lib rt settings env) _ σ []
      unfold syncGithubPullRequests
      rw [pollGithub_eq rt settings _ _ _ _ _ configured]
      exact wp_githubRun (parses_pullRequest lib) serves_pullRequests keeps remote commits
  | sync owner repo =>
      change wp _ () (githubSync lib rt settings owner repo >>= fun _ => pure ()) _ σ []
      rw [wp_bind]
      refine wp_mono (wp_githubSync keeps remote commits) (fun r τ ws post => ?_)
      cases r with
      | error e => exact fun _ impossible => (nomatch impossible)
      | ok response => exact fun _ _ => post response rfl

/-- What a run leaves that returns. -/
theorem GitHubPath.completes {path : GitHubPath} {τ : State Unit} (configured : path.Configured)
    (keeps : KeptByPolls rt inv) (remote : σ.world.remote = server.remote)
    (commits : CommitsPolls lib rt settings inv σ.store (path.items rt server σ.store))
    (start : inv σ)
    (h : postgres.Completes () (path.prog lib rt settings) σ () τ) :
    inv τ ∧ PollLeft lib rt settings (path.items rt server σ.store) σ.store τ.store := by
  refine wp_completes (alone inv (fun _ _ _ => True))
    (Q := fun _ τ => PollLeft lib rt settings (path.items rt server σ.store) σ.store τ.store)
    (fun _ _ _ => trivial) (fun left rely => ?_) start (wp_prog configured keeps remote commits) h
  rw [alone_store rely]
  exact left

end Paths

end OmniSync
