import OmniSync.Github.Ingestion

/-!
# What a webhook stores

A webhook stores the items of its payload: every item gets an event, and all of them share the
payload, which is kept as it was received.
-/

namespace OmniSync

open Txn

/-- The items of a webhook. -/
def GitHubWebhookPayload.items (payload : GitHubWebhookPayload) : List GitHubItem :=
  (payload.commits.getD []).map .commit ++ payload.pullRequest.toList.map .pullRequest

/-- The row is that of a payload, whose body is in the row or in the object store. -/
structure RawPayload.Keeps (rt : Runtime) (settings : Settings) (source : String) (payload : Json)
    (objects : List (String × Json)) (p : RawPayload) : Prop where
  columns : p.Matches rt source payload
  body : p.payload = some (rt.jsonSafe payload) ∧ p.storageUrl = none ∨
    ∃ key, p.storageUrl = some (objectUrl settings key) ∧ (key, rt.jsonSafe payload) ∈ objects

theorem RawPayload.Keeps.mono {rt : Runtime} {settings : Settings} {source : String}
    {payload : Json} {objects objects' : List (String × Json)} {p : RawPayload}
    (h : p.Keeps rt settings source payload objects) (put : ∀ o ∈ objects, o ∈ objects') :
    p.Keeps rt settings source payload objects' := by
  refine ⟨h.columns, h.body.imp_right ?_⟩
  rintro ⟨key, url, member⟩
  exact ⟨key, url, put _ member⟩

theorem PayloadSaved.keeps {rt : Runtime} {settings : Settings} {source correlationId : String}
    {payload : Json} {s : Store} {w w' : World} {row : RawPayload} {new : List Write}
    (saved : PayloadSaved rt settings source correlationId payload s w w' row new) :
    ∀ p, .addRawPayload p ∈ new → p.Keeps rt settings source payload w'.objects := by
  intro p hp
  rcases saved.outcome with ⟨_, rfl, _⟩ | ⟨_, _, rfl, stored⟩
  · exact (List.not_mem_nil hp).elim
  · cases List.mem_singleton.mp hp
    cases stored with
    | database kept url _ => exact ⟨saved.columns, .inl ⟨kept, url⟩⟩
    | objectStore t _ _ url put =>
        refine ⟨saved.columns, .inr ⟨_, url, ?_⟩⟩
        rw [put]
        exact List.mem_append_right _ (List.mem_singleton_self _)

/-- The payload of a webhook is kept in the row. -/
def RawPayload.OfWebhook (rt : Runtime) (payload : GitHubWebhookPayload) : RawPayload → Prop :=
  RawPayload.Matches rt "github_webhook" payload.modelDump

/-- A webhook has stored its items, up to its commit. -/
abbrev WebhookStored (lib : DatetimeLib) (rt : Runtime) (settings : Settings)
    (payload : GitHubWebhookPayload) (objects : List (String × Json)) :=
  ItemsStored lib (RawPayload.OfWebhook rt payload)
    (RawPayload.Keeps rt settings "github_webhook" payload.modelDump objects)

/-- From `s` to `t` a webhook has stored its items. -/
def WebhookLeft (lib : DatetimeLib) (rt : Runtime) (settings : Settings)
    (payload : GitHubWebhookPayload) (s t : Store) : Prop :=
  ∃ objects, ItemsLeft lib (RawPayload.OfWebhook rt payload)
    (RawPayload.Keeps rt settings "github_webhook" payload.modelDump objects) payload.items s t

section Programs

variable {lib : DatetimeLib} {rt : Runtime} {settings : Settings} {webhooks : WebhookSettings}
variable {payload : GitHubWebhookPayload} {rawPayloadId : Uuid} {correlationId body : String}
variable {signature deliveryHeader : Option String} {delivery : Option (String × String)}
variable {inv : State Unit → Prop} {σ : State Unit} {ws : List Write}

/-- The events of a webhook are those of its items. -/
theorem wp_webhookEvents (ticks : ∀ σ c, inv σ → inv (withClock σ c)) :
    wp (alone inv (fun _ _ _ => True)) () (webhookEvents lib payload rawPayloadId)
      (fun r τ vs => (τ.store = σ.store ∧ σ.world.Idle τ.world ∧ vs = ws) ∧ ∀ all, r = .ok all →
        List.Forall₂ (GitHubItem.Makes lib rawPayloadId) payload.items all) σ ws := by
  unfold webhookEvents
  rw [wp_bind]
  refine wp_mono (wp_parseItems (parses_commit lib) ticks _) ?_
  rintro r τ vs ⟨⟨store, idle, rfl⟩, parsed⟩
  cases r with
  | error e => exact ⟨⟨store, idle, rfl⟩, fun _ impossible => (nomatch impossible)⟩
  | ok first =>
      obtain ⟨made, rfl, each⟩ := parsed first rfl
      rw [Post.andThen_ok]
      refine wp_mono (wp_parseItems (parses_pullRequest lib) ticks _) ?_
      rintro r υ us ⟨⟨store', idle', rfl⟩, parsed'⟩
      refine ⟨⟨store'.trans store, idle.trans idle', rfl⟩, fun all value => ?_⟩
      obtain ⟨made', rfl, each'⟩ := parsed' all value
      exact List.rel_append each each'

/-- A commit of a webhook keeps the invariant. -/
def CommitsWebhook (lib : DatetimeLib) (rt : Runtime) (settings : Settings)
    (inv : State Unit → Prop) (s : Store) (payload : GitHubWebhookPayload) : Prop :=
  ∀ correlationId made p ws τ, s.SameContent τ.store →
    WebhookStored lib rt settings payload τ.world.objects correlationId payload.items made p
      τ.store ws → inv τ → inv (postgres.publish τ () (ws ++ p.writes))

/-- The invariant is kept by the passage of time and by the object of the payload. -/
structure KeptByWebhook (rt : Runtime) (body : String) (inv : State Unit → Prop) : Prop where
  ids : ∀ σ, inv σ → σ.store.EventIdsUnique
  ticks : ∀ σ c, inv σ → inv (withClock σ c)
  saves : ∀ payload, rt.validateWebhook body = .ok payload → ∀ correlationId,
    Saves rt "github_webhook" correlationId (rt.jsonSafe payload.modelDump) inv

/-- What the work of a webhook leaves up to its commit. -/
theorem wp_githubWebhookRequest (keeps : KeptByWebhook rt body inv) (start : inv σ)
    (aside : ∀ w ∈ ws, w.Aside) (bare : ∀ p, .addRawPayload p ∉ ws) :
    wp (alone inv (fun _ _ _ => True)) ()
      ((githubWebhookRequest lib rt settings body delivery).body correlationId)
      (fun r τ vs => ∀ n, r = .ok n → τ.store = σ.store ∧
        ∃ payload, rt.validateWebhook body = .ok payload ∧ ∃ made p us, vs = us ++ p.writes ∧
          WebhookStored lib rt settings payload τ.world.objects correlationId payload.items made p
            τ.store us) σ ws := by
  unfold githubWebhookRequest
  dsimp only
  rw [wp_bind, wp_ofAnswer]
  cases valid : rt.validateWebhook body with
  | error e => exact fun _ impossible => (nomatch impossible)
  | ok payload =>
      rw [Post.andThen_ok, wp_bind]
      refine wp_mono (wp_inv start (wp_saveRawPayload_saved (keeps.saves payload valid _))) ?_
      rintro r τ vs ⟨start', post⟩
      cases r with
      | error e => exact fun _ impossible => (nomatch impossible)
      | ok id =>
          obtain ⟨store, row, new, rfl, rfl, saved⟩ := post id rfl
          rw [Post.andThen_ok, wp_bind]
          refine wp_mono (wp_inv start' (wp_webhookEvents keeps.ticks)) ?_
          rintro r υ us ⟨start'', ⟨store', idle, rfl⟩, parsed⟩
          cases r with
          | error e => exact fun _ impossible => (nomatch impossible)
          | ok events =>
              have collected : ItemsCollected lib (RawPayload.OfWebhook rt payload)
                  (RawPayload.Keeps rt settings "github_webhook" payload.modelDump
                    υ.world.objects) payload.items events υ.store (ws ++ new) := by
                refine ⟨fun w hw => ?_, fun p hp => ?_, ?_⟩
                · rcases List.mem_append.mp hw with old | now
                  · exact aside w old
                  · obtain ⟨p, rfl⟩ := saved.onlyPayloads w now
                    simp [Write.Aside, Write.table]
                · rcases List.mem_append.mp hp with old | now
                  · exact (bare p old).elim
                  · rw [idle.2]
                    exact saved.keeps p now
                · refine (parsed events rfl).imp (fun item e makes =>
                    ⟨row, ?_, saved.columns, makes⟩)
                  rw [store', store, postgres.view_append]
                  exact saved.mem
              rw [Post.andThen_ok, wp_bind]
              refine wp_mono (wp_upsertCollected keeps.ticks keeps.ids start'' collected) ?_
              intro r φ os post
              cases r with
              | error e => exact fun _ impossible => (nomatch impossible)
              | ok rows =>
                  obtain ⟨⟨store'', idle'⟩, p, rfl, stored⟩ := post rows rfl
                  rw [Post.andThen_ok, wp_pure]
                  intro n _
                  refine ⟨store''.trans (store'.trans store), payload, rfl, events, p, _, rfl, ?_⟩
                  have objects : φ.world.objects = υ.world.objects := by rw [idle'.2]
                  rw [objects]
                  exact stored

/-- What a webhook leaves. -/
theorem wp_githubWebhook (keeps : KeptByWebhook rt body inv)
    (commits : ∀ payload, rt.validateWebhook body = .ok payload →
      CommitsWebhook lib rt settings inv σ.store payload) :
    wp (alone inv (fun _ _ _ => True)) ()
      (githubWebhook lib rt settings webhooks body signature deliveryHeader)
      (fun r τ _ => ∀ n, r = .ok (.processed n) → ∃ payload,
        rt.validateWebhook body = .ok payload ∧
          WebhookLeft lib rt settings payload σ.store τ.store) σ [] := by
  rw [githubWebhook_eq, wp_bind, wp_ofAnswer]
  cases verifyWebhookSignature webhooks body signature with
  | error e => exact fun _ impossible => (nomatch impossible)
  | ok verified =>
      rw [Post.andThen_ok]
      cases verified with
      | false => exact fun _ impossible => (nomatch impossible)
      | true =>
          refine LoggedRequest.wp_received (Q := fun r τ => ∀ n, r = .ok (.processed n) →
            ∃ payload, rt.validateWebhook body = .ok payload ∧
              WebhookLeft lib rt settings payload σ.store τ.store) (hosts_alone keeps.ticks) ?_
            (fun _ _ _ _ impossible => (nomatch impossible))
            (fun _ _ _ _ _ _ impossible => (nomatch impossible)) ?_
          · intro r τ υ ws left rely
            rw [alone_store rely]
            exact left
          · intro υ ws rely claimed cid id t τ rely' start _
            have store : τ.store = σ.store := (alone_store rely').trans (alone_store rely)
            have bare : ∀ p, .addRawPayload p ∉ ws ++
                [.addSyncLog ⟨id, cid, "github_webhook", .started, none, t⟩] := by
              intro p hp
              rcases claimed.table _ hp with table | table <;> cases table
            refine wp_mono (wp_githubWebhookRequest keeps start claimed.aside bare)
              (fun r φ vs post => ?_)
            rintro n rfl ψ rely'' here
            obtain ⟨same, payload, valid, made, p, us, rfl, stored⟩ := post n rfl
            have store' : ψ.store = φ.store := alone_store rely''
            have objects : ψ.world.objects = φ.world.objects := by rw [(alone_world rely'').2]
            have content : σ.store.SameContent ψ.store := by
              rw [store', same, store]
              exact .refl _
            rw [← store', ← objects] at stored
            refine ⟨alone_guarantees (commits payload valid cid made p us ψ content stored here),
              fun _ _ => ⟨payload, valid, _, cid, made, p, ψ.store, us, content, stored, .refl _⟩⟩

end Programs

end OmniSync
