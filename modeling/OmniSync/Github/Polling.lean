import OmniSync.Github.Parsing
import OmniSync.Github.Tasks
import OmniSync.Integrations.Verification
import OmniSync.RawPayloads.Saving
import OmniSync.SyncLogs.Runs

/-!
# A poll of GitHub as a logged run

The tasks are logged runs once they are configured. Their work is to fetch a page, to keep
its summary and to store its events. An empty page leads through the same steps.
-/

namespace OmniSync

open Txn

section Poll

variable {α : Type} (rt : Runtime) (settings : Settings) (env : GitHubEnv)
variable (operation eventType type : String) (get : String → String → Option String → Tx (List α))
variable (parse : ItemParser α)

/-- Keep the summary of the items and store their events. -/
def storeSummarized (repoFullName correlationId : String) (items : List α) :
    Tx (List NormalizedEvent) := do
  let eventDataList ←
    collectSummarized rt settings type repoFullName correlationId parse [] items
  NormalizedEventService.upsertEventsBulk eventDataList (some correlationId)

/-- The work of a poll up to its commit. -/
def ingestGithub (correlationId : String) : Tx (List NormalizedEvent) := do
  let watermark ← NormalizedEventService.getWatermark "github" (some eventType)
  let items ← get env.GITHUB_SYNC_OWNER env.GITHUB_SYNC_REPO (watermark.map rt.isoformat)
  storeSummarized rt settings type parse (env.GITHUB_SYNC_OWNER ++ "/" ++ env.GITHUB_SYNC_REPO)
    correlationId items

/-- A poll of GitHub. -/
def githubRun : LoggedRun (List NormalizedEvent) Unit where
  operation := operation
  body := ingestGithub rt settings env eventType type get parse
  result _ := ()
  handler := failRun

theorem githubRun_opened (run : String × Uuid) :
    (githubRun rt settings env operation eventType type get parse).opened run = Prog.tryCatch
      (do
        let watermark ← NormalizedEventService.getWatermark "github" (some eventType)
        let items ← get env.GITHUB_SYNC_OWNER env.GITHUB_SYNC_REPO (watermark.map rt.isoformat)
        if items.isEmpty then
          Prog.commitWork
          updateSyncLogStatus true run.2 .completed none
        else
          let rawPayloadId ← saveRawPayload rt settings "github_poll"
            (pollSummary type items.length) run.1
          let eventDataList ← parseItems parse
            (env.GITHUB_SYNC_OWNER ++ "/" ++ env.GITHUB_SYNC_REPO) rawPayloadId [] items
          let _ ← NormalizedEventService.upsertEventsBulk eventDataList (some run.1)
          Prog.commitWork
          updateSyncLogStatus true run.2 .completed none)
      (failRun run) := by
  have settled : ∀ a, (githubRun rt settings env operation eventType type get parse).settle run a =
      (do
        Prog.commitWork
        updateSyncLogStatus true run.2 .completed none) := by
    intro a
    exact congrArg (fun p => Prog.commitWork >>= fun _ => p) (Prog.bind_pure _)
  have stored : ∀ items : List α, storeSummarized rt settings type parse
      (env.GITHUB_SYNC_OWNER ++ "/" ++ env.GITHUB_SYNC_REPO) run.1 items >>=
        (githubRun rt settings env operation eventType type get parse).settle run =
          if items.isEmpty then (do
            Prog.commitWork
            updateSyncLogStatus true run.2 .completed none)
          else (do
            let rawPayloadId ← saveRawPayload rt settings "github_poll"
              (pollSummary type items.length) run.1
            let eventDataList ← parseItems parse
              (env.GITHUB_SYNC_OWNER ++ "/" ++ env.GITHUB_SYNC_REPO) rawPayloadId [] items
            let _ ← NormalizedEventService.upsertEventsBulk eventDataList (some run.1)
            Prog.commitWork
            updateSyncLogStatus true run.2 .completed none) := by
    intro items
    unfold storeSummarized collectSummarized
    split
    · exact settled []
    · simp only [Prog.bind_assoc, funext settled]
  unfold LoggedRun.opened
  refine congrArg (fun p => Prog.tryCatch p (failRun run)) ?_
  change ingestGithub rt settings env eventType type get parse run.1 >>= _ = _
  simp only [ingestGithub, Prog.bind_assoc, stored]

variable {env}

/-- A configured task is a logged run. -/
theorem pollGithub_eq (configured : ¬ (env.GITHUB_SYNC_OWNER = "" ∨ env.GITHUB_SYNC_REPO = "")) :
    pollGithub rt settings env operation eventType type get parse =
      (githubRun rt settings env operation eventType type get parse).prog := by
  unfold pollGithub LoggedRun.prog
  rw [if_neg configured]
  change _ = openRun operation >>= fun run =>
    (githubRun rt settings env operation eventType type get parse).opened run
  unfold openRun
  simp only [githubRun_opened, Prog.bind_assoc]
  rfl

end Poll

section Ingests

variable {α : Type} {parse : ItemParser α}

theorem parseItems_ingests (repoFullName : String) (rawPayloadId : Uuid)
    (events : List NormalizedEventCreate) (items : List α) :
    (parseItems parse repoFullName rawPayloadId events items).Within Stmt.Ingesting := by
  unfold parseItems
  refine .foldlM _ _ (fun events item _ => .bind utcNow_ingests (fun now => ?_))
  exact .bind (ofAnswer_ingests _) (fun _ => trivial)

end Ingests

section Collect

variable {α : Type} {lib : DatetimeLib} {rt : Runtime} {settings : Settings}
variable {type repoFullName correlationId : String}
variable {kind : α → GitHubItem} {parse : ItemParser α}
variable {inv : State Unit → Prop} {σ : State Unit} {ws : List Write}

/-- The summary of a page has been kept, if there is an item, and its items are parsed. -/
inductive PageSummarized (lib : DatetimeLib) (rt : Runtime) (settings : Settings)
    (type correlationId : String) (items : List GitHubItem) (s : Store) (w : World) :
    List Write → List NormalizedEventCreate → Prop where
  | nothing (empty : items = []) : PageSummarized lib rt settings type correlationId items s w [] []
  | kept {row : RawPayload} {w' : World} {new : List Write} {made : List NormalizedEventCreate}
      (some : items ≠ [])
      (saved : PayloadSaved rt settings "github_poll" correlationId
        (pollSummary type items.length) s w w' row new)
      (each : List.Forall₂ (GitHubItem.Makes lib row.id) items made) :
      PageSummarized lib rt settings type correlationId items s w new made

/-- What `collectSummarized` leaves. -/
theorem wp_collectSummarized (parses : Parses lib kind parse) (items : List α)
    (keeps : Saves rt "github_poll" correlationId
      (rt.jsonSafe (pollSummary type items.length)) inv) {events : List NormalizedEventCreate} :
    wp (alone inv (fun _ _ _ => True)) ()
      (collectSummarized rt settings type repoFullName correlationId parse events items)
      (fun r τ vs => ∀ all, r = .ok all → τ.store = σ.store ∧ ∃ new made, vs = ws ++ new ∧
        all = events ++ made ∧ PageSummarized lib rt settings type correlationId (items.map kind)
          (postgres.view σ.store ws) σ.world new made) σ ws := by
  unfold collectSummarized
  cases items with
  | nil =>
      rintro _ ⟨⟩
      exact ⟨rfl, [], [], (List.append_nil _).symm, (List.append_nil _).symm, .nothing rfl⟩
  | cons item items =>
      rw [if_neg (by simp), wp_bind]
      refine wp_mono (wp_saveRawPayload_saved keeps) (fun r τ vs post => ?_)
      cases r with
      | error e => exact fun _ impossible => (nomatch impossible)
      | ok id =>
          obtain ⟨store, row, new, rfl, rfl, saved⟩ := post id rfl
          rw [Post.andThen_ok]
          refine wp_mono (wp_parseItems parses keeps.ticks (item :: items)) ?_
          rintro r υ us ⟨⟨store', _, rfl⟩, parsed⟩ all value
          obtain ⟨made, rfl, each⟩ := parsed all value
          rw [← List.length_map kind] at saved
          exact ⟨store'.trans store, new, made, rfl, rfl, .kept (by simp) saved each⟩

end Collect

end OmniSync
