import OmniSync.Imap.Tasks
import OmniSync.Integrations.Batch
import OmniSync.Integrations.Verification
import OmniSync.SyncLogs.Runs

/-!
# What a poll of the mailbox stores

The polling task is a logged run once its connector has been constructed. A poll that
returns has kept every message that it fetched and stored the events of those that have any
text, and its watermark is the latest date of all of them.
-/

namespace OmniSync

open Txn

variable {lib : DatetimeLib} {rt : Runtime} {settings : Settings} {imapSettings : ImapSettings}

/-- The work of a poll up to its commit. -/
def ingestMail (lib : DatetimeLib) (rt : Runtime) (settings : Settings) (folder : String)
    (correlationId : String) : Tx (List NormalizedEvent) := do
  let cursor ← getCursor "imap"
  let since ← parseSinceDate lib cursor
  let rawItems ← Db.fetchMail folder since
  let collected ← rawItems.foldlM (collectMessage lib rt settings correlationId) ([], none)
  saveMaxDate lib collected.2
  storeCollected collected.1 correlationId

/-- A poll of the mailbox. -/
def imapRun (lib : DatetimeLib) (rt : Runtime) (settings : Settings) (folder : String) :
    LoggedRun (List NormalizedEvent) Unit where
  operation := "imap_poll"
  body := ingestMail lib rt settings folder
  result _ := ()
  handler := failRun

theorem imapRun_opened (run : String × Uuid) :
    (imapRun lib rt settings imapSettings.IMAP_FOLDER).opened run = Prog.tryCatch
      (do
        let cursor ← getCursor "imap"
        let since ← parseSinceDate lib cursor
        let rawItems ← Db.fetchMail imapSettings.IMAP_FOLDER since
        let collected ← rawItems.foldlM (collectMessage lib rt settings run.1) ([], none)
        saveMaxDate lib collected.2
        if collected.1.isEmpty then
          Prog.commitWork
          completeSyncLog run.2
        else
          let _ ← NormalizedEventService.upsertEventsBulk collected.1 (some run.1)
          Prog.commitWork
          completeSyncLog run.2)
      (failRun run) := by
  have settled : ∀ a, (imapRun lib rt settings imapSettings.IMAP_FOLDER).settle run a =
      (do
        Prog.commitWork
        completeSyncLog run.2) := by
    intro a
    exact congrArg (fun p => Prog.commitWork >>= fun _ => p) (Prog.bind_pure _)
  have stored : ∀ batch, storeCollected batch run.1 >>=
      (imapRun lib rt settings imapSettings.IMAP_FOLDER).settle run =
        if batch.isEmpty then (do
          Prog.commitWork
          completeSyncLog run.2)
        else (do
          let _ ← NormalizedEventService.upsertEventsBulk batch (some run.1)
          Prog.commitWork
          completeSyncLog run.2) := by
    intro batch
    unfold storeCollected
    split
    · exact settled []
    · exact congrArg (fun f => NormalizedEventService.upsertEventsBulk batch (some run.1) >>= f)
        (funext settled)
  unfold LoggedRun.opened
  refine congrArg (fun p => Prog.tryCatch p (failRun run)) ?_
  change ingestMail lib rt settings imapSettings.IMAP_FOLDER run.1 >>= _ = _
  simp only [ingestMail, Prog.bind_assoc, stored]

theorem syncImapMessages_eq (configured : imapSettings.IMAP_HOST ≠ "") :
    syncImapMessages lib rt settings imapSettings = (openRun "imap_poll" >>= fun run => do
      Prog.ofAnswer (IMAPConnector.new imapSettings.IMAP_HOST imapSettings.IMAP_USERNAME
        imapSettings.IMAP_PASSWORD)
      (imapRun lib rt settings imapSettings.IMAP_FOLDER).opened run) := by
  unfold syncImapMessages openRun
  rw [if_neg configured]
  simp only [imapRun_opened, Prog.bind_assoc]
  rfl

/-- The date from which a poll searches, given the watermark. -/
def sinceDate (lib : DatetimeLib) (cursor : Option String) : Except Exn (Option Datetime) :=
  match cursor with
  | some cursor => if cursor = "" then .ok none else (lib.fromisoformat cursor).map some
  | none => .ok none

theorem parseSinceDate_eq (cursor : Option String) :
    parseSinceDate lib cursor = Prog.ofAnswer (sinceDate lib cursor) := by
  cases cursor with
  | none => rfl
  | some cursor =>
      simp only [parseSinceDate, sinceDate]
      split
      · rfl
      · cases lib.fromisoformat cursor <;> rfl

/-- The latest date of the messages that were fetched. -/
def latestDate (raws : List RawMessage) : Except Exn (Option Datetime) :=
  (raws.map RawMessage.date).foldlM laterDate none

/-- The events of the fetched messages, each with the id of its raw payload. -/
def MailNormalized (lib : DatetimeLib) (raws : List RawMessage)
    (batch : List NormalizedEventCreate) : Prop :=
  Batched (fun raw result => ∃ id, IMAPConnector.normalize lib raw (some id) = result) raws batch

/-- From `s` to `t` a poll has fetched messages and has stored their events. -/
def MailImported (lib : DatetimeLib) (rt : Runtime) (folder : String) (remote : Remote)
    (s t : Store) : Prop :=
  ∃ since raws batch maxDate, sinceDate lib (s.cursorOf "imap") = .ok since ∧
    (∀ xs, remote (.fetchMail folder since) = some xs → raws = xs) ∧
      latestDate raws = .ok maxDate ∧ MailNormalized lib raws batch ∧
        Ingested rt "imap" "imap_poll" (raws.map (RawMessage.modelDump lib)) batch
          (maxDate.map lib.isoformat) s t

theorem MailImported.congr {folder : String} {remote : Remote} {s s' t t' : Store}
    (h : MailImported lib rt folder remote s t) (before : s.SameContent s')
    (after : t.SameContent t') : MailImported lib rt folder remote s' t' := by
  obtain ⟨since, raws, batch, maxDate, resumes, answered, latest, normalized, ingested⟩ := h
  rw [← cursorOf_of_sameContent before] at resumes
  exact ⟨since, raws, batch, maxDate, resumes, answered, latest, normalized,
    ingested.congr before after⟩

section Collect

variable {correlationId : String} {s : Store} {ws : List Write}

/-- The loop over the fetched messages has visited `first`. -/
structure CollectingMail (lib : DatetimeLib) (rt : Runtime) (s : Store) (first : List RawMessage)
    (collected : List NormalizedEventCreate × Option Datetime) (ws : List Write) : Prop where
  payloads : OnlyPayloads ws
  kept : ∀ raw ∈ first, Kept rt "imap_poll" (raw.modelDump lib) (postgres.view s ws)
  normalized : MailNormalized lib first collected.1
  latest : latestDate first = .ok collected.2

theorem CollectingMail.initial (s : Store) : CollectingMail lib rt s [] ([], none) [] :=
  ⟨fun _ hw => (List.not_mem_nil hw).elim, fun _ hr => (List.not_mem_nil hr).elim, .nil, rfl⟩

theorem latestDate_concat {raws : List RawMessage} {raw : RawMessage} {maxDate : Option Datetime}
    (h : latestDate raws = .ok maxDate) :
    latestDate (raws ++ [raw]) = laterDate maxDate raw.date := by
  unfold latestDate at h ⊢
  rw [List.map_append, List.foldlM_append, h]
  exact bind_pure (laterDate maxDate raw.date)

/-- One iteration of the loop. -/
theorem wp_collectMessage {σ : State Unit} {first : List RawMessage} {raw : RawMessage}
    {collected : List NormalizedEventCreate × Option Datetime}
    (h : CollectingMail lib rt s first collected ws) (same : σ.store = s) :
    wp serial () (collectMessage lib rt settings correlationId collected raw)
      (fun r τ vs => ∀ next, r = .ok next → τ.store = s ∧
        CollectingMail lib rt s (first ++ [raw]) next vs) σ ws := by
  unfold collectMessage
  rw [wp_bind, wp_ofAnswer]
  have latest : latestDate (first ++ [raw]) = laterDate collected.2 raw.date :=
    latestDate_concat h.latest
  cases later : laterDate collected.2 raw.date with
  | error e => exact fun _ impossible => (nomatch impossible)
  | ok maxDate =>
  rw [Post.andThen_ok, wp_bind]
  refine wp_mono wp_saveRawPayload (fun r τ vs post => ?_)
  cases r with
  | error e => exact fun _ impossible => (nomatch impossible)
  | ok id =>
      obtain ⟨store, new, rfl, payloads, current⟩ := post id rfl
      have kept : τ.store = s := store.trans same
      have both : OnlyPayloads (ws ++ new) := fun w hw =>
        (List.mem_append.mp hw).elim (h.payloads w) (payloads w)
      have all : ∀ x ∈ first ++ [raw],
          Kept rt "imap_poll" (x.modelDump lib) (postgres.view s (ws ++ new)) := by
        intro x hx
        rcases List.mem_append.mp hx with old | now
        · rw [postgres.view_append]
          exact (h.kept x old).view payloads
        · rw [List.mem_singleton.mp now, ← kept]
          exact current
      have normalized : MailNormalized lib (first ++ [raw])
          (collected.1 ++ (IMAPConnector.normalize lib raw (some id)).toList) :=
        h.normalized.concat ⟨id, rfl⟩
      rw [Post.andThen_ok]
      cases made : IMAPConnector.normalize lib raw (some id) with
      | none =>
          rintro _ ⟨⟩
          rw [made, Option.toList_none, List.append_nil] at normalized
          exact ⟨kept, both, all, normalized, latest.trans later⟩
      | some e =>
          rintro _ ⟨⟩
          rw [made] at normalized
          exact ⟨kept, both, all, normalized, latest.trans later⟩

theorem wp_collectMail {σ : State Unit} (raws : List RawMessage) (same : σ.store = s) :
    wp serial () (raws.foldlM (collectMessage lib rt settings correlationId) ([], none))
      (fun r τ vs => ∀ collected, r = .ok collected → τ.store = s ∧
        CollectingMail lib rt s raws collected vs) σ [] := by
  refine wp_foldlM (fun collected rest τ vs => τ.store = s ∧ ∃ first, raws = first ++ rest ∧
    CollectingMail lib rt s first collected vs) ?_ ?_ ([], none) raws ?_
  · rintro collected raw rest τ vs ⟨here, first, rfl, collecting⟩
    refine wp_mono (wp_collectMessage collecting here) (fun r υ vs post => ?_)
    cases r with
    | error e => exact fun _ impossible => (nomatch impossible)
    | ok next =>
        obtain ⟨store, next⟩ := post next rfl
        exact ⟨store, first ++ [raw], by simp, next⟩
  · rintro collected τ vs ⟨here, first, rfl, collecting⟩
    rintro _ ⟨⟩
    rw [List.append_nil]
    exact ⟨here, collecting⟩
  · exact ⟨same, [], rfl, .initial s⟩

end Collect

section Poll

variable {folder correlationId : String}

theorem wp_saveMaxDate {σ : State Unit} {ws : List Write} {maxDate : Option Datetime} :
    wp serial () (saveMaxDate lib maxDate)
      (WatermarkSaved "imap" (maxDate.map lib.isoformat) σ ws) σ ws := by
  cases maxDate with
  | none => exact watermarkSaved_none
  | some t => exact wp_setCursor

/-- What a poll leaves that has fetched `raws`, up to its commit. -/
theorem wp_storeMail {σ : State Unit} {raws : List RawMessage}
    (unique : σ.store.EventIdsUnique) :
    wp serial ()
      (do
        let collected ← raws.foldlM (collectMessage lib rt settings correlationId) ([], none)
        saveMaxDate lib collected.2
        storeCollected collected.1 correlationId)
      (fun r τ ws => ∀ results, r = .ok results → τ.store = σ.store ∧ ∃ batch maxDate,
        latestDate raws = .ok maxDate ∧ MailNormalized lib raws batch ∧
          Ingested rt "imap" "imap_poll" (raws.map (RawMessage.modelDump lib)) batch
            (maxDate.map lib.isoformat) σ.store (postgres.view σ.store ws)) σ [] := by
  rw [wp_bind]
  refine wp_mono (wp_collectMail raws rfl) (fun r τ ws post => ?_)
  cases r with
  | error e => exact fun _ impossible => (nomatch impossible)
  | ok collected =>
      obtain ⟨store, payloads, kept, normalized, latest⟩ := post collected rfl
      rw [Post.andThen_ok, wp_bind]
      refine wp_mono wp_saveMaxDate (fun r υ vs post => ?_)
      cases r with
      | error e => exact fun _ impossible => (nomatch impossible)
      | ok _ =>
          obtain ⟨store', new, rfl, cursors, cursorSet⟩ := post () rfl
          have here : υ.store = σ.store := store'.trans store
          have pending : Pending υ.store (ws ++ new) := by
            refine .of_other (fun w hw => ?_)
            rcases List.mem_append.mp hw with old | added
            · exact .inl (payloads.table w old)
            · exact .inr (cursors w added)
          rw [store] at cursorSet
          have ids : (postgres.view υ.store (ws ++ new)).EventIdsUnique := by
            rw [here]
            unfold Store.EventIdsUnique
            rw [cursorSet.rest]
            exact payloads.eventIdsUnique unique
          rw [Post.andThen_ok]
          refine wp_mono (wp_storeCollected pending (here ▸ unique) ids) (fun r φ us post => ?_)
          rintro results rfl
          obtain ⟨store'', new', rfl, batchStored⟩ := post results rfl
          rw [here] at batchStored
          obtain ⟨first, then'⟩ := BatchStored.swap cursorSet batchStored
          refine ⟨store''.trans here, collected.1, collected.2, latest, normalized, ?_⟩
          exact .of_phases payloads (List.forall_mem_map.mpr kept) first then'

/-- What a poll leaves up to its commit. -/
theorem wp_ingestMail {σ : State Unit} (unique : σ.store.EventIdsUnique) :
    wp serial () (ingestMail lib rt settings folder correlationId)
      (fun r τ ws => ∀ results, r = .ok results → τ.store = σ.store ∧
        MailImported lib rt folder σ.world.remote σ.store (postgres.view σ.store ws)) σ [] := by
  unfold ingestMail getCursor
  rw [wp_bind, wp_bind]
  refine wp_selectCursor hosts_serial
    (fun τ rely _ => ⟨fun _ _ impossible => (nomatch impossible), ?_⟩)
  rw [Post.andThen_ok, wp_pure, Post.andThen_ok, parseSinceDate_eq, wp_bind, wp_ofAnswer]
  have before : τ.store = σ.store := alone_store rely
  change Post.andThen _ _ (sinceDate lib (τ.store.cursorOf "imap")) τ []
  rw [before]
  cases resumes : sinceDate lib (σ.store.cursorOf "imap") with
  | error e => exact fun _ impossible => (nomatch impossible)
  | ok since =>
      rw [Post.andThen_ok, wp_bind]
      refine wp_fetchMail (fun υ rely' _ => ⟨fun _ _ impossible => (nomatch impossible), ?_⟩)
      intro raws known
      have same : υ.store = σ.store := (alone_store rely').trans before
      have remote : υ.world.remote = σ.world.remote := by
        rw [(alone_world rely').2, (alone_world rely).2]
      rw [remote] at known
      rw [Post.andThen_ok]
      refine wp_mono (wp_storeMail (same ▸ unique)) (fun r φ ws post => ?_)
      rintro results rfl
      obtain ⟨store, batch, maxDate, latest, normalized, ingested⟩ := post results rfl
      rw [same] at store ingested
      exact ⟨store, since, raws, batch, maxDate, resumes, known, latest, normalized, ingested⟩

theorem ingestMail_ingests :
    (ingestMail lib rt settings folder correlationId).Within Stmt.Ingesting := by
  unfold ingestMail
  refine .bind (.bind (.issue trivial) (fun _ => trivial)) (fun cursor => .bind ?_ (fun since => ?_))
  · rw [parseSinceDate_eq]
    exact ofAnswer_ingests _
  · refine .bind (.issue trivial) (fun rawItems => .bind (.foldlM _ _ ?_) (fun collected => ?_))
    · intro collected raw _
      unfold collectMessage
      refine .bind (ofAnswer_ingests _) (fun maxDate => ?_)
      refine .bind (saveRawPayload_ingests _ _ _) (fun id => ?_)
      split <;> trivial
    · refine .bind ?_ (fun _ => ?_)
      · unfold saveMaxDate
        split
        · exact setCursor_ingests _ _ _
        · trivial
      · unfold storeCollected
        split
        · trivial
        · exact upsertEventsBulk_ingests _ _

theorem imapRun_proper : (imapRun lib rt settings folder).Proper where
  ingesting _ := ingestMail_ingests
  doomed := LoggedRun.failRun_doomed
  books := LoggedRun.failRun_books

theorem imapRun_stores (remote : Remote) : (imapRun lib rt settings folder).Stores remote
    (MailImported lib rt folder remote) := by
  intro cid σ unique answers
  refine wp_mono (wp_ingestMail unique) (fun r τ ws post results value => ?_)
  obtain ⟨same, imported⟩ := post results value
  rw [same, ← answers]
  exact imported

end Poll

/-- Without a host there is nothing to poll. -/
theorem syncImapMessages_skips {start τ : State Unit} (skips : imapSettings.IMAP_HOST = "")
    (h : postgres.Completes () (syncImapMessages lib rt settings imapSettings) start () τ) :
    τ = start := by
  have run : postgres.Completes () (.ret () : Tx Unit) start () τ := by
    unfold syncImapMessages at h
    rw [if_pos skips] at h
    exact h
  exact run.of_ret

/-- What a poll of the mailbox that returns has stored. -/
theorem syncImapMessages_imports {start τ : State Unit} (unique : start.store.EventIdsUnique)
    (configured : imapSettings.IMAP_HOST ≠ "")
    (h : postgres.Completes () (syncImapMessages lib rt settings imapSettings) start () τ) :
    MailImported lib rt imapSettings.IMAP_FOLDER start.world.remote start.store τ.store := by
  rw [syncImapMessages_eq configured] at h
  cases made : IMAPConnector.new imapSettings.IMAP_HOST imapSettings.IMAP_USERNAME
    imapSettings.IMAP_PASSWORD with
  | error e =>
      rw [made] at h
      exact (h.not_doomed (Prog.doomed_bind _ (fun _ => trivial))).elim
  | ok _ =>
      rw [made] at h
      have run : postgres.Completes () (imapRun lib rt settings imapSettings.IMAP_FOLDER).prog start
        () τ := h
      obtain ⟨s, t, before, after, imported⟩ :=
        LoggedRun.completes imapRun_proper (imapRun_stores _) unique run
      exact imported.congr before.symm after

end OmniSync
