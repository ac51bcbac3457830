import OmniSync.Database.Content
import OmniSync.Events.Serial
import OmniSync.SyncLogs.Service
import OmniSync.Txn.Steps

/-!
# Logged runs

A poller opens an entry of the sync log, does its work in one transaction, commits it, and
completes its entry. If it fails at any point it rolls back, keeps book of the failure and
fails. `LoggedRun.steps` finds the commit in the steps of any run: before it the content of
the database is what it was, and after it the content is that of a run that returns, whether
or not the bookkeeping that follows succeeds. A run that has stored nothing leaves no trace
that a later run can see: `LoggedRun.resumed`.
-/

namespace OmniSync

open Txn

/-- The start of a run. -/
def openRun (operation : String) : Tx (String × Uuid) := do
  let correlationId ← Db.generateCorrelationId
  let logId ← createSyncLog true correlationId operation
  return (correlationId, logId)

/-- A run: the work up to its commit, and what it does when it fails. -/
structure LoggedRun (α β : Type) where
  operation : String
  body : String → Tx α
  result : α → β
  handler : String × Uuid → Exn → Tx β

namespace LoggedRun

variable {α β : Type} (R : LoggedRun α β)

/-- What a run does after its commit. -/
def finish (run : String × Uuid) (a : α) : Tx β := do
  updateSyncLogStatus true run.2 .completed none
  return R.result a

/-- A run has done its work. -/
def settle (run : String × Uuid) (a : α) : Tx β := do
  Prog.commitWork
  R.finish run a

/-- A run that has been opened. -/
def opened (run : String × Uuid) : Tx β :=
  Prog.tryCatch (R.body run.1 >>= R.settle run) (R.handler run)

/-- A run whose work has been committed. -/
def committed (run : String × Uuid) (a : α) : Tx β :=
  Prog.tryCatch (R.finish run a) (R.handler run)

def prog : Tx β := openRun R.operation >>= R.opened

end LoggedRun

section Bookkeeping

variable {K : Store → Prop} {σ : State Unit} {ws : List Write}

/-- A property of the store that a run keeps as long as it only keeps book. -/
structure KeptByBooks (K : Store → Prop) : Prop where
  started : ∀ {s row}, row.status = .started → K s → K (s.put (.addSyncLog row))
  failed : ∀ {s id errorText}, K s → K (s.put (.setSyncLog id .failed errorText))
  queue : ∀ {s w}, w.table = .failedEvents → K s → K (s.put w)

/-- The protocol of a run that keeps a property of the store. -/
def keeping (K : Store → Prop) : Protocol postgres Unit :=
  alone (fun σ => K σ.store) (fun _ _ _ => True)

theorem hosts_keeping : Hosts (keeping K) := hosts_alone (fun _ _ kept => kept)

theorem wp_openRun (kept : KeptByBooks K) {operation : String} :
    wp (keeping K) () (openRun operation) (fun r _ vs => ∀ run, r = .ok run → vs = []) σ [] := by
  unfold openRun
  rw [wp_bind]
  refine wp_generateCorrelationId hosts_keeping (fun τ _ _ correlationId => ?_)
  rw [Post.andThen_ok, wp_bind]
  unfold createSyncLog
  rw [wp_bind]
  refine wp_insertSyncLog hosts_keeping
    (fun τ _ _ => ⟨fun _ _ impossible => (nomatch impossible), ?_⟩)
  intro id t _
  rw [Post.andThen_ok, if_pos rfl, wp_bind, wp_commitWork]
  intro υ _ inv
  refine ⟨fun _ _ impossible => (nomatch impossible), alone_guarantees (kept.started rfl inv), ?_⟩
  exact fun _ _ => rfl

/-- An update of the log in a session of its own. -/
theorem wp_updateSyncLogStatus_keeping {logId : Uuid} {status : RunStatus}
    {errorText : Option String}
    (kept : ∀ s, K s → K (s.put (.setSyncLog logId status errorText))) :
    wp (keeping K) () (updateSyncLogStatus true logId status errorText)
      (fun _ _ vs => vs = []) σ [] := by
  unfold updateSyncLogStatus
  rw [wp_bind]
  refine wp_updateSyncLog hosts_keeping (fun τ _ _ => ⟨fun _ => rfl, ?_⟩)
  rw [Post.andThen_ok, if_pos rfl, wp_commitWork]
  intro υ _ inv
  refine ⟨fun _ => rfl, alone_guarantees ?_, rfl⟩
  split
  · exact kept υ.store inv
  · exact inv

end Bookkeeping

/-- What most runs do when they fail. -/
def failRun {β : Type} (run : String × Uuid) (e : Exn) : Tx β := do
  Prog.rollbackWork
  updateSyncLogStatus true run.2 .failed (some e.message)
  throw e

section Rules

variable {ι α β : Type} {P : Protocol postgres ι} {i : ι} {σ : State ι}

/-- Nothing but entries of the log is written. -/
def OnlyLogs (ws : List Write) : Prop := ∀ w ∈ ws, w.table = .syncLogs

/-- The protocol lets a session commit entries of the log. -/
def LogsAllowed (P : Protocol postgres ι) (i : ι) : Prop :=
  ∀ ws τ, OnlyLogs ws → P.inv τ → P.Guarantees i ws τ (postgres.publish τ i ws)

theorem wp_openRun_logged (hosts : Hosts P) (logs : LogsAllowed P i) {operation : String}
    {Q : Post Exn Store Write World ι (String × Uuid)}
    (failing : ∀ e τ vs, P.inv τ → Q (.error e) τ vs)
    (h : ∀ τ ws run, P.rely [] σ τ → OnlyLogs ws → P.inv (postgres.publish τ i ws) →
      Q (.ok run) (postgres.publish τ i ws) []) : wp P i (openRun operation) Q σ [] := by
  unfold openRun
  rw [wp_bind]
  refine wp_generateCorrelationId hosts (fun τ rely _ correlationId => ?_)
  rw [Post.andThen_ok, wp_bind]
  unfold createSyncLog
  rw [wp_bind]
  refine wp_insertSyncLog hosts (fun υ rely' inv => ⟨fun e => failing e υ _ inv, fun id t _ => ?_⟩)
  rw [Post.andThen_ok, if_pos rfl, wp_bind, wp_commitWork]
  intro φ rely'' inv
  have only : OnlyLogs [.addSyncLog ⟨id, correlationId, operation, .started, none, t⟩] := by
    intro w hw
    rw [List.mem_singleton.mp hw]
    rfl
  have guarantee := logs _ φ only inv
  have since := P.rely_trans (P.rely_trans rely rely') (hosts.weaken rely'')
  exact ⟨fun e => failing e φ [] inv, guarantee, h φ _ _ since only guarantee.inv⟩

theorem wp_updateSyncLogStatus_logged (hosts : Hosts P) (logs : LogsAllowed P i) {logId : Uuid}
    {status : RunStatus} {errorText : Option String} {Q : Post Exn Store Write World ι Unit}
    (failing : ∀ e τ, P.inv τ → Q (.error e) τ [])
    (h : ∀ τ ws, P.rely [] σ τ → OnlyLogs ws → P.inv (postgres.publish τ i ws) →
      Q (.ok ()) (postgres.publish τ i ws) []) :
    wp P i (updateSyncLogStatus true logId status errorText) Q σ [] := by
  unfold updateSyncLogStatus
  rw [wp_bind]
  refine wp_updateSyncLog hosts (fun τ rely inv => ⟨fun e => failing e τ inv, ?_⟩)
  rw [Post.andThen_ok, if_pos rfl, wp_commitWork]
  intro υ rely' inv
  have only : OnlyLogs ([] ++ if ((postgres.view τ.store []).syncLogs.find logId).isSome then
      [.setSyncLog logId status errorText] else []) := by
    intro w hw
    rw [List.nil_append] at hw
    split at hw
    · rw [List.mem_singleton.mp hw]
      rfl
    · exact (List.not_mem_nil hw).elim
  have guarantee := logs _ υ only inv
  have since := P.rely_trans rely (hosts.weaken rely')
  exact ⟨fun e => failing e υ inv, guarantee, h υ _ since only guarantee.inv⟩

/-- A run that fails does not return. -/
theorem wp_failRun (hosts : Hosts P) (logs : LogsAllowed P i) {run : String × Uuid} {e : Exn}
    {ws : List Write} {Q : Post Exn Store Write World ι β}
    (failing : ∀ e τ vs, P.inv τ → Q (.error e) τ vs) :
    wp P i (failRun run e) Q σ ws := by
  unfold failRun
  rw [wp_bind, wp_rollbackWork]
  intro τ _ _
  rw [Post.andThen_ok, wp_bind]
  refine wp_updateSyncLogStatus_logged hosts logs (fun e υ inv => failing e υ [] inv)
    (fun υ ws _ _ inv => ?_)
  rw [Post.andThen_ok, wp_throw]
  exact failing e _ [] inv

variable {R : LoggedRun α β} {Q : Except Exn β → State ι → Prop}

/-- What a run leaves, given what its work leaves up to the commit. -/
theorem LoggedRun.wp_prog (hosts : Hosts P) (logs : LogsAllowed P i) (fails : R.handler = failRun)
    (stable : ∀ {r σ τ ws}, Q r σ → P.rely ws σ τ → Q r τ)
    (kept : ∀ {b τ ws}, OnlyLogs ws → Q (.ok b) τ → Q (.ok b) (postgres.publish τ i ws))
    (failing : ∀ e τ, P.inv τ → Q (.error e) τ)
    (body : ∀ cid τ ws, P.rely [] σ τ → OnlyLogs ws → P.inv (postgres.publish τ i ws) →
      wp P i (R.body cid) (fun r υ vs => ∀ a, r = .ok a → ∀ φ, P.rely vs υ φ → P.inv φ →
        P.Guarantees i vs φ (postgres.publish φ i vs) ∧
          Q (.ok (R.result a)) (postgres.publish φ i vs)) (postgres.publish τ i ws) []) :
    wp P i R.prog (fun r τ _ => Q r τ) σ [] := by
  have caught : ∀ run e (τ : State ι) vs, wp P i (R.handler run e) (fun r τ _ => Q r τ) τ vs := by
    intro run e τ vs
    rw [fails]
    exact wp_failRun hosts logs (fun e υ _ inv => failing e υ inv)
  unfold prog
  rw [wp_bind]
  refine wp_openRun_logged hosts logs (fun e τ _ inv => failing e τ inv)
    (fun τ ws run rely only inv => ?_)
  rw [Post.andThen_ok]
  unfold opened
  rw [wp_tryCatch, wp_bind]
  refine wp_mono (body run.1 τ ws rely only inv) (fun r υ vs post => ?_)
  cases r with
  | error e => exact caught run e υ vs
  | ok a =>
      rw [Post.andThen_ok]
      unfold settle
      rw [wp_bind, wp_commitWork]
      intro φ rely' inv'
      obtain ⟨guarantee, done⟩ := post a rfl φ rely' inv'
      refine ⟨fun e => caught run e φ [], guarantee, ?_⟩
      rw [Post.andThen_ok]
      unfold finish
      rw [wp_bind]
      refine wp_updateSyncLogStatus_logged hosts logs (fun e ψ _ => caught run e ψ [])
        (fun ψ us rely'' only' _ => ?_)
      rw [Post.andThen_ok, wp_pure]
      exact kept only' (stable done rely'')

end Rules

/-- From `s` to `t` the content is unchanged, and no run was logged as completed. -/
structure Pristine (s t : Store) : Prop where
  content : s.SameContent t
  completed : ∀ log ∈ t.syncLogs, log.status = .completed → log ∈ s.syncLogs

theorem Pristine.refl (s : Store) : Pristine s s := ⟨.refl s, fun _ hl _ => hl⟩

theorem Pristine.keptByBooks (s : Store) : KeptByBooks (Pristine s) where
  started := by
    intro t row started h
    refine ⟨h.content.trans (Store.sameContent_put (.inr (.inl rfl))), ?_⟩
    intro log hl completed
    rcases Table.mem_of_mem_add hl with old | rfl
    · exact h.completed log old completed
    · rw [started] at completed
      cases completed
  failed := by
    intro t id errorText h
    refine ⟨h.content.trans (Store.sameContent_put (.inr (.inl rfl))), ?_⟩
    intro log hl completed
    obtain ⟨old, ho, rfl⟩ := Store.mem_put_setSyncLog.mp hl
    split at completed
    · cases completed
    · rename_i other
      rw [if_neg other]
      exact h.completed old ho completed
  queue := by
    intro t w table h
    refine ⟨h.content.trans (Store.sameContent_put (.inl table)), ?_⟩
    rw [Store.put_syncLogs_of_table (by rw [table]; decide)]
    exact h.completed

theorem sameContent_keptByBooks (s : Store) : KeptByBooks s.SameContent where
  started _ h := h.trans (Store.sameContent_put (.inr (.inl rfl)))
  failed h := h.trans (Store.sameContent_put (.inr (.inl rfl)))
  queue table h := h.trans (Store.sameContent_put (.inl table))

section Grown

variable {start τ : State Unit}

theorem find_put_setSyncLog_eq_none {s : Store} {id k : Uuid} {status : RunStatus}
    {errorText : Option String} :
    (s.put (.setSyncLog id status errorText)).syncLogs.find k = none ↔
      s.syncLogs.find k = none := by
  have found : (s.put (.setSyncLog id status errorText)).syncLogs.find k =
      if k = id then (s.syncLogs.find k).map (·.setStatus status errorText)
      else s.syncLogs.find k :=
    Table.find_modify (fun row => row.setStatus_id status errorText)
  rw [found]
  split
  · exact Option.map_eq_none_iff
  · rfl

theorem find_syncLogs_of_view {s : Store} {ws : List Write} {id : Uuid}
    (absent : (postgres.view s ws).syncLogs.find id = none) : s.syncLogs.find id = none := by
  induction ws generalizing s with
  | nil => exact absent
  | cons w ws ih =>
      have before := ih absent
      cases w with
      | addSyncLog row =>
          rw [Table.find_eq_none_iff] at before ⊢
          exact fun x hx => before x (Table.mem_add_of_mem hx)
      | setSyncLog => exact find_put_setSyncLog_eq_none.mp before
      | _ => exact before

/-- Since `start` time has passed and no entry of the log has disappeared. -/
structure Grown (start τ : State Unit) : Prop where
  world : start.world.Before τ.world
  logs : ∀ id, τ.store.syncLogs.find id = none → start.store.syncLogs.find id = none

/-- Any program, running alone, leaves the log entries and the services as they are. -/
theorem solo_grown {α : Type} {p : Tx α} {next : TxSession α × State Unit}
    (h : postgres.Solo (fun _ _ _ => True) () (⟨p, []⟩, start) next) : Grown start next.2 := by
  refine (wp_solo (alone (Grown start) (fun _ _ _ => True)) Protocol.Final.trivial ?_ ?_ h).1
  · exact ⟨⟨Clock.Le.refl _, rfl⟩, fun _ absent => absent⟩
  · refine wp_any (R := fun _ _ => True) (fun _ _ _ => trivial) ?_ ?_ (fun _ => trivial) trivial p
    · intro s σ ws choice locked answer new world _ inv _ run
      refine ⟨alone_guarantees ⟨⟨inv.world.clock.trans (exec_later run), ?_⟩, inv.logs⟩, trivial⟩
      exact (exec_remote run).trans inv.world.remote
    · intro σ ws _ inv
      refine alone_guarantees ⟨inv.world, fun id absent => inv.logs id ?_⟩
      exact find_syncLogs_of_view absent

end Grown

namespace LoggedRun

variable {α β : Type} {R : LoggedRun α β} {start τ : State Unit}
variable {next : TxSession β × State Unit}

/-- Up to its commit a run ingests, and a run that fails only keeps book. -/
structure Proper (R : LoggedRun α β) : Prop where
  ingesting : ∀ cid, (R.body cid).Within Stmt.Ingesting
  doomed : ∀ run e, (R.handler run e).Doomed
  books : ∀ {K}, KeptByBooks K → ∀ run e σ ws,
    wp (keeping K) () (R.handler run e) (fun _ _ _ => True) σ ws

theorem failRun_doomed (run : String × Uuid) (e : Exn) : (failRun run e : Tx β).Doomed :=
  Prog.doomed_bind _ (fun _ => Prog.doomed_bind _ (fun _ => trivial))

theorem failRun_books {K : Store → Prop} (kept : KeptByBooks K) (run : String × Uuid) (e : Exn)
    (σ : State Unit) (ws : List Write) :
    wp (keeping K) () (failRun run e : Tx β) (fun _ _ _ => True) σ ws := by
  unfold failRun
  rw [wp_bind, wp_rollbackWork]
  intro τ _ _
  rw [Post.andThen_ok, wp_bind]
  refine wp_mono (wp_updateSyncLogStatus_keeping (fun _ => kept.failed)) (fun r υ vs post => ?_)
  cases r <;> exact trivial

/-- What a run stores, given the answers of the services. -/
def Stores (R : LoggedRun α β) (remote : Remote) (Φ : Store → Store → Prop) : Prop :=
  ∀ cid (σ : State Unit), σ.store.EventIdsUnique → σ.world.remote = remote →
    wp serial () (R.body cid)
      (fun r τ ws => ∀ a, r = .ok a → Φ σ.store (postgres.view τ.store ws)) σ []

/-- A run has come to its commit in `σ` with `ws` pending. -/
def AtCommit (R : LoggedRun α β) (start : State Unit) (run : String × Uuid) (a : α)
    (ws : List Write) (σ : State Unit) : Prop :=
  postgres.Steps () (⟨R.prog, []⟩, start) (⟨R.committed run a, []⟩, postgres.publish σ () ws)

theorem steps_handler (proper : R.Proper) {K : Store → Prop} (kept : KeptByBooks K)
    {run : String × Uuid} {e : Exn} {ws : List Write} {σ : State Unit} (holds : K σ.store)
    (h : postgres.Steps () (⟨R.handler run e, ws⟩, σ) next) :
    K next.2.store ∧ ∀ b, next.1.prog ≠ .ret b :=
  ⟨(Engine.Steps.wp (keeping K) (fun _ _ _ => trivial) holds (proper.books kept run e σ ws) h).1,
    Engine.Steps.doomed (proper.doomed run e) h⟩

theorem steps_openRun {operation : String} {next : TxSession (String × Uuid) × State Unit}
    (h : postgres.Steps () (⟨openRun operation, []⟩, start) next) :
    Pristine start.store next.2.store ∧ ∀ run, next.1.prog = .ret run → next.1.writes = [] := by
  have verified : wp (keeping (Pristine start.store)) () (openRun operation)
      (fun r _ vs => ∀ run, r = .ok run → vs = []) start [] :=
    wp_openRun (Pristine.keptByBooks start.store)
  obtain ⟨inv, rest⟩ := Engine.Steps.wp (keeping (Pristine start.store)) (fun _ _ _ => trivial)
    (Pristine.refl start.store) verified h
  refine ⟨inv, fun run returned => ?_⟩
  rw [returned] at rest
  exact rest run rfl

/-- A run that has not come to its commit has changed nothing. -/
theorem steps (proper : R.Proper) {Φ : Store → Store → Prop}
    (stores : R.Stores start.world.remote Φ) (unique : start.store.EventIdsUnique)
    (h : postgres.Steps () (⟨R.prog, []⟩, start) next) :
    (Pristine start.store next.2.store ∧ ∀ b, next.1.prog ≠ .ret b) ∨
      ∃ run a ws σ, R.AtCommit start run a ws σ ∧
        (∃ s, start.store.SameContent s ∧ Φ s (postgres.view σ.store ws)) ∧
          postgres.Steps () (⟨R.committed run a, []⟩, postgres.publish σ () ws) next := by
  have books := Pristine.keptByBooks start.store
  have unreturned : ∀ {p : Tx β}, p.running = true → ∀ b, p ≠ .ret b := by
    rintro _ running b rfl
    cases running
  have whole : postgres.Steps () (Engine.inside (fun p => p >>= R.opened)
      (⟨openRun R.operation, []⟩, start)) next := h
  rcases Engine.Steps.of_context (Prog.context_bind _) whole with
    ⟨now, running, part, rfl⟩ | ⟨⟨⟨p, ws⟩, σ⟩, ended, opening, rest⟩
  · exact .inl ⟨(steps_openRun part).1, unreturned ((Prog.context_bind _).running running)⟩
  obtain ⟨pristine, post⟩ := steps_openRun opening
  cases p with
  | stmt | commit | rollback => cases ended
  | raise e =>
      cases Engine.Steps.of_not_running rfl rest
      exact .inl ⟨pristine, fun b => nofun⟩
  | ret run =>
  obtain rfl : ws = [] := post run rfl
  have upTo : postgres.Steps () (⟨R.prog, []⟩, start) (⟨R.opened run, []⟩, σ) :=
    opening.context (Prog.context_bind _)
  -- The work of the run, up to the commit.
  have context := (Prog.context_tryCatch (R.handler run)).comp (Prog.context_bind (R.settle run))
  have working : postgres.Steps () (Engine.inside (fun p => Prog.tryCatch (p >>= R.settle run)
      (R.handler run)) (⟨R.body run.1, []⟩, σ)) next := rest
  rcases Engine.Steps.of_context context working with
    ⟨now, running, part, rfl⟩ | ⟨⟨⟨p, ws⟩, υ⟩, ended, done, rest⟩
  · obtain ⟨_, store, _⟩ := part.of_within (proper.ingesting run.1)
    refine .inl ⟨?_, unreturned (context.running running)⟩
    change Pristine start.store now.2.store
    rw [store]
    exact pristine
  obtain ⟨_, store, _⟩ := done.of_within (proper.ingesting run.1)
  have here : Pristine start.store υ.store := by
    rw [store]
    exact pristine
  cases p with
  | stmt | commit | rollback => cases ended
  | raise e => exact .inl (steps_handler proper books here rest)
  | ret a =>
      rcases rest.of_commit with rfl | ⟨e, rest⟩ | rest
      · exact .inl ⟨here, fun b => nofun⟩
      · exact .inl (steps_handler proper books here rest)
      · have committing : postgres.advance () (fun _ => false) υ
            ⟨Prog.tryCatch (R.settle run a) (R.handler run), ws⟩ (.step .none) =
              some (⟨R.committed run a, []⟩, postgres.publish υ () ws) := rfl
        have ids : σ.store.EventIdsUnique := by
          unfold Store.EventIdsUnique
          rw [pristine.content.normalizedEvents]
          exact unique
        have remote := (solo_grown opening.solo).world.remote
        refine .inr ⟨run, a, ws, υ, ?_, ⟨σ.store, pristine.content, ?_⟩, rest⟩
        · exact (upTo.trans (done.context context)).trans (.one rfl committing)
        · exact (done.wp serial (fun _ _ _ => trivial) ids (stores run.1 σ ids remote)).2 a rfl

/-- After its commit a run may return, and what it does keeps the content. -/
theorem committed_returns (R : LoggedRun α β) (run : String × Uuid) (a : α) (σ : State Unit) :
    ∃ τ, postgres.Steps () (⟨R.committed run a, []⟩, σ) (⟨.ret (R.result a), []⟩, τ) ∧
      σ.store.SameContent τ.store := by
  let new : List Write := if (σ.store.syncLogs.find run.2).isSome then
    [.setSyncLog run.2 .completed none] else []
  let last : Tx β := Prog.tryCatch (do
    Prog.commitWork
    return R.result a) (R.handler run)
  have updates : postgres.advance () (fun _ => false) σ ⟨R.committed run a, []⟩ (.step .none) =
      some (⟨last, new⟩, σ) := if_neg (by simp)
  have commits : postgres.advance () (fun _ => false) σ ⟨last, new⟩ (.step .none) =
      some (⟨.ret (R.result a), []⟩, postgres.publish σ () new) := rfl
  refine ⟨_, .trans (.one rfl updates) (.one rfl commits), Store.sameContent_view ?_⟩
  intro w hw
  by_cases found : (σ.store.syncLogs.find run.2).isSome
  · simp only [new, if_pos found, List.mem_singleton] at hw
    subst hw
    exact .inr (.inl rfl)
  · simp only [new, if_neg found] at hw
    exact (List.not_mem_nil hw).elim

theorem steps_committed (proper : R.Proper) {run : String × Uuid} {a : α} {σ : State Unit}
    (h : postgres.Steps () (⟨R.committed run a, []⟩, σ) next) :
    σ.store.SameContent next.2.store := by
  have books := sameContent_keptByBooks σ.store
  have verified : wp (keeping σ.store.SameContent) () (R.committed run a)
      (fun _ _ _ => True) σ [] := by
    unfold committed finish
    rw [wp_tryCatch, wp_bind]
    refine wp_mono (wp_updateSyncLogStatus_keeping (fun s same => ?_)) (fun r υ vs _ => ?_)
    · exact same.trans (Store.sameContent_put (.inr (.inl rfl)))
    · cases r with
      | error e => exact proper.books books run e υ vs
      | ok _ => exact trivial
  exact (Engine.Steps.wp (keeping σ.store.SameContent) (fun _ _ _ => trivial)
    (Store.SameContent.refl σ.store) verified h).1

/-- Every run is without effect on the content, or its content is that of a run that
returns. -/
theorem solo (proper : R.Proper) {Φ : Store → Store → Prop}
    (stores : R.Stores start.world.remote Φ) (unique : start.store.EventIdsUnique)
    (h : postgres.Solo (fun _ _ _ => True) () (⟨R.prog, []⟩, start) next) :
    (Pristine start.store next.2.store ∧ ∀ b, next.1.prog ≠ .ret b) ∨
      ∃ b υ, postgres.Completes () R.prog start b υ ∧ υ.store.SameContent next.2.store ∧
        ∃ s t, start.store.SameContent s ∧ t.SameContent next.2.store ∧ Φ s t := by
  obtain ⟨session, steps, ended⟩ := h.steps
  rcases LoggedRun.steps proper stores unique steps with
    ⟨pristine, unreturned⟩ | ⟨run, a, ws, σ, reached, ⟨s, before, stored⟩, rest⟩
  · refine .inl ⟨pristine, fun b returned => ?_⟩
    rcases ended with rfl | ⟨_, returns⟩
    · exact unreturned b returned
    · exact unreturned b (returns b returned)
  · obtain ⟨υ, returns, same⟩ := committed_returns R run a (postgres.publish σ () ws)
    have after := steps_committed proper rest
    exact .inr ⟨R.result a, υ, ⟨[], (reached.trans returns).solo⟩, same.symm.trans after, s, _,
      before, after, stored⟩

/-- What a run that returns has stored. -/
theorem completes (proper : R.Proper) {Φ : Store → Store → Prop}
    (stores : R.Stores start.world.remote Φ) (unique : start.store.EventIdsUnique) {b : β}
    (h : postgres.Completes () R.prog start b τ) :
    ∃ s t, start.store.SameContent s ∧ t.SameContent τ.store ∧ Φ s t := by
  obtain ⟨ws, run⟩ := h
  rcases solo proper stores unique run with ⟨_, unreturned⟩ | ⟨_, _, _, _, stored⟩
  · exact (unreturned b rfl).elim
  · exact stored

end LoggedRun

section Resumed

variable {α β : Type} {R : LoggedRun α β} {start τ : State Unit}

/-- The content of the stores is the same, and `t` has all the log entries of `s`. -/
structure Store.Extends (s t : Store) : Prop where
  content : s.SameContent t
  logs : ∀ id, t.syncLogs.find id = none → s.syncLogs.find id = none

namespace Store.Extends

variable {s t : Store}

theorem view (h : s.Extends t) {ws : List Write} (other : ∀ w ∈ ws, w.table ≠ .syncLogs) :
    (postgres.view s ws).Extends (postgres.view t ws) where
  content := h.content.view ws
  logs := by
    rw [view_syncLogs_of_table other, view_syncLogs_of_table other]
    exact h.logs

theorem addSyncLog (h : s.Extends t) (row : SyncLog) :
    (s.put (.addSyncLog row)).Extends (t.put (.addSyncLog row)) where
  content := h.content.put (.addSyncLog row)
  logs id absent := by
    refine Table.find_eq_none_iff.mpr (fun x hx same => ?_)
    have free := Table.find_eq_none_iff.mp absent
    rcases Table.mem_of_mem_add hx with old | rfl
    · refine Table.find_eq_none_iff.mp (h.logs id ?_) x old same
      exact Table.find_eq_none_iff.mpr (fun y hy => free y (Table.mem_add_of_mem hy))
    · exact Table.find_add_ne_none (same ▸ absent)

/-- Updates of the log, on either side or on both. -/
theorem setSyncLogs (h : s.Extends t) {id : Uuid} {status : RunStatus} {errorText : Option String}
    (p q : Prop) [Decidable p] [Decidable q] :
    (postgres.view s (if p then [.setSyncLog id status errorText] else [])).Extends
      (postgres.view t (if q then [.setSyncLog id status errorText] else [])) := by
  have books : ∀ (u : Store) (r : Prop) [Decidable r],
      u.SameContent (postgres.view u (if r then [.setSyncLog id status errorText] else [])) ∧
        ∀ k, (postgres.view u (if r then [.setSyncLog id status errorText] else [])).syncLogs.find k
          = none ↔ u.syncLogs.find k = none := by
    intro u r _
    split
    · refine ⟨Store.sameContent_view (fun w hw => ?_), fun k => find_put_setSyncLog_eq_none⟩
      rw [List.mem_singleton.mp hw]
      exact .inr (.inl rfl)
    · exact ⟨.refl u, fun k => Iff.rfl⟩
  refine ⟨((books s p).1.symm.trans h.content).trans (books t q).1, fun k absent => ?_⟩
  exact ((books s p).2 k).mpr (h.logs k (((books t q).2 k).mp absent))

end Store.Extends

/-- The answers to the statements of a run that does not fail. -/
def Stmt.Synced : (s : Stmt) → Except Exn (Answer s) → Prop
  | .generateCorrelationId, _ => True
  | .insertSyncLog _, .ok _ => True
  | .insertSyncLog _, .error _ => False
  | .updateSyncLog _ _ _, _ => True
  | s, _ => s.Ingesting

theorem openRun_follows {operation : String} : (openRun operation).Follows Stmt.Synced := by
  unfold openRun createSyncLog
  refine .bind (.issue (fun _ => trivial)) (fun cid => .bind (.bind ?_ (fun id => ?_)) (fun id => ?_))
  · exact .issue (fun _ => trivial)
  · exact .bind .commitWork (fun _ => trivial)
  · exact trivial

theorem LoggedRun.follows (proper : R.Proper) : R.prog.Follows Stmt.Synced := by
  refine .bind openRun_follows (fun run => .tryCatch (.bind ?_ (fun a => ?_)) (proper.doomed run))
  · refine .of_within (proper.ingesting run.1) (fun s answer h => ?_)
    cases s <;> first | exact h | exact h.elim
  · refine .bind .commitWork (fun _ => .bind ?_ (fun _ => trivial))
    exact .bind (.issue (fun _ => trivial)) (fun _ => .commitWork)

/-- Statements of a run that does not fail have the same outcome where the content is the
same. -/
theorem exec_extends {s : Stmt} {choice : Choice} {w w' w₂ : World} {v v' : Store}
    {locked : Write → Bool} {answer : Except Exn (Answer s)} {new : List Write}
    (synced : s.Synced answer) (h : v.Extends v') (before : w.Before w')
    (run : exec s choice w' v' locked = some (answer, new, w₂)) :
    ∃ new₁ w₁, exec s choice w v locked = some (answer, new₁, w₁) ∧
      (postgres.view v new₁).Extends (postgres.view v' new) ∧ w₁.Before w₂ := by
  have ingestion : s.Ingesting → ∃ new₁ w₁, exec s choice w v locked = some (answer, new₁, w₁) ∧
      (postgres.view v new₁).Extends (postgres.view v' new) ∧ w₁.Before w₂ := by
    intro ingesting
    obtain ⟨w₁, run', later⟩ := exec_sameContent h.content before ingesting run
    refine ⟨new, w₁, run', h.view (fun u hu => ?_), later⟩
    exact (ingesting.ingests.ingested (exec_table run u hu)).syncLogs
  cases s with
  | generateCorrelationId =>
      cases choice <;> cases run
      exact ⟨[], _, rfl, h, before⟩
  | insertSyncLog row =>
      cases answer with
      | error e => exact synced.elim
      | ok id =>
          cases choice with
          | draw drawn t =>
              simp only [exec] at run ⊢
              split at run
              · rename_i shown
                rw [if_pos (Clock.shows_of_le before.clock shown)]
                obtain ⟨rfl, ⟨_, impossible, _⟩ | ⟨free, same, rfl⟩⟩ := insertUnless_some run
                · cases impossible
                · cases same
                  have absent : (v.syncLogs.find (row id t).id).isSome = false := by
                    simpa using h.logs _ (by simpa using free)
                  rw [absent]
                  exact ⟨_, _, rfl, h.addSyncLog _, Clock.read_le_read before.clock t,
                    before.remote⟩
              · cases run
          | _ => cases run
  | updateSyncLog id status errorText =>
      cases choice <;> cases run
      exact ⟨_, _, rfl, h.setSyncLogs _ _, before⟩
  | _ => exact ingestion synced

/-- What of two states a later run may see. -/
structure Resumable (ws : List Write) (σ : State Unit) (vs : List Write) (τ : State Unit) :
    Prop where
  store : σ.store.Extends τ.store
  view : (postgres.view σ.store ws).Extends (postgres.view τ.store vs)
  world : σ.world.Before τ.world

theorem Resumable.exec {s : Stmt} {choice : Choice} {ws vs new : List Write} {σ τ : State Unit}
    {answer : Except Exn (Answer s)} {world : World} (h : Resumable ws σ vs τ)
    (synced : s.Synced answer) (run : postgres.exec s choice τ.world (postgres.view τ.store vs)
      (fun _ => false) = some (answer, new, world)) :
    ∃ new' world', postgres.exec s choice σ.world (postgres.view σ.store ws) (fun _ => false) =
        some (answer, new', world') ∧
      Resumable (ws ++ new') { σ with world := world' } (vs ++ new) { τ with world := world } := by
  obtain ⟨new', world', run', extends', later⟩ := exec_extends synced h.view h.world run
  refine ⟨new', world', run', h.store, ?_, later⟩
  rw [postgres.view_append, postgres.view_append]
  exact extends'

/-- A run that returns from a state with the same content could have been made before. -/
theorem LoggedRun.resumed (proper : R.Proper) (content : start.store.SameContent τ.store)
    (grown : Grown start τ) {script : List (Move Exn Choice)} {b : β} {υ : State Unit}
    (h : postgres.outcome () script R.prog τ = some (b, υ)) :
    ∃ υ', postgres.outcome () script R.prog start = some (b, υ') ∧
      υ'.store.SameContent υ.store := by
  unfold Engine.outcome at h
  split at h
  case h_2 => cases h
  rename_i m vs φ run
  cases h
  have store : start.store.Extends τ.store := ⟨content, grown.logs⟩
  have now : Resumable [] start [] τ := ⟨store, store, grown.world⟩
  obtain ⟨ws, υ', run', related⟩ := Engine.drive_simulated
    (fun synced related run => related.exec synced run)
    (fun related => ⟨related.view, related.view, related.world⟩)
    (fun related => ⟨related.store, related.store, related.world⟩)
    (LoggedRun.follows proper) now run
  refine ⟨υ', ?_, related.store.content⟩
  unfold Engine.outcome
  rw [run']

end Resumed

end OmniSync
