import Mathlib.Data.List.Dedup
import OmniSync.Data.Code
import OmniSync.Events.Service
import OmniSync.Txn.Paths

/-!
# The bind parameters of a batch

The rows of a batch go to the database in one `INSERT … VALUES`, with a parameter for each
column of each row, and its keys in one `SELECT`, with two parameters for each key.
-/

namespace OmniSync

open Txn

/-- The columns that the rows of a batch give values for. -/
def NormalizedEvent.columns : List String :=
  ["id", "external_id", "source", "author_id", "author_name", "content", "event_type",
    "timestamp", "raw_payload_id", "schema_version", "version", "created_at", "updated_at"]

def EventVersion.columns : List String :=
  ["id", "event_id", "version", "content", "schema_version", "raw_payload_id", "changed_by",
    "changed_at"]

def OutboxEvent.columns : List String :=
  ["id", "aggregate_type", "aggregate_id", "event_type", "payload", "status", "attempts",
    "last_error", "created_at", "published_at"]

/-- The SQL statements of the event service. -/
inductive Sql where
  | selectEvents (keys : List (String × String))
  | selectVersion (eventId : Uuid) (version : Nat)
  | insertVersion
  | insertEvents (rows : List NormalizedEvent)
  | insertOutbox

/-- The parameters that a statement binds. A flush executes an `INSERT` once for each new
object, with the parameters of that object. -/
def Sql.parameters : Sql → Nat
  | selectEvents keys => 2 * keys.length
  | selectVersion _ _ => 2
  | insertVersion => EventVersion.columns.length
  | insertEvents rows => NormalizedEvent.columns.length * rows.length
  | insertOutbox => OutboxEvent.columns.length

/-- The most parameters that asyncpg accepts in one statement. -/
def maxParameters : Nat := 32767

/-- Put a row before the others of the first statement, if that is an upsert. -/
def addRow (row : NormalizedEvent) : List Sql → List Sql
  | .insertEvents rows :: sqls => .insertEvents (row :: rows) :: sqls
  | sqls => .insertEvents [row] :: sqls

/-- The SQL of a sequence of statements: successive rows of an upsert are those of one
`INSERT`. Clock readings and drawn identifiers are no SQL. -/
def sqlOf : List Stmt → List Sql
  | [] => []
  | .insertOnConflict row :: ss => addRow row (sqlOf ss)
  | .selectEvents keys :: ss => .selectEvents keys :: sqlOf ss
  | .selectVersion eventId version :: ss => .selectVersion eventId version :: sqlOf ss
  | .insertVersion _ :: ss => .insertVersion :: sqlOf ss
  | .insertOutbox _ :: ss => .insertOutbox :: sqlOf ss
  | _ :: ss => sqlOf ss

/-- The statement writes a row of the upsert. -/
def Stmt.writesRow : Stmt → Bool
  | .insertOnConflict _ => true
  | _ => false

theorem mem_addRow {row : NormalizedEvent} {sql : Sql} {sqls : List Sql}
    (h : sql ∈ addRow row sqls) :
    sql ∈ sqls ∨ ∃ rows, sql = .insertEvents (row :: rows) ∧
      (rows = [] ∨ .insertEvents rows ∈ sqls) := by
  unfold addRow at h
  split at h
  · rcases List.mem_cons.mp h with rfl | later
    · exact .inr ⟨_, rfl, .inr List.mem_cons_self⟩
    · exact .inl (List.mem_cons_of_mem _ later)
  · rcases List.mem_cons.mp h with rfl | later
    · exact .inr ⟨[], rfl, .inl rfl⟩
    · exact .inl later

theorem exists_addRow (row : NormalizedEvent) {rows : List NormalizedEvent} {sqls : List Sql}
    (h : .insertEvents rows ∈ sqls) :
    ∃ rows', .insertEvents rows' ∈ addRow row sqls ∧ rows.length ≤ rows'.length := by
  unfold addRow
  split
  · rcases List.mem_cons.mp h with same | later
    · cases same
      exact ⟨_, List.mem_cons_self, Nat.le_succ _⟩
    · exact ⟨rows, List.mem_cons_of_mem _ later, le_rfl⟩
  · exact ⟨rows, List.mem_cons_of_mem _ h, le_rfl⟩

/-- One statement has no more rows than the program writes. -/
theorem length_le_writesRow {rows : List NormalizedEvent} {ss : List Stmt}
    (h : .insertEvents rows ∈ sqlOf ss) : rows.length ≤ ss.countP Stmt.writesRow := by
  induction ss generalizing rows with
  | nil => exact (List.not_mem_nil h).elim
  | cons s ss ih =>
      have later : ∀ {rows}, .insertEvents rows ∈ sqlOf ss →
          rows.length ≤ (s :: ss).countP Stmt.writesRow := fun hr =>
        (ih hr).trans (List.sublist_cons_self s ss).countP_le
      cases s with
      | insertOnConflict row =>
          have count : (Stmt.insertOnConflict row :: ss).countP Stmt.writesRow =
              ss.countP Stmt.writesRow + 1 := List.countP_cons_of_pos rfl
          rcases mem_addRow h with old | ⟨rows', same, first | more⟩
          · exact later old
          · cases same
            subst first
            rw [count]
            exact Nat.le_add_left 1 _
          · cases same
            rw [count]
            exact Nat.succ_le_succ (ih more)
      | _ => simp_all [sqlOf]

/-- The keys that a statement asks for are keys that the program asks for. -/
theorem selectEvents_of_mem {keys : List (String × String)} {ss : List Stmt}
    (h : .selectEvents keys ∈ sqlOf ss) : .selectEvents keys ∈ ss := by
  induction ss with
  | nil => exact (List.not_mem_nil h).elim
  | cons s ss ih =>
      cases s with
      | insertOnConflict row =>
          rcases mem_addRow h with old | ⟨_, same, _⟩
          · exact List.mem_cons_of_mem _ (ih old)
          · cases same
      | selectEvents keys' =>
          rcases List.mem_cons.mp h with same | old
          · cases same
            exact List.mem_cons_self
          · exact List.mem_cons_of_mem _ (ih old)
      | _ => simp_all [sqlOf]

/-- Statements before an upsert do not make it smaller. -/
theorem insertEvents_append {rows : List NormalizedEvent} (before : List Stmt) {ss : List Stmt}
    (h : .insertEvents rows ∈ sqlOf ss) :
    ∃ rows', .insertEvents rows' ∈ sqlOf (before ++ ss) ∧ rows.length ≤ rows'.length := by
  induction before with
  | nil => exact ⟨rows, h, le_rfl⟩
  | cons s before ih =>
      obtain ⟨rows', found, more⟩ := ih
      cases s with
      | insertOnConflict row =>
          obtain ⟨rows'', found', more'⟩ := exists_addRow row found
          exact ⟨rows'', found', more.trans more'⟩
      | _ => exact ⟨rows', by simpa [sqlOf] using found, more⟩

/-- Successive rows are inserted by one statement. -/
theorem sqlOf_upserts {rows : List NormalizedEvent} (some : rows ≠ []) (after : List Stmt) :
    ∃ rows' sqls, sqlOf (rows.map Stmt.insertOnConflict ++ after) = .insertEvents rows' :: sqls ∧
      rows.length ≤ rows'.length := by
  induction rows with
  | nil => exact (some rfl).elim
  | cons row rows ih =>
      rw [List.map_cons, List.cons_append, sqlOf]
      cases rows with
      | nil =>
          unfold addRow
          split
          · exact ⟨_, _, rfl, Nat.le_add_left 1 _⟩
          · exact ⟨_, _, rfl, le_rfl⟩
      | cons next rows =>
          obtain ⟨rows', sqls, eq, more⟩ := ih (List.cons_ne_nil next rows)
          rw [eq]
          exact ⟨row :: rows', sqls, rfl, Nat.succ_le_succ more⟩

theorem length_deduped (events : List NormalizedEventCreate) :
    (deduped events).length = (events.map NormalizedEventCreate.key).dedup.length := by
  rw [← List.length_map NormalizedEventCreate.key]
  refine ((List.perm_ext_iff_of_nodup (nodup_deduped events) (List.nodup_dedup _)).mpr
    (fun k => ?_)).length_eq
  rw [mem_deduped_key, List.mem_dedup]

section Paths

variable {changedBy : Option String} {now : Time} {existing : List NormalizedEvent}

theorem Stmt.Versioning.writesRow {s : Stmt} (h : s.Versioning) : s.writesRow = false := by
  cases s <;> first | rfl | exact h.elim

/-- One row is prepared for each event. -/
theorem length_of_prepared {events : List NormalizedEventCreate}
    {rows result : List NormalizedEvent} {ss : List Stmt}
    (h : (events.foldlM (prepareRow changedBy now (rowMap existing)) rows).Issues ss (.ok result)) :
    result.length = rows.length + events.length := by
  induction events generalizing rows ss with
  | nil =>
      cases h
      rfl
  | cons e events ih =>
      rw [List.foldlM_cons] at h
      rcases Prog.Issues.of_bind h with ⟨_, failed, _⟩ | ⟨_, _, next, rfl, returned, goesOn⟩
      · cases failed
      · have step : next.length = rows.length + 1 := by
          rcases Prog.Issues.of_bind returned with ⟨_, failed, _⟩ | ⟨_, _, _, rfl, _, drawn⟩
          · cases failed
          rcases Prog.Issues.of_bind drawn with ⟨_, failed, _⟩ | ⟨_, _, _, rfl, _, appended⟩
          · cases failed
          cases appended
          exact List.length_append
        rw [ih goesOn, step, List.length_cons, Nat.add_right_comm, Nat.add_assoc]

/-- A batch writes each of its keys once. -/
theorem countP_writesRow {events : List NormalizedEventCreate} {ss : List Stmt}
    {r : Except Exn (List NormalizedEvent)}
    (h : (NormalizedEventService.upsertEventsBulk events changedBy).Issues ss r) :
    ss.countP Stmt.writesRow ≤ (deduped events).length := by
  unfold NormalizedEventService.upsertEventsBulk at h
  split at h
  · cases h
    exact Nat.zero_le _
  · refine Prog.Issues.countP_bind (.issue rfl) (fun _ now _ _ h => ?_) h
    refine Prog.Issues.countP_bind (.issue rfl) (fun _ existing _ _ h => ?_) h
    refine Prog.Issues.countP_bind (.foldlM _ _ (fun rows e _ =>
      (prepareRow_versioning changedBy now _ rows e).mono (fun _ => Stmt.Versioning.writesRow)))
      (fun _ rows _ prepared h => ?_) h
    have upserted : ∀ ss r, (rows.forM Db.insertOnConflict).Issues ss r →
        ss.countP Stmt.writesRow ≤ (deduped events).length := by
      intro ss r ran
      have issued := Prog.Issues.of_forM (fun row _ _ => Prog.Issues.of_issue) ran
      calc ss.countP Stmt.writesRow
        _ ≤ ss.length := List.countP_le_length
        _ ≤ (rows.map Stmt.insertOnConflict).length := issued.length_le
        _ = (deduped events).length := by
            rw [List.length_map, length_of_prepared prepared, List.length_nil, Nat.zero_add]
    rcases Prog.Issues.of_bind h with ⟨_, _, failed⟩ | ⟨first, after, _, rfl, ran, h⟩
    · exact upserted _ _ failed
    · have rest : after.countP Stmt.writesRow = 0 := by
        refine Prog.Issues.countP_eq_zero ?_ h
        refine .bind (.issue rfl) (fun final => ?_)
        refine .bind (.forM _ (fun e _ => ?_)) (fun _ => .bind (.issue rfl) (fun _ => trivial))
        exact (snapshotFound_versioning changedBy _).mono (fun _ => Stmt.Versioning.writesRow)
      rw [List.countP_append, rest, Nat.add_zero]
      exact upserted _ _ ran

/-- A batch asks for its own keys. -/
theorem asked_keys {events : List NormalizedEventCreate} {ss : List Stmt}
    {r : Except Exn (List NormalizedEvent)}
    (h : (NormalizedEventService.upsertEventsBulk events changedBy).Issues ss r)
    {keys : List (String × String)} (asked : .selectEvents keys ∈ ss) :
    keys.length = (deduped events).length := by
  have within : (NormalizedEventService.upsertEventsBulk events changedBy).Within
      (fun s => ∀ keys, s = .selectEvents keys → keys.length = (deduped events).length) := by
    have versioning : ∀ s : Stmt, s.Versioning →
        ∀ keys, s = .selectEvents keys → keys.length = (deduped events).length := by
      rintro _ allowed keys rfl
      exact allowed.elim
    have own : ∀ keys, Stmt.selectEvents ((deduped events).map NormalizedEventCreate.key) =
        .selectEvents keys → keys.length = (deduped events).length := by
      rintro _ ⟨⟩
      exact List.length_map _
    unfold NormalizedEventService.upsertEventsBulk
    split
    · trivial
    · refine .bind (.issue nofun) (fun now => .bind (.issue own) (fun existing => ?_))
      refine .bind (.foldlM _ _ (fun rows e _ =>
        (prepareRow_versioning changedBy now _ rows e).mono versioning)) (fun rows => ?_)
      refine .bind (.forM _ (fun row _ => .issue nofun)) (fun _ => .bind (.issue own) ?_)
      refine fun final => .bind (.forM _ (fun e _ => ?_)) (fun _ => .bind (.issue nofun) ?_)
      · exact (snapshotFound_versioning changedBy _).mono versioning
      · exact fun _ => trivial
  exact within.issued h _ asked keys rfl

/-- The preparing loop can be run when no event of a batch exists. -/
theorem exists_prepared (events : List NormalizedEventCreate) (rows : List NormalizedEvent) :
    ∃ ss result, (events.foldlM (prepareRow changedBy now (rowMap [])) rows).Issues ss
      (.ok result) := by
  induction events generalizing rows with
  | nil => exact ⟨[], rows, .ret rows⟩
  | cons e events ih =>
      obtain ⟨ss, result, path⟩ := ih (rows ++ [e.toRow 0 1 now])
      exact ⟨_, result, .bind (.bind (.ret ()) (.issue_bind 0 (.ret _))) path⟩

/-- The upsert of a batch of new events is one statement. -/
theorem exists_upsert {events : List NormalizedEventCreate} (some : events ≠ []) :
    ∃ ss r rows, (NormalizedEventService.upsertEventsBulk events changedBy).Issues ss r ∧
      .insertEvents rows ∈ sqlOf ss ∧ (deduped events).length ≤ rows.length := by
  obtain ⟨prepared, rows, loop⟩ := @exists_prepared changedBy 0 (deduped events) []
  have length : rows.length = (deduped events).length := by
    rw [length_of_prepared loop, List.length_nil, Nat.zero_add]
  have nonempty : rows ≠ [] := by
    obtain ⟨e, he⟩ := List.exists_mem_of_ne_nil events some
    obtain ⟨first, hf, _⟩ := List.mem_map.mp
      (mem_deduped_key.mpr (List.mem_map_of_mem (f := NormalizedEventCreate.key) he))
    exact List.ne_nil_of_length_pos (length ▸ List.length_pos_of_mem hf)
  have upserts : (rows.forM Db.insertOnConflict).Issues (rows.map Stmt.insertOnConflict)
      (.ok ⟨⟩) := by
    rw [List.map_eq_flatMap]
    exact .forM (fun row => @Prog.Issues.answered Stmt Answer Exn (.insertOnConflict row) ())
  have snapshots : ((deduped events).forM (fun e =>
      snapshotFound changedBy (rowMap [] e.key))).Issues ((deduped events).flatMap fun _ => [])
        (.ok ⟨⟩) := .forM (fun e => .ret ())
  obtain ⟨grouped, sqls, eq, more⟩ := sqlOf_upserts nonempty
    (.selectEvents ((deduped events).map NormalizedEventCreate.key) ::
      (((deduped events).flatMap fun _ => []) ++ [.insertOutbox ((deduped events).filterMap
        (fun e => (rowMap [] e.key).map enqueueEvent))]))
  obtain ⟨rows', issued, more'⟩ := insertEvents_append (.utcNow ::
    .selectEvents ((deduped events).map NormalizedEventCreate.key) :: prepared)
    (eq ▸ List.mem_cons_self)
  refine ⟨_, .ok ((deduped events).filterMap (fun e => rowMap [] e.key)), rows', ?_, issued,
    length ▸ more.trans more'⟩
  rw [NormalizedEventService.upsertEventsBulk, if_neg (by simpa using some)]
  exact .issue_bind 0 (.issue_bind [] (.bind loop (.bind upserts
    (.issue_bind [] (.bind snapshots (.issue_bind () (.ret _)))))))

end Paths

/-- Every statement that a batch issues binds at most as many parameters as asyncpg accepts. -/
def ParametersFit (events : List NormalizedEventCreate) (changedBy : Option String) : Prop :=
  ∀ ss r, (NormalizedEventService.upsertEventsBulk events changedBy).Issues ss r →
    ∀ sql ∈ sqlOf ss, sql.parameters ≤ maxParameters

theorem ParametersFit.length_le {events : List NormalizedEventCreate} {changedBy : Option String}
    (fit : ParametersFit events changedBy) : (deduped events).length ≤ 2520 := by
  by_cases none : events = []
  · subst none
    decide
  · obtain ⟨ss, r, rows, path, issued, more⟩ := exists_upsert none
    have bound : 13 * rows.length ≤ 32767 := fit ss r path _ issued
    omega

/-- The statements of a batch fit as long as it has at most 2520 different keys. -/
theorem parametersFit_iff (events : List NormalizedEventCreate) (changedBy : Option String) :
    ParametersFit events changedBy ↔
      (events.map NormalizedEventCreate.key).dedup.length ≤ 2520 := by
  rw [← length_deduped]
  refine ⟨fun fit => fit.length_le, fun few ss r path sql issued => ?_⟩
  cases sql with
  | selectEvents keys =>
      have length := asked_keys path (selectEvents_of_mem issued)
      have bound : 2 * keys.length ≤ 32767 := by omega
      exact bound
  | insertEvents rows =>
      have length := (length_le_writesRow issued).trans (countP_writesRow path)
      have bound : 13 * rows.length ≤ 32767 := by omega
      exact bound
  | selectVersion eventId version => exact of_decide_eq_true rfl
  | insertVersion => decide
  | insertOutbox => decide

/-- The first `n` issues of a project. -/
def firstIssues (n : Nat) : List NormalizedEventCreate :=
  (List.range n).map fun number =>
    { externalId := toString number
      source := "jira"
      authorId := "acc-1"
      authorName := "Ada"
      content := "Login fails"
      eventType := "issue_created"
      timestamp := 0 }

theorem length_deduped_firstIssues (n : Nat) : (deduped (firstIssues n)).length = n := by
  have different : ((firstIssues n).map NormalizedEventCreate.key).Nodup := by
    rw [firstIssues, List.map_map]
    refine List.nodup_range.map (fun number number' same => ?_)
    exact toString_inj.mp (congrArg Prod.snd same)
  rw [length_deduped, different.dedup, List.length_map, firstIssues, List.length_map,
    List.length_range]

/-- The first sync of a project of 2521 issues binds 32773 parameters at once. -/
theorem firstIssues_do_not_fit : ¬ ParametersFit (firstIssues 2521) none := by
  intro fit
  have few := fit.length_le
  rw [length_deduped_firstIssues] at few
  exact absurd few (of_decide_eq_true rfl)

end OmniSync
