import OmniSync.Database.Footprint
import OmniSync.Events.Transaction
import OmniSync.Txn.Noted

/-!
# Versions of events that are upserted at the same time

The version of a row is computed from an unlocked read and stored unconditionally. If
other transactions have stored the row in between, the version that is written may lie
below the stored one: `version_decreases`. A transaction has read the row of each event
that it upserts, and the version that it writes follows from that row and from the
content that it submits: `upsertEventsBulk_noting`. So as long as the stored row has not
gone past that row by the time of the upsert, the versions grow from one committed state
to the next, whatever the order of the statements: `versions_grow`.
-/

namespace OmniSync

open Txn

variable {ι : Type}

/-- Every event of `s` is in `t`, with a version that is not lower. -/
def VersionsGrow (s t : Store) : Prop :=
  ∀ e ∈ s.normalizedEvents.rows, ∃ e' ∈ t.normalizedEvents.rows,
    e'.key = e.key ∧ e.version ≤ e'.version

instance (s t : Store) : Decidable (VersionsGrow s t) :=
  inferInstanceAs (Decidable (∀ e ∈ s.normalizedEvents.rows, ∃ e' ∈ t.normalizedEvents.rows,
    e'.key = e.key ∧ e.version ≤ e'.version))

/-- The row that a statement upserts. -/
def Stmt.upserted : Stmt → Option NormalizedEvent
  | .insertOnConflict row => some row
  | _ => none

/-- The version has not gone past the row that a transaction has read, if any: it is at most
the version of that row, or one more if the submitted content is another one. -/
def NotPast (read : Option NormalizedEvent) (content : String) (version : Nat) : Prop :=
  match read with
  | some row => version ≤ row.version ∨ (row.content ≠ content ∧ version = row.version + 1)
  | none => version ≤ 1

instance (read : Option NormalizedEvent) (content : String) (version : Nat) :
    Decidable (NotPast read content version) :=
  match read with
  | some row =>
      inferInstanceAs (Decidable
        (version ≤ row.version ∨ (row.content ≠ content ∧ version = row.version + 1)))
  | none => inferInstanceAs (Decidable (version ≤ 1))

/-- A step of a run of upsert transactions. -/
abbrev UpsertStep (ι : Type) :=
  Cluster.Step Answer Exn Store Write World Choice ι (List NormalizedEvent)

namespace UpsertStep

variable (x y : UpsertStep ι)

/-- The session that makes the step. -/
def actor : TxSession (List NormalizedEvent) := x.before.sessions x.label.1

/-- What the transaction sees when it makes the step. -/
def view : Store := postgres.view x.before.shared.store x.actor.writes

/-- The keys of the events that the step reads. -/
def reads : List (String × String) :=
  match x.actor.prog, x.label.2 with
  | .stmt (.selectEvents keys) _, .step _ => keys
  | _, _ => []

/-- The row that the step upserts. -/
def upserts : Option NormalizedEvent :=
  match x.actor.prog, x.label.2 with
  | .stmt s _, .step _ => s.upserted
  | _, _ => none

/-- If `x` reads the event that `y` upserts, the stored version has not gone past what `x` has
read by the time of `y`. -/
def InTime (batch : ι → List NormalizedEventCreate) : Prop :=
  ∀ row ∈ y.upserts, row.key ∈ x.reads →
    ∀ e ∈ (batch y.label.1).find? (fun e => decide (e.key = row.key)),
      ∀ stored ∈ y.view.normalizedEvents.find row.key,
        NotPast (x.view.normalizedEvents.find row.key) e.content stored.version

instance (batch : ι → List NormalizedEventCreate) : Decidable (InTime x y batch) :=
  inferInstanceAs (Decidable (∀ row ∈ y.upserts, row.key ∈ x.reads →
    ∀ e ∈ (batch y.label.1).find? (fun e => decide (e.key = row.key)),
      ∀ stored ∈ y.view.normalizedEvents.find row.key,
        NotPast (x.view.normalizedEvents.find row.key) e.content stored.version))

end UpsertStep

/-- In every transaction of the run the upserts come in time after the read. -/
def NotOvertaken (batch : ι → List NormalizedEventCreate) (steps : List (UpsertStep ι)) : Prop :=
  steps.Pairwise (fun x y => x.label.1 = y.label.1 → x.InTime y batch)

instance [DecidableEq ι] (batch : ι → List NormalizedEventCreate) (steps : List (UpsertStep ι)) :
    Decidable (NotOvertaken batch steps) :=
  inferInstanceAs (Decidable
    (steps.Pairwise (fun x y => x.label.1 = y.label.1 → x.InTime y batch)))

section Reading

/-- What a transaction has been answered by its last query for events. -/
abbrev ReadRows := Option (List (String × String) × List NormalizedEvent)

def ReadRows.note (k : ReadRows) : (s : Stmt) → Except Exn (Answer s) → ReadRows
  | .selectEvents keys, .ok rows => some (keys, rows)
  | _, _ => k

/-- A row that is upserted has the version that follows from the row that was read and from
the event of the batch. -/
def ReadRows.Follows (events : List NormalizedEventCreate) (k : ReadRows) (s : Stmt) : Prop :=
  ∀ row ∈ s.upserted, ∃ keys rows e, k = some (keys, rows) ∧ row.key ∈ keys ∧
    events.find? (fun e => decide (e.key = row.key)) = some e ∧
      row.version = targetVersion (rowMap rows row.key) e

/-- The statement neither reads nor upserts events. -/
def Stmt.Unnoted : Stmt → Prop
  | selectEvents _ => False
  | insertOnConflict _ => False
  | _ => True

/-- The statement upserts no event. -/
def Stmt.Recording : Stmt → Prop
  | insertOnConflict _ => False
  | _ => True

variable {events : List NormalizedEventCreate} {changedBy : Option String} {k : ReadRows}
variable {keys : List (String × String)} {found : List NormalizedEvent}

theorem Stmt.Unnoted.free {s : Stmt} (h : s.Unnoted) :
    k.Follows events s ∧ ∀ answer, k.note s answer = k := by
  cases s with
  | selectEvents | insertOnConflict => exact h.elim
  | _ => exact ⟨fun row hr => (nomatch hr), fun answer => rfl⟩

theorem Stmt.Versioning.unnoted {s : Stmt} (h : s.Versioning) : s.Unnoted := by
  cases s <;> first | exact h.elim | trivial

theorem Stmt.Versioning.recording {s : Stmt} (h : s.Versioning) : s.Recording := by
  cases s <;> first | exact h.elim | trivial

theorem Stmt.Recording.follows {s : Stmt} (h : s.Recording) : k.Follows events s := by
  cases s with
  | insertOnConflict => exact h.elim
  | _ => exact fun row hr => (nomatch hr)

/-- The preparing loop draws the rows of the batch, and nothing else is read meanwhile. -/
theorem prepareRows_noting {now : Time} {batch : List NormalizedEventCreate}
    {R : ReadRows → Except Exn (List NormalizedEvent) → Prop} (fails : ∀ k e, R k (.error e))
    (done : ∀ rows, List.Forall₂ (Prepared (rowMap found) now) batch rows →
      R (some (keys, found)) (.ok rows)) :
    (batch.foldlM (prepareRow changedBy now (rowMap found)) []).Noting ReadRows.note
      (ReadRows.Follows events) R (some (keys, found)) := by
  refine Prog.Noting.foldlM (fun k rows rest => k = some (keys, found) ∧ ∃ first,
    batch = first ++ rest ∧ List.Forall₂ (Prepared (rowMap found) now) first rows)
      ?_ ?_ ⟨rfl, [], rfl, .nil⟩
  · rintro k rows e rest ⟨rfl, first, split, prepared⟩
    unfold prepareRow
    have quiet : (snapshotPrevious changedBy (rowMap found e.key) e).Within Stmt.Versioning := by
      unfold snapshotPrevious
      split
      · split
        · exact snapshot_versioning changedBy _
        · trivial
      · trivial
    refine .bind_of_issuing (fun _ => Stmt.Unnoted.free)
      (.of_within (quiet.mono (fun _ => Stmt.Versioning.unnoted))) (fun _ => ?_) (fails _)
    refine .bind_of_issuing (fun _ => Stmt.Unnoted.free) (.of_within (.issue trivial))
      (fun id => ?_) (fails _)
    exact ⟨rfl, first ++ [e], by simp [split], List.rel_append prepared (.cons ⟨id, rfl⟩ .nil)⟩
  · rintro k rows ⟨rfl, first, split, prepared⟩
    rw [List.append_nil] at split
    exact done rows (split ▸ prepared)

/-- The upserting loop. -/
theorem upsertRows_noting {rows : List NormalizedEvent}
    {R : ReadRows → Except Exn PUnit → Prop} (fails : ∀ k e, R k (.error e))
    (follows : ∀ row ∈ rows, k.Follows events (.insertOnConflict row)) (done : R k (.ok ⟨⟩)) :
    (rows.forM Db.insertOnConflict).Noting ReadRows.note (ReadRows.Follows events) R k := by
  induction rows with
  | nil => exact done
  | cons row rows ih =>
      change (Db.insertOnConflict row >>= fun _ => rows.forM Db.insertOnConflict).Noting _ _ _ _
      refine .bind ⟨follows row List.mem_cons_self, fun answer => ?_⟩
      cases answer with
      | error e => exact fails _ e
      | ok _ => exact ih (fun r hr => follows r (List.mem_cons_of_mem row hr))

/-- Each row that is upserted has the version that follows from what was read. -/
theorem upsertEventsBulk_noting : (NormalizedEventService.upsertEventsBulk events changedBy).Noting
    ReadRows.note (ReadRows.Follows events) (fun _ _ => True) k := by
  unfold NormalizedEventService.upsertEventsBulk
  split
  · trivial
  refine .bind_of_issuing (fun _ => Stmt.Unnoted.free) (.of_within (.issue trivial))
    (fun now => ?_) (fun _ => trivial)
  refine .bind ⟨fun row hr => (nomatch hr), fun answer => ?_⟩
  cases answer with
  | error e => trivial
  | ok found =>
      refine .bind (prepareRows_noting (fun _ _ => trivial) (fun rows prepared => ?_))
      refine .bind (upsertRows_noting (fun _ _ => trivial) (fun row hr => ?_) ?_)
      · rintro _ ⟨⟩
        obtain ⟨e, he, id, rfl⟩ := prepared.exists_left hr
        exact ⟨_, found, e, rfl, List.mem_map.mpr ⟨e, he, rfl⟩, find_of_mem_deduped he, rfl⟩
      · -- What comes after the upserts only records them.
        refine .of_always (fun _ _ => Stmt.Recording.follows) ?_ (fun _ _ => trivial)
        refine .bind (.of_within (.issue trivial)) (fun final => ?_)
        refine .bind (.of_within ?_) (fun _ =>
          .bind (.of_within (.issue trivial)) (fun _ => trivial))
        exact .forM _ (fun e _ => (snapshotFound_versioning changedBy _).mono
          (fun _ => Stmt.Versioning.recording))

theorem upsertTransaction_noting (changedBy : Option String) :
    (upsertTransaction events changedBy).Noting ReadRows.note (ReadRows.Follows events)
      (fun _ _ => True) k := by
  unfold upsertTransaction
  refine .bind (upsertEventsBulk_noting.mono (fun k r _ => ?_))
  cases r with
  | error e => trivial
  | ok results =>
      exact .of_always (fun _ _ => Stmt.Recording.follows) (.bind .commitWork (fun _ => trivial))
        (fun _ _ => trivial)

end Reading

/-- No pending row has a lower version than the committed row of its key. -/
def Ahead (s : Store) (ws : List Write) : Prop :=
  ∀ row, .putEvent row ∈ ws → ∀ e, s.normalizedEvents.find row.key = some e →
    e.version ≤ row.version

section Pending

variable {s : Store} {ws new : List Write}

/-- A statement that writes an event is an upsert. -/
theorem exec_putEvent {stmt : Stmt} {choice : Choice} {world world' : World} {view : Store}
    {locked : Write → Bool} {answer : Except Exn (Answer stmt)} {row : NormalizedEvent}
    (run : exec stmt choice world view locked = some (answer, new, world'))
    (hw : .putEvent row ∈ new) : ∃ e ∈ stmt.upserted, row = view.excluded e := by
  have table := exec_table run _ hw
  cases stmt with
  | insertOnConflict e =>
      refine ⟨e, rfl, ?_⟩
      cases choice with
      | none =>
          obtain ⟨_, ⟨_, _, rfl⟩ | ⟨_, _, rfl⟩⟩ := insertUnless_some run
          · cases hw
          · simpa using hw
      | _ => cases run
  | _ => simp [Stmt.table, Write.table] at table

theorem excluded_version (view : Store) (row : NormalizedEvent) :
    (view.excluded row).version = row.version := by
  unfold Store.excluded
  cases view.normalizedEvents.find row.key <;> rfl

theorem Ahead.nil (s : Store) : Ahead s [] := fun _ h => nomatch h

/-- The locks of the pending rows keep the committed ones. -/
theorem Ahead.publish (h : Ahead s ws) {vs : List Write} (compatible : postgres.Compatible ws vs) :
    Ahead (postgres.view s vs) ws := by
  intro row hr e found
  have held : Lock.event row.key ∈ (Write.putEvent row).locks := by simp [Write.locks]
  have free := not_lock_of_compatible compatible hr held
  rw [view_unchanged (fun s => s.normalizedEvents.find row.key)
    Store.put_normalizedEvents_of_not_lock free] at found
  exact h row hr e found

/-- What a session reads of an event is not older than what is committed. -/
theorem Ahead.view (h : Ahead s ws) : VersionsGrow s (postgres.view s ws) := by
  intro e he
  obtain ⟨x, hx, same⟩ := exists_mem_view_of_mem ws he
  refine ⟨x, hx, same, ?_⟩
  rcases mem_view_normalizedEvents hx with own | ⟨old, _⟩
  · exact h x own e (Table.find_eq_some_iff.mpr ⟨he, same.symm⟩)
  · rw [Table.eq_of_key_eq old he same]

/-- A statement keeps the pending rows ahead if it upserts none that the stored row is past. -/
theorem Ahead.step (h : Ahead s ws) {stmt : Stmt} {choice : Choice} {locked : Write → Bool}
    {answer : Except Exn (Answer stmt)} {world world' : World}
    (inTime : ∀ row ∈ stmt.upserted, ∀ e ∈ (postgres.view s ws).normalizedEvents.find row.key,
      e.version ≤ row.version)
    (run : exec stmt choice world (postgres.view s ws) locked = some (answer, new, world')) :
    Ahead s (ws ++ new) := by
  intro row hr e found
  rcases List.mem_append.mp hr with old | now
  · exact h row old e found
  · obtain ⟨row', upserted, rfl⟩ := exec_putEvent run now
    rw [Store.excluded_key] at found
    rw [excluded_version]
    obtain ⟨member, key⟩ := Table.find_eq_some_iff.mp found
    obtain ⟨e', he', same, le⟩ := h.view e member
    exact le.trans (inTime row' upserted e' (Table.find_eq_some_iff.mpr ⟨he', same.trans key⟩))

/-- One move of a session whose upsert is in time. -/
theorem Ahead.advance {σ τ : State ι} {i : ι} {locked : Write → Bool} {m : Move Exn Choice}
    {session next : TxSession (List NormalizedEvent)} (h : Ahead σ.store session.writes)
    (inTime : ∀ stmt k choice, session.prog = .stmt stmt k → m = .step choice →
      ∀ row ∈ stmt.upserted,
        ∀ e ∈ (postgres.view σ.store session.writes).normalizedEvents.find row.key,
          e.version ≤ row.version)
    (step : postgres.advance i locked σ session m = some (next, τ)) :
    Ahead τ.store next.writes := by
  obtain ⟨prog, ws⟩ := session
  cases m with
  | crash e =>
      have moved : (⟨.raise e, []⟩, σ) = (next, τ) := by cases prog <;> exact Option.some.inj step
      cases moved
      exact .nil _
  | close => cases prog <;> cases step <;> exact .nil _
  | fail e =>
      cases prog with
      | stmt s k =>
          simp only [Engine.advance] at step
          split at step
          · cases step
            exact h
          · cases step
      | commit k =>
          cases step
          exact .nil _
      | _ => cases step
  | step choice =>
      cases prog with
      | ret a => cases step
      | raise e => cases step
      | stmt s k =>
          simp only [Engine.advance] at step
          split at step
          · cases step
          · rename_i answer new world run
            split at step
            · cases step
            · cases step
              exact h.step (inTime s k choice rfl rfl) run
      | commit k =>
          cases step
          exact .nil _
      | rollback k =>
          cases step
          exact .nil _

end Pending

section Runs

variable [Fintype ι] [DecidableEq ι] {batch : ι → List NormalizedEventCreate}
variable {changedBy : ι → Option String} {start : State ι} {steps : List (UpsertStep ι)}
variable {st : Cluster Answer Exn Store Write World ι (List NormalizedEvent)} {x : UpsertStep ι}

/-- The versions have grown so far, and what is pending is not behind them. -/
structure Growing (before : Store)
    (st : Cluster Answer Exn Store Write World ι (List NormalizedEvent)) : Prop where
  disjoint : st.Disjoint postgres
  ahead : ∀ i, Ahead st.shared.store (st.sessions i).writes
  replays : Shared.Replays postgres before st.shared
  chain : (Shared.states postgres before st.shared).IsChain VersionsGrow

/-- A step whose upsert is in time keeps the versions growing. -/
theorem Growing.step {before : Store} (h : Growing before x.before)
    (inTime : ∀ row ∈ x.upserts, ∀ e ∈ x.view.normalizedEvents.find row.key,
      e.version ≤ row.version)
    (taken : Cluster.Acts postgres x.before x.label x.after) : Growing before x.after := by
  have disjoint := h.disjoint.act taken
  obtain ⟨session, shared, step, next⟩ := Cluster.act_eq_some_iff.mp taken
  have own : Ahead shared.store session.writes := by
    refine (h.ahead x.label.1).advance (fun stmt k choice prog move row upserted => ?_) step
    refine inTime row ?_
    unfold UpsertStep.upserts UpsertStep.actor
    rw [prog, move]
    exact upserted
  have store := Engine.advance_store step
  rw [next] at disjoint ⊢
  refine ⟨disjoint, fun j => ?_, h.replays.advance step, ?_⟩
  · by_cases same : j = x.label.1
    · subst same
      simp only [Function.update_self]
      exact own
    · simp only [Function.update_of_ne same]
      rw [store]
      refine (h.ahead j).publish ?_
      unfold Session.commits
      split
      · exact h.disjoint j x.label.1 same
      · exact postgres.compatible_nil_right _
  · rcases Engine.advance_shared step with ⟨_, log⟩ | ⟨_, rfl⟩
    · have states : Shared.states postgres before shared =
          Shared.states postgres before x.before.shared := by
        unfold Shared.states
        rw [log]
      rw [states]
      exact h.chain
    · exact h.replays.isChain_publish h.chain (h.ahead x.label.1).view

/-- The version of a row that has been read in time. -/
theorem NotPast.le_targetVersion {read : Option NormalizedEvent} {e : NormalizedEventCreate}
    {version : Nat} (h : NotPast read e.content version) : version ≤ targetVersion read e := by
  cases read with
  | none => exact h
  | some row =>
      unfold targetVersion
      rcases h with le | ⟨other, rfl⟩
      · dsimp only
        split
        · exact Nat.le_succ_of_le le
        · exact le
      · dsimp only
        rw [if_pos other]

/-- What a transaction has noted it has read in a step of the run. -/
def HasReadRows (steps : List (UpsertStep ι)) (i : ι) (k : ReadRows) : Prop :=
  ∀ keys rows, k = some (keys, rows) → ∃ x ∈ steps, x.label.1 = i ∧ ∀ key ∈ keys,
    key ∈ x.reads ∧ rowMap rows key = x.view.normalizedEvents.find key

omit [Fintype ι] [DecidableEq ι] in
theorem HasReadRows.kept {i : ι} {k : ReadRows} (h : HasReadRows steps i k) (x : UpsertStep ι) :
    HasReadRows (steps ++ [x]) i k := by
  intro keys rows same
  obtain ⟨y, hy, read⟩ := h keys rows same
  exact ⟨y, List.mem_append_left _ hy, read⟩

theorem HasReadRows.heard {i : ι} {k : ReadRows} {s : Stmt} {answer : Except Exn (Answer s)}
    (h : HasReadRows steps i k) (hears : Cluster.Hears postgres x i s answer) :
    HasReadRows (steps ++ [x]) i (k.note s answer) := by
  obtain ⟨own, ⟨next, prog⟩, answered⟩ := hears
  cases s with
  | selectEvents keys =>
      rcases answered with ⟨e, _, rfl⟩ | ⟨choice, new, world, move, run⟩
      · exact h.kept x
      · change exec _ choice _ _ _ = _ at run
        cases choice <;> cases run
        rintro keys' rows same
        cases same
        refine ⟨x, List.mem_append_right _ (List.mem_singleton_self x), own, fun key hk => ?_⟩
        subst own
        unfold UpsertStep.reads UpsertStep.view UpsertStep.actor
        rw [prog, move]
        exact ⟨hk, rowMap_filter hk⟩
  | _ => exact h.kept x

omit [Fintype ι] [DecidableEq ι] in
/-- The version that a transaction writes in time is not below the stored one. -/
theorem NotOvertaken.le_version {k : ReadRows} {Q : ReadRows → Except Exn _ → Prop}
    (h : NotOvertaken batch (steps ++ [x])) (read : HasReadRows steps x.label.1 k)
    (noting : x.actor.prog.Noting ReadRows.note (ReadRows.Follows (batch x.label.1)) Q k) :
    ∀ row ∈ x.upserts, ∀ e ∈ x.view.normalizedEvents.find row.key, e.version ≤ row.version := by
  intro row upserted stored found
  have follows : k.Follows (batch x.label.1) (.insertOnConflict row) := by
    unfold UpsertStep.upserts at upserted
    split at upserted
    · rename_i s next choice prog move
      rw [prog] at noting
      cases s with
      | insertOnConflict row' =>
          cases upserted
          exact noting.1
      | _ => cases upserted
    · cases upserted
  obtain ⟨keys, rows, e, rfl, known, submitted, version⟩ := follows row rfl
  obtain ⟨y, hy, own, each⟩ := read keys rows rfl
  obtain ⟨reads, row'⟩ := each row.key known
  have inTime := (List.pairwise_append.mp h).2.2 y hy x (List.mem_singleton_self x) own
    row upserted reads e submitted stored found
  rw [version, row']
  exact inTime.le_targetVersion

/-- Whatever interleaving of upsert transactions has run: the version of an event does not
decrease from one committed state to the next, provided that every upsert came in time after
the read of its transaction. -/
theorem versions_grow (fresh : start.log = [])
    (run : Trace (Cluster.Acts postgres)
      (Cluster.start start (fun i => upsertTransaction (batch i) (changedBy i))) steps st)
    (inTime : NotOvertaken batch steps) :
    (Shared.states postgres start.store st.shared).IsChain VersionsGrow ∧
      (Shared.states postgres start.store st.shared).getLast? = some st.shared.store := by
  have growing : Growing start.store st := by
    induction run with
    | nil =>
        refine ⟨Cluster.disjoint_start, fun i => .nil _, ?_, ?_⟩
        · simp [Shared.Replays, Cluster.start, fresh]
        · simp [Shared.states, Cluster.start, fresh]
    | @concat steps st next label run taken ih =>
        have unread : ∀ i, HasReadRows ([] : List (UpsertStep ι)) i none := by
          rintro i keys rows ⟨⟩
        obtain ⟨k, read, noting⟩ := Cluster.noting_of_trace (J := HasReadRows) (fun _ _ _ => trivial)
          (fun i => upsertTransaction_noting (changedBy i)) unread (fun h => h.kept _)
            (fun h hears => h.heard hears) run label.1
        refine (ih (List.pairwise_append.mp inTime).1).step
          (inTime.le_version (x := ⟨st, label, next⟩) read noting) taken
  exact ⟨growing.chain, growing.replays.getLast?_states⟩

end Runs

/-- The third writer submits the content of the first one. -/
def resubmitted : Party → String
  | .first => "a"
  | .second => "b"
  | .third => "a"

/-- Three transactions on one commit. -/
def resubmitting : Cluster Answer Exn Store Write World Party (List NormalizedEvent) :=
  Cluster.start ⟨{}, ∅, []⟩ (fun i => upsertTransaction [sampleCommit (resubmitted i)] none)

/-- The third writer reads the row of the first one, and the second one changes it before
the third one upserts. -/
def staleResubmission : List (Party × Move Exn Choice) :=
  (createScript 10).map (Prod.mk .first) ++
    [.step (.time 0), .step .none].map (Prod.mk .third) ++
    (changeScript 20).map (Prod.mk .second) ++
      [.step (.draw 30 0), .step .none, .step .none, .step .none, .step (.draws [(32, 0)]),
        .step .none].map (Prod.mk .third)

/-- All three writers have committed, and the last commit has taken the version of the
event from 2 back to 1. -/
theorem version_decreases : ∃ st, Cluster.Reachable postgres resubmitting st ∧
    (∀ i, (st.sessions i).returned.isSome) ∧
      (Shared.states postgres ∅ st.shared).map
          (fun s => s.normalizedEvents.rows.map NormalizedEvent.version) = [[], [1], [2], [1]] ∧
        ¬ (Shared.states postgres ∅ st.shared).IsChain VersionsGrow := by
  have shape : (resubmitting.play postgres (fun _ _ _ => True) staleResubmission).map
      (fun st => decide ((∀ i, (st.sessions i).returned.isSome) ∧
        (Shared.states postgres ∅ st.shared).map
            (fun s => s.normalizedEvents.rows.map NormalizedEvent.version) = [[], [1], [2], [1]] ∧
          ¬ (Shared.states postgres ∅ st.shared).IsChain VersionsGrow)) = some true := by
    decide +kernel
  obtain ⟨st, run, facts⟩ := Option.map_eq_some_iff.mp shape
  exact ⟨st, Cluster.run_of_play run, of_decide_eq_true facts⟩

/-- The same writers one after the other are in time. -/
theorem versions_grow_sequential : ∃ steps st,
    resubmitting.history postgres ((createScript 10).map (Prod.mk .first) ++
        (changeScript 20).map (Prod.mk .second) ++ (changeScript 30).map (Prod.mk .third)) =
          some (steps, st) ∧
      (Shared.states postgres ∅ st.shared).map
          (fun s => s.normalizedEvents.rows.map NormalizedEvent.version) = [[], [1], [2], [3]] ∧
        (Shared.states postgres ∅ st.shared).IsChain VersionsGrow := by
  have shape : (resubmitting.history postgres ((createScript 10).map (Prod.mk .first) ++
      (changeScript 20).map (Prod.mk .second) ++ (changeScript 30).map (Prod.mk .third))).map
        (fun run => ((Shared.states postgres ∅ run.2.shared).map
          (fun s => s.normalizedEvents.rows.map NormalizedEvent.version),
            decide (NotOvertaken (fun i => [sampleCommit (resubmitted i)]) run.1))) =
              some ([[], [1], [2], [3]], true) := by decide +kernel
  obtain ⟨⟨steps, st⟩, run, facts⟩ := Option.map_eq_some_iff.mp shape
  obtain ⟨versions, inTime⟩ := Prod.mk.inj facts
  exact ⟨steps, st, run, versions,
    (versions_grow rfl (Cluster.trace_of_history run) (of_decide_eq_true inTime)).1⟩

end OmniSync
