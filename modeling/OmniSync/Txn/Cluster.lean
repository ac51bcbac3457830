import Mathlib.Data.Fintype.Basic
import Mathlib.Logic.Function.Basic
import OmniSync.Txn.Program

/-!
# Interleaved sessions under READ COMMITTED

An engine says what each statement reads and writes. A session's writes stay
pending until its `commit`; nobody else sees them, but they lock what they
touch: a statement that would write a conflicting row waits. Every statement
reads the committed store of that moment, with the pending writes of its own
session on top. Between two statements of one session any number of statements
of other sessions may run.

`advance` is the only transition of a session. `Cluster.act` lets one session
of many take it and `Engine.drive` lets a single session take it repeatedly, so
that an interleaving and a solo run execute the same program text.
-/

namespace Txn

/-- The meaning of statements. `Write` is one pending row write, `put` performs
it on the committed store, and `conflict` says which pending writes exclude each
other. `World` is what is not transactional: its changes are visible at once.

`exec s choice world view locked` answers statement `s` on the view of its
session. `choice` resolves what the program does not determine (drawn
identifiers, clock readings, remote answers), and `locked` tells which writes
would collide with another session. `none`: no such step is possible. A statement
that is `fallible` may fail at any time as well. -/
structure Engine {Stmt : Type} (Ans : Stmt → Type) (Err Store Write World Choice : Type) where
  put : Store → Write → Store
  conflict : Write → Write → Bool
  conflict_symm : ∀ v w, conflict v w = conflict w v
  fallible : Stmt → Bool
  exec : (s : Stmt) → Choice → World → Store → (Write → Bool) →
    Option (Except Err (Ans s) × List Write × World)

/-- What all sessions share. The log is a history variable: it records who has
committed which writes, in commit order, and no statement reads it. -/
@[ext]
structure Shared (Store Write World ι : Type) where
  world : World
  store : Store
  log : List (ι × List Write)

/-- A session: what is left of its program, and its pending writes. -/
structure Session {Stmt : Type} (Ans : Stmt → Type) (Err Write α : Type) where
  prog : Prog Ans Err α
  writes : List Write

/-- The value of a session that has returned. -/
def Session.returned {Stmt : Type} {Ans : Stmt → Type} {Err Write α : Type} :
    Session Ans Err Write α → Option α
  | ⟨.ret a, _⟩ => some a
  | _ => none

/-- The step that a session is about to take satisfies `admits`, a condition on the
statement, the shared state and the session's pending writes. -/
def Session.Admitted {Stmt : Type} {Ans : Stmt → Type} {Err Store Write World ι α : Type}
    (admits : Stmt → Shared Store Write World ι → List Write → Prop)
    (session : Session Ans Err Write α) (σ : Shared Store Write World ι) : Prop :=
  ∀ s next, session.prog = .stmt s next → admits s σ session.writes

instance {Stmt : Type} {Ans : Stmt → Type} {Err Store Write World ι α : Type}
    {admits : Stmt → Shared Store Write World ι → List Write → Prop}
    [∀ s σ ws, Decidable (admits s σ ws)] (session : Session Ans Err Write α)
    (σ : Shared Store Write World ι) : Decidable (session.Admitted admits σ) :=
  match h : session.prog with
  | .stmt s _ =>
      decidable_of_iff (admits s σ session.writes)
        ⟨fun now _ _ same => by cases h.symm.trans same; exact now, fun all => all s _ h⟩
  | .ret _ => .isTrue (fun _ _ same => (nomatch h.symm.trans same))
  | .raise _ => .isTrue (fun _ _ same => (nomatch h.symm.trans same))
  | .commit _ => .isTrue (fun _ _ same => (nomatch h.symm.trans same))
  | .rollback _ => .isTrue (fun _ _ same => (nomatch h.symm.trans same))

/-- How a step of a session goes: as the engine says, with a failing statement
or commit, with the session ending abnormally, or with the finished session
being closed. -/
inductive Move (Err Choice : Type) where
  | step (choice : Choice)
  | fail (e : Err)
  | crash (e : Err)
  | close

/-- The move is a step of the program. -/
def Move.ordinary {Err Choice : Type} : Move Err Choice → Bool
  | .step _ => true
  | .fail _ => true
  | .crash _ => false
  | .close => false

variable {Stmt : Type} {Ans : Stmt → Type} {Err Store Write World Choice ι α : Type}

namespace Engine

variable (E : Engine Ans Err Store Write World Choice)

/-- What a session with pending writes `ws` reads. -/
def view (store : Store) (ws : List Write) : Store := ws.foldl E.put store

@[simp] theorem view_nil (store : Store) : E.view store [] = store := rfl

theorem view_append (store : Store) (ws vs : List Write) :
    E.view store (ws ++ vs) = E.view (E.view store ws) vs := List.foldl_append

/-- No write of the one list excludes a write of the other. -/
def Compatible (ws others : List Write) : Prop :=
  ∀ v ∈ ws, ∀ w ∈ others, E.conflict v w = false

variable {E} in
theorem Compatible.symm {ws others : List Write} (h : E.Compatible ws others) :
    E.Compatible others ws := by
  intro v hv w hw
  rw [E.conflict_symm]
  exact h w hw v hv

@[simp] theorem compatible_nil_left (others : List Write) : E.Compatible [] others := by
  intro v hv
  cases hv

@[simp] theorem compatible_nil_right (ws : List Write) : E.Compatible ws [] := by
  intro v _ w hw
  cases hw

theorem compatible_append_left {ws vs others : List Write} :
    E.Compatible (ws ++ vs) others ↔ E.Compatible ws others ∧ E.Compatible vs others := by
  simp only [Compatible, List.mem_append, or_imp, forall_and]

/-- Session `i` publishes its pending writes. -/
def publish (σ : Shared Store Write World ι) (i : ι) (ws : List Write) :
    Shared Store Write World ι :=
  { σ with store := E.view σ.store ws, log := σ.log ++ [(i, ws)] }

@[simp] theorem publish_world (σ : Shared Store Write World ι) (i : ι) (ws : List Write) :
    (E.publish σ i ws).world = σ.world := rfl

@[simp] theorem publish_store (σ : Shared Store Write World ι) (i : ι) (ws : List Write) :
    (E.publish σ i ws).store = E.view σ.store ws := rfl

@[simp] theorem publish_log (σ : Shared Store Write World ι) (i : ι) (ws : List Write) :
    (E.publish σ i ws).log = σ.log ++ [(i, ws)] := rfl

/-- The transition of one session. A failed statement leaves earlier pending
writes alone; a failed commit, a rollback, a crash and closing discard them. -/
def advance (i : ι) (locked : Write → Bool) (σ : Shared Store Write World ι) :
    Session Ans Err Write α → Move Err Choice →
      Option (Session Ans Err Write α × Shared Store Write World ι)
  | ⟨.stmt s next, ws⟩, .step choice =>
      match E.exec s choice σ.world (E.view σ.store ws) locked with
      | none => none
      | some (answer, new, world) =>
          if new.any locked then none
          else some (⟨next answer, ws ++ new⟩, { σ with world := world })
  | ⟨.stmt s next, ws⟩, .fail e =>
      if E.fallible s then some (⟨next (.error e), ws⟩, σ) else none
  | ⟨.commit next, ws⟩, .step _ => some (⟨next (.ok ()), []⟩, E.publish σ i ws)
  | ⟨.commit next, _⟩, .fail e => some (⟨next (.error e), []⟩, σ)
  | ⟨.rollback next, _⟩, .step _ => some (⟨next, []⟩, σ)
  | ⟨.ret a, _⟩, .close => some (⟨.ret a, []⟩, σ)
  | ⟨.raise e, _⟩, .close => some (⟨.raise e, []⟩, σ)
  | _, .crash e => some (⟨.raise e, []⟩, σ)
  | _, _ => none

/-- What session `i` comes to when it runs alone, every step of it being admitted. -/
inductive Solo (admits : Stmt → Shared Store Write World ι → List Write → Prop) (i : ι)
    (start : Session Ans Err Write α × Shared Store Write World ι) :
    Session Ans Err Write α × Shared Store Write World ι → Prop where
  | refl : Solo admits i start start
  | tail {mid next : Session Ans Err Write α × Shared Store Write World ι}
      {m : Move Err Choice} : Solo admits i start mid → mid.1.Admitted admits mid.2 →
        E.advance i (fun _ => false) mid.2 mid.1 m = some next → Solo admits i start next

/-- A session running alone: the successive moves of one script, each admitted. -/
def drive (admits : Stmt → Shared Store Write World ι → List Write → Prop)
    [∀ s σ ws, Decidable (admits s σ ws)] (i : ι) : List (Move Err Choice) →
    Session Ans Err Write α × Shared Store Write World ι →
      Option (Session Ans Err Write α × Shared Store Write World ι)
  | [], s => some s
  | m :: script, s =>
      if s.1.Admitted admits s.2 then
        (E.advance i (fun _ => false) s.2 s.1 m).bind (drive admits i script)
      else none

variable {E} in
theorem Solo.trans {admits : Stmt → Shared Store Write World ι → List Write → Prop} {i : ι}
    {start mid next : Session Ans Err Write α × Shared Store Write World ι}
    (first : E.Solo admits i start mid) (rest : E.Solo admits i mid next) :
    E.Solo admits i start next := by
  induction rest with
  | refl => exact first
  | tail _ admitted step ih => exact .tail ih admitted step

variable {E} in
theorem Solo.mono {admits weaker : Stmt → Shared Store Write World ι → List Write → Prop} {i : ι}
    {start next : Session Ans Err Write α × Shared Store Write World ι}
    (h : E.Solo admits i start next) (imp : ∀ s σ ws, admits s σ ws → weaker s σ ws) :
    E.Solo weaker i start next := by
  induction h with
  | refl => exact .refl
  | tail _ admitted step ih => exact .tail ih (fun s k same => imp s _ _ (admitted s k same)) step

variable {E} in
theorem solo_of_drive {admits : Stmt → Shared Store Write World ι → List Write → Prop}
    [∀ s σ ws, Decidable (admits s σ ws)] {i : ι} {script : List (Move Err Choice)}
    {start next : Session Ans Err Write α × Shared Store Write World ι}
    (h : E.drive admits i script start = some next) : E.Solo admits i start next := by
  induction script generalizing start with
  | nil =>
      cases h
      exact .refl
  | cons m script ih =>
      rw [drive] at h
      split at h
      · rename_i admitted
        obtain ⟨mid, step, rest⟩ := Option.bind_eq_some_iff.mp h
        exact (Solo.tail .refl admitted step).trans (ih rest)
      · cases h

end Engine

/-- Any number of sessions over one store. -/
structure Cluster {Stmt : Type} (Ans : Stmt → Type) (Err Store Write World ι α : Type) where
  shared : Shared Store Write World ι
  sessions : ι → Session Ans Err Write α

namespace Cluster

variable (E : Engine Ans Err Store Write World Choice)

/-- Every session is about to start its program. -/
def start (shared : Shared Store Write World ι) (progs : ι → Prog Ans Err α) :
    Cluster Ans Err Store Write World ι α :=
  ⟨shared, fun i => ⟨progs i, []⟩⟩

section Interleaving

variable [Fintype ι] [DecidableEq ι]

/-- Another session than `i` holds a pending write that excludes `w`. -/
def locked (st : Cluster Ans Err Store Write World ι α) (i : ι) (w : Write) : Bool :=
  decide (∃ j, j ≠ i ∧ (st.sessions j).writes.any (E.conflict w) = true)

theorem locked_eq_false_iff (st : Cluster Ans Err Store Write World ι α) (i : ι) (w : Write) :
    st.locked E i w = false ↔ ∀ j, j ≠ i → ∀ v ∈ (st.sessions j).writes, E.conflict w v = false := by
  simp only [locked, decide_eq_false_iff_not, not_exists, not_and, List.any_eq_true,
    Bool.not_eq_true]

/-- Session `i` takes the next step of its program. -/
def act (st : Cluster Ans Err Store Write World ι α) (i : ι) (m : Move Err Choice) :
    Option (Cluster Ans Err Store Write World ι α) :=
  (E.advance i (st.locked E i) st.shared (st.sessions i) m).map
    (fun next => ⟨next.2, Function.update st.sessions i next.1⟩)

/-- A schedule: which session moves, and how. Every step is admitted. -/
def play (admits : Stmt → Shared Store Write World ι → List Write → Prop)
    [∀ s σ ws, Decidable (admits s σ ws)] :
    Cluster Ans Err Store Write World ι α → List (ι × Move Err Choice) →
      Option (Cluster Ans Err Store Write World ι α)
  | st, [] => some st
  | st, (i, m) :: schedule =>
      if (st.sessions i).Admitted admits st.shared then
        (st.act E i m).bind (fun next => next.play admits schedule)
      else none

/-- The states that some interleaving reaches, every step of it being admitted. -/
inductive Run (admits : Stmt → Shared Store Write World ι → List Write → Prop)
    (st : Cluster Ans Err Store Write World ι α) :
    Cluster Ans Err Store Write World ι α → Prop where
  | refl : Run admits st st
  | tail {mid next : Cluster Ans Err Store Write World ι α} {i : ι} {m : Move Err Choice} :
      Run admits st mid → (mid.sessions i).Admitted admits mid.shared → mid.act E i m = some next →
        Run admits st next

/-- The states that some interleaving reaches. -/
def Reachable (st : Cluster Ans Err Store Write World ι α) :
    Cluster Ans Err Store Write World ι α → Prop :=
  Run E (fun _ _ _ => True) st

variable {E}

theorem act_eq_some_iff {st next : Cluster Ans Err Store Write World ι α} {i : ι}
    {m : Move Err Choice} :
    st.act E i m = some next ↔ ∃ session shared,
      E.advance i (st.locked E i) st.shared (st.sessions i) m = some (session, shared) ∧
        next = ⟨shared, Function.update st.sessions i session⟩ := by
  simp only [act, Option.map_eq_some_iff, Prod.exists]
  constructor
  · rintro ⟨session, shared, step, rfl⟩
    exact ⟨session, shared, step, rfl⟩
  · rintro ⟨session, shared, step, rfl⟩
    exact ⟨session, shared, step, rfl⟩

theorem Run.trans {admits : Stmt → Shared Store Write World ι → List Write → Prop}
    {st mid next : Cluster Ans Err Store Write World ι α} (first : Run E admits st mid)
    (rest : Run E admits mid next) : Run E admits st next := by
  induction rest with
  | refl => exact first
  | tail _ admitted step ih => exact .tail ih admitted step

theorem run_of_play {admits : Stmt → Shared Store Write World ι → List Write → Prop}
    [∀ s σ ws, Decidable (admits s σ ws)] {st next : Cluster Ans Err Store Write World ι α}
    {schedule : List (ι × Move Err Choice)} (h : st.play E admits schedule = some next) :
    Run E admits st next := by
  induction schedule generalizing st with
  | nil =>
      cases h
      exact .refl
  | cons move schedule ih =>
      obtain ⟨i, m⟩ := move
      rw [play] at h
      split at h
      · rename_i admitted
        obtain ⟨mid, step, rest⟩ := Option.bind_eq_some_iff.mp h
        exact (Run.tail .refl admitted step).trans (ih rest)
      · cases h

end Interleaving

end Cluster

end Txn
