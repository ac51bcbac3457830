import OmniSync.Txn.Interference

/-!
# Runs of compound programs

The steps of a session that neither crashes nor is closed. Sequencing and exception
handling are contexts for them: the steps of a part are steps of the whole, and the steps of
the whole are steps of its first part until that part has ended. A crash or the closing of a
session can only come last, so this describes every solo run: `Engine.Solo.steps`.

`Engine.drive_simulated` compares the runs of one script from two states. What a program
does once it can no longer return need not be comparable.
-/

namespace Txn

variable {Stmt : Type} {Ans : Stmt → Type} {Err Store Write World Choice ι α β γ : Type}
variable {E : Engine Ans Err Store Write World Choice} {i : ι}

namespace Prog

/-- The program has not ended. -/
def running : Prog Ans Err α → Bool
  | ret _ => false
  | raise _ => false
  | stmt _ _ => true
  | commit _ => true
  | rollback _ => true

/-- `K p` runs `p` first, whatever `p` is. -/
structure Context (K : Prog Ans Err α → Prog Ans Err β) : Prop where
  stmt : ∀ s next, K (.stmt s next) = .stmt s (fun answer => K (next answer))
  commit : ∀ next, K (.commit next) = .commit (fun answer => K (next answer))
  rollback : ∀ next, K (.rollback next) = .rollback (K next)

theorem context_bind (f : α → Prog Ans Err β) : Context (fun p => p >>= f) :=
  ⟨fun _ _ => rfl, fun _ => rfl, fun _ => rfl⟩

theorem context_tryCatch (handler : Err → Prog Ans Err α) :
    Context (fun p => Prog.tryCatch p handler) :=
  ⟨fun _ _ => rfl, fun _ => rfl, fun _ => rfl⟩

theorem Context.comp {K : Prog Ans Err β → Prog Ans Err γ} {L : Prog Ans Err α → Prog Ans Err β}
    (outer : Context K) (inner : Context L) : Context (fun p => K (L p)) where
  stmt s next := by rw [inner.stmt, outer.stmt]
  commit next := by rw [inner.commit, outer.commit]
  rollback next := by rw [inner.rollback, outer.rollback]

theorem Context.running {K : Prog Ans Err α → Prog Ans Err β} (context : Context K)
    {p : Prog Ans Err α} (h : p.running = true) : (K p).running = true := by
  cases p with
  | ret | raise => cases h
  | stmt s next => rw [context.stmt]; rfl
  | commit next => rw [context.commit]; rfl
  | rollback next => rw [context.rollback]; rfl

/-- The program never returns. -/
def Doomed : Prog Ans Err α → Prop
  | ret _ => False
  | raise _ => True
  | stmt _ next => ∀ answer, (next answer).Doomed
  | commit next => ∀ answer, (next answer).Doomed
  | rollback next => next.Doomed

theorem Doomed.bind {p : Prog Ans Err α} (doomed : p.Doomed) (f : α → Prog Ans Err β) :
    (p >>= f).Doomed := by
  induction p with
  | ret => exact doomed.elim
  | raise => trivial
  | stmt s next ih => exact fun answer => ih answer (doomed answer)
  | commit next ih => exact fun answer => ih answer (doomed answer)
  | rollback next ih => exact ih doomed

theorem doomed_bind (p : Prog Ans Err α) {f : α → Prog Ans Err β} (doomed : ∀ a, (f a).Doomed) :
    (p >>= f).Doomed := by
  induction p with
  | ret a => exact doomed a
  | raise => trivial
  | stmt s next ih => exact ih
  | commit next ih => exact ih
  | rollback next ih => exact ih

theorem Doomed.tryCatch {p : Prog Ans Err α} (doomed : p.Doomed)
    {handler : Err → Prog Ans Err α} (caught : ∀ e, (handler e).Doomed) :
    (p.tryCatch handler).Doomed := by
  induction p with
  | ret => exact doomed.elim
  | raise e => exact caught e
  | stmt s next ih => exact fun answer => ih answer (doomed answer)
  | commit next ih => exact fun answer => ih answer (doomed answer)
  | rollback next ih => exact ih doomed

/-- As long as the program may return, it gets only `allowed` answers. -/
def Follows (allowed : (s : Stmt) → Except Err (Ans s) → Prop) : Prog Ans Err α → Prop
  | ret _ => True
  | raise _ => True
  | stmt s next => ∀ answer, (allowed s answer ∨ (next answer).Doomed) ∧
      (next answer).Follows allowed
  | commit next => ∀ answer, (next answer).Follows allowed
  | rollback next => next.Follows allowed

namespace Follows

variable {allowed : (s : Stmt) → Except Err (Ans s) → Prop} {p : Prog Ans Err α}

theorem of_within {issued : Stmt → Prop} (h : p.Within issued)
    (each : ∀ s answer, issued s → allowed s answer) : p.Follows allowed := by
  induction p with
  | ret => trivial
  | raise => trivial
  | stmt s next ih => exact fun answer => ⟨.inl (each s answer h.1), ih answer (h.2 answer)⟩
  | commit => exact h.elim
  | rollback => exact h.elim

theorem of_doomed (h : p.Doomed) : p.Follows allowed := by
  induction p with
  | ret => trivial
  | raise => trivial
  | stmt s next ih => exact fun answer => ⟨.inr (h answer), ih answer (h answer)⟩
  | commit next ih => exact fun answer => ih answer (h answer)
  | rollback next ih => exact ih h

/-- If a statement fails, the program fails. -/
theorem issue {s : Stmt} (h : ∀ a, allowed s (.ok a)) :
    (Prog.issue s : Prog Ans Err (Ans s)).Follows allowed := by
  intro answer
  cases answer with
  | ok a => exact ⟨.inl (h a), trivial⟩
  | error e => exact ⟨.inr trivial, trivial⟩

theorem bind (h : p.Follows allowed) {f : α → Prog Ans Err β}
    (then' : ∀ a, (f a).Follows allowed) : (p >>= f).Follows allowed := by
  induction p with
  | ret a => exact then' a
  | raise => trivial
  | stmt s next ih =>
      exact fun answer => ⟨(h answer).1.imp id (fun doomed => doomed.bind f), ih answer (h answer).2⟩
  | commit next ih => exact fun answer => ih answer (h answer)
  | rollback next ih => exact ih h

/-- What a handler that never returns does is not restricted. -/
theorem tryCatch (h : p.Follows allowed) {handler : Err → Prog Ans Err α}
    (caught : ∀ e, (handler e).Doomed) : (p.tryCatch handler).Follows allowed := by
  induction p with
  | ret => trivial
  | raise e => exact of_doomed (caught e)
  | stmt s next ih =>
      exact fun answer =>
        ⟨(h answer).1.imp id (fun doomed => doomed.tryCatch caught), ih answer (h answer).2⟩
  | commit next ih => exact fun answer => ih answer (h answer)
  | rollback next ih => exact ih h

theorem commitWork : (Prog.commitWork : Prog Ans Err Unit).Follows allowed := by
  intro answer
  cases answer <;> trivial

end Follows

end Prog

namespace Engine

/-- What session `i` comes to by the steps of its program, running alone. -/
inductive Steps (E : Engine Ans Err Store Write World Choice) (i : ι)
    (start : Session Ans Err Write α × Shared Store Write World ι) :
    Session Ans Err Write α × Shared Store Write World ι → Prop where
  | refl : Steps E i start start
  | tail {mid next : Session Ans Err Write α × Shared Store Write World ι}
      {m : Move Err Choice} : Steps E i start mid → m.ordinary = true →
        E.advance i (fun _ => false) mid.2 mid.1 m = some next → Steps E i start next

section Contexts

variable {K : Prog Ans Err α → Prog Ans Err β} {session : Session Ans Err Write α}
variable {locked : Write → Bool} {σ : Shared Store Write World ι} {m : Move Err Choice}

/-- The session of the part, within its context. -/
def inside (K : Prog Ans Err α → Prog Ans Err β)
    (s : Session Ans Err Write α × Shared Store Write World ι) :
    Session Ans Err Write β × Shared Store Write World ι := (⟨K s.1.prog, s.1.writes⟩, s.2)

/-- As long as a part is running, the steps of the whole are the steps of the part. -/
theorem advance_context (context : Prog.Context K) (running : session.prog.running = true)
    (ordinary : m.ordinary = true) :
    E.advance i locked σ (inside K (session, σ)).1 m =
      (E.advance i locked σ session m).map (inside K) := by
  obtain ⟨p, ws⟩ := session
  change E.advance i locked σ ⟨K p, ws⟩ m = _
  cases p with
  | ret | raise => cases running
  | stmt s next =>
      rw [context.stmt]
      cases m with
      | step choice =>
          simp only [advance]
          cases E.exec s choice σ.world (E.view σ.store ws) locked with
          | none => rfl
          | some outcome =>
              simp only
              split <;> rfl
      | fail e =>
          simp only [advance]
          split <;> rfl
      | crash | close => cases ordinary
  | commit next =>
      rw [context.commit]
      cases m with
      | step | fail => rfl
      | crash | close => cases ordinary
  | rollback next =>
      rw [context.rollback]
      cases m with
      | step | fail => rfl
      | crash | close => cases ordinary

/-- Only a running program takes steps. -/
theorem running_of_advance {next : Session Ans Err Write α × Shared Store Write World ι}
    (ordinary : m.ordinary = true) (h : E.advance i locked σ session m = some next) :
    session.prog.running = true := by
  obtain ⟨p, ws⟩ := session
  cases p with
  | ret | raise =>
      cases m with
      | step | fail => cases h
      | crash | close => cases ordinary
  | stmt | commit | rollback => rfl

theorem within_of_advance {allowed : Stmt → Prop}
    {next : Session Ans Err Write α × Shared Store Write World ι} (ordinary : m.ordinary = true)
    (within : session.prog.Within allowed) (h : E.advance i locked σ session m = some next) :
    next.1.prog.Within allowed := by
  obtain ⟨p, ws⟩ := session
  cases m with
  | crash | close => cases ordinary
  | fail e =>
      cases p with
      | stmt s k =>
          simp only [advance] at h
          split at h
          · cases h
            exact within.2 _
          · cases h
      | ret | raise => cases h
      | commit | rollback => exact within.elim
  | step choice =>
      cases p with
      | stmt s k =>
          simp only [advance] at h
          split at h
          · cases h
          · split at h
            · cases h
            · cases h
              exact within.2 _
      | ret | raise => cases h
      | commit | rollback => exact within.elim

namespace Steps

variable {start mid next : Session Ans Err Write α × Shared Store Write World ι}

theorem trans (first : E.Steps i start mid) (rest : E.Steps i mid next) :
    E.Steps i start next := by
  induction rest with
  | refl => exact first
  | tail _ ordinary step ih => exact .tail ih ordinary step

theorem one (ordinary : m.ordinary = true)
    (h : E.advance i (fun _ => false) start.2 start.1 m = some next) : E.Steps i start next :=
  .tail .refl ordinary h

/-- The steps of a part are steps of the whole. -/
theorem context (context : Prog.Context K) (h : E.Steps i start next) :
    E.Steps i (inside K start) (inside K next) := by
  induction h with
  | refl => exact .refl
  | tail _ ordinary step ih =>
      refine .tail ih ordinary ?_
      exact (advance_context context (running_of_advance ordinary step) ordinary).trans
        (congrArg (Option.map (inside K)) step)

/-- The steps of the whole are steps of its first part, until that part has ended. -/
theorem of_context (context : Prog.Context K)
    {next : Session Ans Err Write β × Shared Store Write World ι}
    (h : E.Steps i (inside K start) next) :
    (∃ now, now.1.prog.running = true ∧ E.Steps i start now ∧ next = inside K now) ∨
      ∃ mid, mid.1.prog.running = false ∧ E.Steps i start mid ∧ E.Steps i (inside K mid) next := by
  -- A part that has come this far is either running or has ended here.
  have here : ∀ now, E.Steps i start now →
      (∃ now', now'.1.prog.running = true ∧ E.Steps i start now' ∧ inside K now = inside K now') ∨
        ∃ mid, mid.1.prog.running = false ∧ E.Steps i start mid ∧
          E.Steps i (inside K mid) (inside K now) := by
    intro now part
    cases running : now.1.prog.running with
    | true => exact .inl ⟨now, running, part, rfl⟩
    | false => exact .inr ⟨now, running, part, .refl⟩
  induction h with
  | refl => exact here start .refl
  | @tail mid next m _ ordinary step ih =>
      rcases ih with ⟨now, running, part, rfl⟩ | ⟨ended, over', part, rest⟩
      · obtain ⟨next', step', rfl⟩ := Option.map_eq_some_iff.mp
          ((advance_context context running ordinary).symm.trans step)
        exact here next' (part.tail ordinary step')
      · exact .inr ⟨ended, over', part, rest.tail ordinary step⟩

/-- A program that has ended stays as it is. -/
theorem of_not_running (over' : start.1.prog.running = false) (h : E.Steps i start next) :
    next = start := by
  induction h with
  | refl => rfl
  | tail _ ordinary step ih =>
      subst ih
      rw [running_of_advance ordinary step] at over'
      cases over'

theorem solo (h : E.Steps i start next) : E.Solo (fun _ _ _ => True) i start next := by
  induction h with
  | refl => exact .refl
  | tail _ _ step ih => exact .tail ih (fun _ _ _ => trivial) step

/-- Either nothing has happened, or the first step is known. -/
theorem head (h : E.Steps i start next) : next = start ∨ ∃ (m : Move Err Choice)
    (mid : Session Ans Err Write α × Shared Store Write World ι), m.ordinary = true ∧
      E.advance i (fun _ => false) start.2 start.1 m = some mid ∧ E.Steps i mid next := by
  induction h with
  | refl => exact .inl rfl
  | @tail mid next m _ ordinary step ih =>
      rcases ih with rfl | ⟨first, then', known, step', rest⟩
      · exact .inr ⟨m, next, ordinary, step, .refl⟩
      · exact .inr ⟨first, then', known, step', rest.tail ordinary step⟩

/-- What becomes of a session that is about to commit. -/
theorem of_commit {k : Except Err Unit → Prog Ans Err α} {ws : List Write}
    {σ : Shared Store Write World ι} (h : E.Steps i (⟨.commit k, ws⟩, σ) next) :
    next = (⟨.commit k, ws⟩, σ) ∨ (∃ e, E.Steps i (⟨k (.error e), []⟩, σ) next) ∨
      E.Steps i (⟨k (.ok ()), []⟩, E.publish σ i ws) next := by
  rcases h.head with same | ⟨m, mid, ordinary, step, rest⟩
  · exact .inl same
  · cases m with
    | step choice =>
        cases step
        exact .inr (.inr rest)
    | fail e =>
        cases step
        exact .inr (.inl ⟨e, rest⟩)
    | crash | close => cases ordinary

/-- The steps of a verified program. It may be left with work pending. -/
theorem wp (P : Protocol E ι) {Q : Post Err Store Write World ι α} {p : Prog Ans Err α}
    {ws : List Write} {σ : Shared Store Write World ι} (free : ∀ s σ ws, P.admits s σ ws)
    (inv : P.inv σ) (verified : Txn.wp P i p Q σ ws) (h : E.Steps i (⟨p, ws⟩, σ) next) :
    P.inv next.2 ∧ Txn.wp P i next.1.prog Q next.2 next.1.writes := by
  induction h with
  | refl => exact ⟨inv, verified⟩
  | tail _ ordinary step ih =>
      obtain ⟨guarantee, rest, _⟩ :=
        wp_step P ordinary ih.1 ih.2 (fun s _ _ => free s _ _) step
      exact ⟨guarantee.inv, rest⟩

/-- A program that does not commit leaves the store as it is. -/
theorem of_within {allowed : Stmt → Prop} (within : start.1.prog.Within allowed)
    (h : E.Steps i start next) :
    next.1.prog.Within allowed ∧ next.2.store = start.2.store ∧ next.2.log = start.2.log := by
  induction h with
  | refl => exact ⟨within, rfl, rfl⟩
  | @tail mid next m _ ordinary step ih =>
      obtain ⟨within, store, log⟩ := ih
      rcases advance_shared step with ⟨store', log'⟩ | ⟨⟨k, commits⟩, _⟩
      · exact ⟨within_of_advance ordinary within step, store'.trans store, log'.trans log⟩
      · rw [commits] at within
        exact within.elim

end Steps

end Contexts

theorem advance_crash {session : Session Ans Err Write α} {locked : Write → Bool}
    {σ : Shared Store Write World ι} {e : Err} :
    E.advance i locked σ session (.crash e) = some (⟨.raise e, []⟩, σ) := by
  obtain ⟨p, ws⟩ := session
  cases p <;> rfl

theorem advance_close {session : Session Ans Err Write α} {locked : Write → Bool}
    {σ : Shared Store Write World ι}
    {next : Session Ans Err Write α × Shared Store Write World ι}
    (h : E.advance i locked σ session .close = some next) :
    session.prog.running = false ∧ next = (⟨session.prog, []⟩, σ) := by
  obtain ⟨p, ws⟩ := session
  cases p with
  | ret | raise => exact ⟨rfl, (Option.some.inj h).symm⟩
  | stmt | commit | rollback => cases h

/-- A solo run consists of steps, except that a crash or the closing of the session may
come last. -/
theorem Solo.steps {admits : Stmt → Shared Store Write World ι → List Write → Prop}
    {start next : Session Ans Err Write α × Shared Store Write World ι}
    (h : E.Solo admits i start next) :
    ∃ session, E.Steps i start (session, next.2) ∧ (next.1 = session ∨
      (next.1.prog.running = false ∧ ∀ a, next.1.prog = .ret a → session.prog = .ret a)) := by
  induction h with
  | refl => exact ⟨start.1, .refl, .inl rfl⟩
  | @tail mid next m _ _ step ih =>
      obtain ⟨session, steps, now⟩ := ih
      cases m with
      | step | fail =>
          rcases now with rfl | ⟨ended, _⟩
          · exact ⟨next.1, steps.tail rfl step, .inl rfl⟩
          · rw [running_of_advance rfl step] at ended
            cases ended
      | crash e =>
          rw [advance_crash] at step
          cases step
          exact ⟨session, steps, .inr ⟨rfl, fun a impossible => (nomatch impossible)⟩⟩
      | close =>
          obtain ⟨ended, rfl⟩ := advance_close step
          refine ⟨session, steps, .inr ⟨ended, ?_⟩⟩
          rcases now with rfl | ⟨_, returned⟩
          · exact fun a same => same
          · exact returned

section Simulation

variable {session : Session Ans Err Write α} {σ τ : Shared Store Write World ι}
variable {next : Session Ans Err Write α × Shared Store Write World ι}
variable {script : List (Move Err Choice)}

theorem drive_cons {m : Move Err Choice} :
    E.drive (fun _ _ _ => True) i (m :: script) (session, σ) =
      (E.advance i (fun _ => false) σ session m).bind (E.drive (fun _ _ _ => True) i script) :=
  if_pos (fun _ _ _ => trivial)

/-- Every solo run follows some script. -/
theorem drive_of_solo {start next : Session Ans Err Write α × Shared Store Write World ι}
    (h : E.Solo (fun _ _ _ => True) i start next) :
    ∃ script, E.drive (fun _ _ _ => True) i script start = some next := by
  have append : ∀ (script : List (Move Err Choice)) (m : Move Err Choice)
      (start mid : Session Ans Err Write α × Shared Store Write World ι),
      E.drive (fun _ _ _ => True) i script start = some mid →
      E.drive (fun _ _ _ => True) i (script ++ [m]) start =
        E.advance i (fun _ => false) mid.2 mid.1 m := by
    intro script m start mid before
    induction script generalizing start with
    | nil =>
        cases before
        exact (drive_cons).trans (Option.bind_fun_some _)
    | cons m' script ih =>
        obtain ⟨session, σ⟩ := start
        rw [drive_cons] at before
        obtain ⟨now, step, rest⟩ := Option.bind_eq_some_iff.mp before
        rw [List.cons_append, drive_cons, step]
        exact ih now rest
  induction h with
  | refl => exact ⟨[], rfl⟩
  | @tail mid next m _ _ step ih =>
      obtain ⟨script, before⟩ := ih
      exact ⟨script ++ [m], (append script m start mid before).trans step⟩

/-- A script of ordinary moves. -/
theorem steps_of_drive {start : Session Ans Err Write α × Shared Store Write World ι}
    (ordinary : ∀ m ∈ script, m.ordinary = true)
    (h : E.drive (fun _ _ _ => True) i script start = some next) : E.Steps i start next := by
  induction script generalizing start with
  | nil =>
      cases h
      exact .refl
  | cons m script ih =>
      rw [drive_cons] at h
      obtain ⟨mid, step, rest⟩ := Option.bind_eq_some_iff.mp h
      exact (Steps.one (ordinary m (by simp)) step).trans
        (ih (fun m hm => ordinary m (by simp [hm])) rest)

/-- A doomed program stays doomed. -/
theorem doomed_of_advance {m : Move Err Choice} {locked : Write → Bool}
    (doomed : session.prog.Doomed) (h : E.advance i locked σ session m = some next) :
    next.1.prog.Doomed := by
  obtain ⟨p, ws⟩ := session
  cases m with
  | crash e =>
      rw [advance_crash] at h
      cases h
      trivial
  | close =>
      obtain ⟨_, rfl⟩ := advance_close h
      exact doomed
  | step choice =>
      cases p with
      | ret | raise => cases h
      | stmt s k =>
          simp only [advance] at h
          split at h
          · cases h
          · split at h
            · cases h
            · cases h
              exact doomed _
      | commit k =>
          cases h
          exact doomed _
      | rollback k =>
          cases h
          exact doomed
  | fail e =>
      cases p with
      | ret | raise | rollback => cases h
      | stmt s k =>
          simp only [advance] at h
          split at h
          · cases h
            exact doomed _
          · cases h
      | commit k =>
          cases h
          exact doomed _

theorem doomed_of_drive (doomed : session.prog.Doomed)
    (h : E.drive (fun _ _ _ => True) i script (session, σ) = some next) :
    next.1.prog.Doomed := by
  induction script generalizing session σ with
  | nil =>
      cases h
      exact doomed
  | cons m script ih =>
      rw [drive_cons] at h
      obtain ⟨⟨mid, υ⟩, step, rest⟩ := Option.bind_eq_some_iff.mp h
      exact ih (doomed_of_advance doomed step) rest

/-- A doomed program does not return. -/
theorem Steps.doomed {start next : Session Ans Err Write α × Shared Store Write World ι}
    (doomed : start.1.prog.Doomed) (h : E.Steps i start next) (a : α) : next.1.prog ≠ .ret a := by
  have still : next.1.prog.Doomed := by
    induction h with
    | refl => exact doomed
    | tail _ _ step ih => exact doomed_of_advance ih step
  intro returned
  rw [returned] at still
  exact still

theorem Completes.not_doomed {p : Prog Ans Err α} {σ τ : Shared Store Write World ι} {a : α}
    (h : E.Completes i p σ a τ) : ¬ p.Doomed := by
  intro doomed
  obtain ⟨ws, run⟩ := h
  obtain ⟨session, steps, now⟩ := run.steps
  have unreturned := steps.doomed doomed a
  rcases now with rfl | ⟨_, returns⟩
  · exact unreturned rfl
  · exact unreturned (returns a rfl)

theorem Completes.of_ret {σ τ : Shared Store Write World ι} {a b : α}
    (h : E.Completes i (.ret a) σ b τ) : τ = σ := by
  obtain ⟨ws, run⟩ := h
  obtain ⟨session, steps, _⟩ := run.steps
  exact congrArg Prod.snd (steps.of_not_running rfl)

/-- The runs of one script from two states. `R` relates them, and what is pending in each,
and the allowed statements keep it. If the run from the second state returns, so does the one
from the first, with the same value. -/
theorem drive_simulated {allowed : (s : Stmt) → Except Err (Ans s) → Prop}
    {R : List Write → Shared Store Write World ι → List Write → Shared Store Write World ι → Prop}
    (stmt : ∀ {s ws σ vs τ choice answer new world}, allowed s answer → R ws σ vs τ →
      E.exec s choice τ.world (E.view τ.store vs) (fun _ => false) = some (answer, new, world) →
        ∃ new' world', E.exec s choice σ.world (E.view σ.store ws) (fun _ => false) =
            some (answer, new', world') ∧
          R (ws ++ new') { σ with world := world' } (vs ++ new) { τ with world := world })
    (commit : ∀ {ws σ vs τ}, R ws σ vs τ → R [] (E.publish σ i ws) [] (E.publish τ i vs))
    (drop : ∀ {ws σ vs τ}, R ws σ vs τ → R [] σ [] τ) {p : Prog Ans Err α} {ws vs vs' : List Write}
    {τ' : Shared Store Write World ι} {a : α} (follows : p.Follows allowed) (related : R ws σ vs τ)
    (h : E.drive (fun _ _ _ => True) i script (⟨p, vs⟩, τ) = some (⟨.ret a, vs'⟩, τ')) :
    ∃ ws' σ', E.drive (fun _ _ _ => True) i script (⟨p, ws⟩, σ) = some (⟨.ret a, ws'⟩, σ') ∧
      R ws' σ' vs' τ' := by
  induction script generalizing p ws vs σ τ with
  | nil =>
      cases h
      exact ⟨ws, σ, rfl, related⟩
  | cons m script ih =>
      rw [drive_cons] at h ⊢
      obtain ⟨⟨mid, υ⟩, step, rest⟩ := Option.bind_eq_some_iff.mp h
      -- A program that no longer returns is out of the question.
      have alive : ¬ mid.prog.Doomed := fun doomed => doomed_of_drive doomed rest
      cases m with
      | crash e =>
          rw [advance_crash] at step
          cases step
          exact (alive trivial).elim
      | close =>
          obtain ⟨ended, same⟩ := advance_close step
          cases same
          cases p with
          | ret b => exact ih follows (drop related) rest
          | raise => exact (alive trivial).elim
          | stmt | commit | rollback => cases ended
      | step choice =>
          cases p with
          | ret | raise => cases step
          | stmt s k =>
              simp only [advance] at step
              split at step
              · cases step
              · rename_i answer new world run
                split at step
                · cases step
                · cases step
                  have permitted := (follows answer).1.resolve_right alive
                  obtain ⟨new', world', run', kept⟩ := stmt permitted related run
                  simp only [advance, run', List.any_eq_true, Bool.false_eq_true, and_false,
                    exists_false, if_false]
                  exact ih (follows answer).2 kept rest
          | commit k =>
              cases step
              exact ih (follows _) (commit related) rest
          | rollback k =>
              cases step
              exact ih follows (drop related) rest
      | fail e =>
          cases p with
          | ret | raise | rollback => cases step
          | stmt s k =>
              simp only [advance] at step ⊢
              split at step
              · rename_i may
                cases step
                rw [if_pos may]
                exact ih (follows _).2 related rest
              · cases step
          | commit k =>
              cases step
              exact ih (follows _) (drop related) rest

end Simulation

end Engine

end Txn
