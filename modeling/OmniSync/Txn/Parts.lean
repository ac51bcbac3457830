import OmniSync.Txn.Interference

/-!
# Programs that are made of parts

Large programs do little themselves: they run a few library programs, the parts, and statements
that do not matter, and they commit only after the parts have succeeded. `Composed` is this
discipline. A session is sound as long as no part has failed; after that it may only raise, or
roll back, which makes it sound again. A handler starts in the standing in which the program
that it guards may raise.

The discipline is a property of the program text, so it is shown once for each program. What is
shown of the parts under a protocol, `Sustains`, then holds of every composed program:
`Composed.wp`. So one verification of the parts covers any mixture of composed programs in any
interleaving, `Cluster.Composed.inv`, and all that a composed program visits when it runs
alone, `Composed.visits`.
-/

namespace Txn

variable {Stmt : Type} {Ans : Stmt → Type} {Err Store Write World Choice ι α β γ : Type}

namespace Prog

/-- Run `p` and go on with its outcome, whether it returns or raises. -/
protected def attempt : Prog Ans Err α → (Except Err α → Prog Ans Err β) → Prog Ans Err β
  | ret a, k => k (.ok a)
  | raise e, k => k (.error e)
  | stmt s next, k => stmt s (fun answer => (next answer).attempt k)
  | commit next, k => commit (fun answer => (next answer).attempt k)
  | rollback next, k => rollback (next.attempt k)

theorem attempt_ofAnswer (p : Prog Ans Err α) : p.attempt ofAnswer = p := by
  induction p with
  | ret => rfl
  | raise => rfl
  | stmt s next ih => exact congrArg (stmt s) (funext ih)
  | commit next ih => exact congrArg commit (funext ih)
  | rollback next ih => exact congrArg rollback ih

theorem attempt_bind (p : Prog Ans Err α) (k : Except Err α → Prog Ans Err β)
    (f : β → Prog Ans Err γ) : p.attempt k >>= f = p.attempt (fun r => k r >>= f) := by
  simp only [bind_eq]
  induction p with
  | ret => rfl
  | raise => rfl
  | stmt s next ih => exact congrArg (stmt s) (funext ih)
  | commit next ih => exact congrArg commit (funext ih)
  | rollback next ih => exact congrArg rollback ih

theorem attempt_tryCatch (p : Prog Ans Err α) (k : Except Err α → Prog Ans Err β)
    (handler : Err → Prog Ans Err β) :
    (p.attempt k).tryCatch handler = p.attempt (fun r => (k r).tryCatch handler) := by
  induction p with
  | ret => rfl
  | raise => rfl
  | stmt s next ih => exact congrArg (stmt s) (funext ih)
  | commit next ih => exact congrArg commit (funext ih)
  | rollback next ih => exact congrArg rollback ih

/-- Whatever the program returns is good. This is a static property of the program, as `Within`
is. -/
protected def Returns (good : α → Prop) : Prog Ans Err α → Prop
  | ret a => good a
  | raise _ => True
  | stmt _ next => ∀ answer, (next answer).Returns good
  | commit next => ∀ answer, (next answer).Returns good
  | rollback next => next.Returns good

namespace Returns

variable {good : α → Prop} {better : β → Prop} {p : Prog Ans Err α} {f : α → Prog Ans Err β}

theorem any (p : Prog Ans Err α) : p.Returns (fun _ => True) := by
  induction p with
  | ret | raise => trivial
  | stmt _ _ ih => exact ih
  | commit _ ih => exact ih
  | rollback _ ih => exact ih

theorem ofAnswer {r : Except Err α} (h : ∀ a, r = .ok a → good a) :
    (Prog.ofAnswer r : Prog Ans Err α).Returns good := by
  cases r with
  | ok a => exact h a rfl
  | error e => trivial

theorem bind (hp : p.Returns good) (hf : ∀ a, good a → (f a).Returns better) :
    (p >>= f).Returns better := by
  induction p with
  | ret a => exact hf a hp
  | raise => trivial
  | stmt _ _ ih => exact fun answer => ih answer (hp answer)
  | commit _ ih => exact fun answer => ih answer (hp answer)
  | rollback _ ih => exact ih hp

theorem foldlM {action : α → γ → Prog Ans Err α} (xs : List γ) {init : α} (start : good init)
    (h : ∀ a, good a → ∀ x, (action a x).Returns good) :
    (xs.foldlM action init).Returns good := by
  induction xs generalizing init with
  | nil => exact start
  | cons x xs ih =>
      rw [List.foldlM_cons]
      exact bind (h init start x) (fun a ok => ih ok)

end Returns

/-- What may be done with the pending work of a session: it may be committed, or a part has
failed in its middle. -/
inductive Standing where
  | sound
  | spoiled

/-- The program runs `parts` and `allowed` statements, and commits only in a sound session. It
starts in a session of the second standing and may raise in one of the first. -/
inductive Composed (parts : ∀ β : Type, Prog Ans Err β → Prop) (allowed : Stmt → Prop)
    (raising : Standing) {α : Type} : Standing → Prog Ans Err α → Prop where
  | ret (a : α) : Composed parts allowed raising .sound (.ret a)
  | raise {standing : Standing} (e : Err) (fit : raising = .sound → standing = .sound) :
      Composed parts allowed raising standing (.raise e)
  | stmt {standing : Standing} {s : Stmt} {next : Except Err (Ans s) → Prog Ans Err α}
      (here : allowed s) (rest : ∀ answer, Composed parts allowed raising standing (next answer)) :
      Composed parts allowed raising standing (.stmt s next)
  | commit {next : Except Err Unit → Prog Ans Err α}
      (rest : ∀ answer, Composed parts allowed raising .sound (next answer)) :
      Composed parts allowed raising .sound (.commit next)
  | rollback {standing : Standing} {next : Prog Ans Err α}
      (rest : Composed parts allowed raising .sound next) :
      Composed parts allowed raising standing (.rollback next)
  | part {β : Type} {p : Prog Ans Err β} {k : Except Err β → Prog Ans Err α} (here : parts β p)
      (returned : ∀ b, Composed parts allowed raising .sound (k (.ok b)))
      (raised : ∀ e, Composed parts allowed raising .spoiled (k (.error e))) :
      Composed parts allowed raising .sound (p.attempt k)

namespace Composed

variable {parts : ∀ β : Type, Prog Ans Err β → Prop} {allowed : Stmt → Prop}
variable {raising standing : Standing} {p : Prog Ans Err α} {f : α → Prog Ans Err β}

/-- What may be done in a spoiled session may be done in a sound one. -/
theorem sound (h : Composed parts allowed raising standing p) :
    Composed parts allowed raising .sound p := by
  induction h with
  | ret a => exact .ret a
  | raise e _ => exact .raise e (fun _ => rfl)
  | stmt here _ ih => exact .stmt here ih
  | commit rest _ => exact .commit rest
  | rollback rest _ => exact .rollback rest
  | part here returned raised _ _ => exact .part here returned raised

/-- A program that raises in sound sessions raises in some session. -/
theorem weaken (h : Composed parts allowed .sound standing p) :
    Composed parts allowed raising standing p := by
  induction h with
  | ret a => exact .ret a
  | raise e fit => exact .raise e (fun _ => fit rfl)
  | stmt here _ ih => exact .stmt here ih
  | commit _ ih => exact .commit ih
  | rollback _ ih => exact .rollback ih
  | part here _ _ returned raised => exact .part here returned raised

theorem throws (e : Err) : Composed parts allowed raising .sound (.raise e : Prog Ans Err α) :=
  .raise e (fun _ => rfl)

theorem of_within (within : p.Within allowed) : Composed parts allowed raising .sound p := by
  induction p with
  | ret a => exact .ret a
  | raise e => exact .throws e
  | stmt s next ih => exact .stmt within.1 (fun answer => ih answer (within.2 answer))
  | commit => exact within.elim
  | rollback => exact within.elim

theorem of_part (here : parts α p) : Composed parts allowed .spoiled .sound p := by
  have whole : Composed parts allowed .spoiled .sound (p.attempt ofAnswer) :=
    .part here (fun a => .ret a) (fun e => .raise e (fun impossible => (nomatch impossible)))
  rwa [attempt_ofAnswer] at whole

theorem issue {s : Stmt} (here : allowed s) :
    Composed parts allowed raising .sound (Prog.issue s : Prog Ans Err (Ans s)) :=
  .of_within (.issue here)

theorem ofAnswer (r : Except Err α) :
    Composed parts allowed raising .sound (Prog.ofAnswer r : Prog Ans Err α) := by
  cases r with
  | ok a => exact .ret a
  | error e => exact .throws e

theorem commitWork :
    Composed parts allowed raising .sound (Prog.commitWork : Prog Ans Err Unit) :=
  .commit (fun answer => .ofAnswer answer)

theorem rollbackWork :
    Composed parts allowed raising standing (Prog.rollbackWork : Prog Ans Err Unit) :=
  .rollback (.ret ())

/-- A program without parts may be followed by what any outcome of it allows. -/
theorem attempt_of_within {q : Prog Ans Err β} {k : Except Err β → Prog Ans Err α}
    (within : q.Within allowed) (each : ∀ r, Composed parts allowed raising .sound (k r)) :
    Composed parts allowed raising .sound (q.attempt k) := by
  induction q with
  | ret a => exact each _
  | raise e => exact each _
  | stmt s next ih => exact .stmt within.1 (fun answer => ih answer (within.2 answer))
  | commit => exact within.elim
  | rollback => exact within.elim

/-- The discipline may allow more statements, also those of some of the parts. -/
theorem widen {parts' : ∀ β : Type, Prog Ans Err β → Prop} {allowed' : Stmt → Prop}
    (h : Composed parts allowed raising standing p) (imp : ∀ s, allowed s → allowed' s)
    (each : ∀ β (q : Prog Ans Err β), parts β q → parts' β q ∨ q.Within allowed') :
    Composed parts' allowed' raising standing p := by
  induction h with
  | ret a => exact .ret a
  | raise e fit => exact .raise e fit
  | stmt here _ ih => exact .stmt (imp _ here) ih
  | commit _ ih => exact .commit ih
  | rollback _ ih => exact .rollback ih
  | part here _ _ returned raised =>
      rcases each _ _ here with part | within
      · exact .part part returned raised
      · refine attempt_of_within within (fun r => ?_)
        cases r with
        | ok b => exact returned b
        | error e => exact (raised e).sound

/-- A program goes on in a sound session when it has returned. -/
theorem bind (hp : Composed parts allowed raising standing p)
    (hf : ∀ a, Composed parts allowed raising .sound (f a)) :
    Composed parts allowed raising standing (p >>= f) := by
  induction hp with
  | ret a => exact hf a
  | raise e fit => exact .raise e fit
  | stmt here _ ih => exact .stmt here ih
  | commit _ ih => exact .commit ih
  | rollback _ ih => exact .rollback ih
  | part here _ _ returned raised =>
      rw [attempt_bind]
      exact .part here returned raised

/-- A program goes on with what a program without parts may return. -/
theorem bind_within {p : Prog Ans Err α} {f : α → Prog Ans Err β} {good : α → Prop}
    (within : p.Within allowed) (returns : p.Returns good)
    (hf : ∀ a, good a → Composed parts allowed raising .sound (f a)) :
    Composed parts allowed raising .sound (p >>= f) := by
  induction p with
  | ret a => exact hf a returns
  | raise e => exact .throws e
  | stmt s next ih =>
      exact .stmt within.1 (fun answer => ih answer (within.2 answer) (returns answer))
  | commit => exact within.elim
  | rollback => exact within.elim

/-- A handler starts where the program may raise. -/
theorem tryCatch {caught : Standing} {handler : Err → Prog Ans Err α}
    (hp : Composed parts allowed caught standing p)
    (hh : ∀ e, Composed parts allowed raising caught (handler e)) :
    Composed parts allowed raising standing (p.tryCatch handler) := by
  induction hp with
  | ret a => exact .ret a
  | @raise standing e fit =>
      cases standing with
      | sound => exact (hh e).sound
      | spoiled =>
          cases caught with
          | sound => cases fit rfl
          | spoiled => exact hh e
  | stmt here _ ih => exact .stmt here ih
  | commit _ ih => exact .commit ih
  | rollback _ ih => exact .rollback ih
  | part here _ _ returned raised =>
      rw [attempt_tryCatch]
      exact .part here returned raised

theorem foldlM {action : α → γ → Prog Ans Err α} (xs : List γ) (init : α)
    (h : ∀ a x, Composed parts allowed raising .sound (action a x)) :
    Composed parts allowed raising .sound (xs.foldlM action init) := by
  induction xs generalizing init with
  | nil => exact .ret init
  | cons x xs ih =>
      rw [List.foldlM_cons]
      exact bind (h init x) (fun a => ih a)

end Composed

end Prog

open Prog

variable {E : Engine Ans Err Store Write World Choice} {P : Protocol E ι}

/-- The outcome of the first program is handed on with the state it leaves. -/
theorem wp_attempt {i : ι} {p : Prog Ans Err α} {k : Except Err α → Prog Ans Err β}
    {Q : Post Err Store Write World ι β} {σ : Shared Store Write World ι} {ws : List Write} :
    wp P i (p.attempt k) Q σ ws ↔ wp P i p (fun r τ vs => wp P i (k r) Q τ vs) σ ws := by
  induction p generalizing σ ws with
  | ret => rfl
  | raise => rfl
  | stmt s next ih => simp only [Prog.attempt, wp, ih]
  | commit next ih => simp only [Prog.attempt, wp, ih]
  | rollback next ih => simp only [Prog.attempt, wp, ih]

/-- Session `i` can run `parts` and `allowed` statements under `P`: `Clean` is what is known of
its pending work while it is sound. -/
structure Sustains (P : Protocol E ι) (i : ι) (parts : ∀ β : Type, Prog Ans Err β → Prop)
    (allowed : Stmt → Prop) (Clean : Shared Store Write World ι → List Write → Prop) : Prop where
  stable : ∀ {σ τ ws}, Clean σ ws → P.rely ws σ τ → P.inv τ → Clean τ ws
  empty : ∀ {σ}, P.inv σ → Clean σ []
  step : ∀ {s σ ws choice locked answer new world}, allowed s → P.inv σ →
    E.exec s choice σ.world (E.view σ.store ws) locked = some (answer, new, world) →
      P.Guarantees i ws σ { σ with world := world } ∧
        (Clean σ ws → Clean { σ with world := world } (ws ++ new))
  commits : ∀ {σ ws}, Clean σ ws → P.inv σ → P.Guarantees i ws σ (E.publish σ i ws)
  part : ∀ {β : Type} {p : Prog Ans Err β} {σ ws}, parts β p → P.inv σ → Clean σ ws →
    wp P i p (fun r τ vs => ∀ b, r = .ok b → Clean τ vs) σ ws

section Rules

variable {i : ι} {parts : ∀ β : Type, Prog Ans Err β → Prop} {allowed : Stmt → Prop}
variable {Clean : Shared Store Write World ι → List Write → Prop}
variable {raising standing : Standing} {σ τ : Shared Store Write World ι} {ws : List Write}

/-- A composed program is verified by its parts. -/
theorem Prog.Composed.wp {p : Prog Ans Err α} (keeps : Sustains P i parts allowed Clean)
    (h : Composed parts allowed raising standing p) (inv : P.inv σ)
    (clean : standing = .sound → Clean σ ws) :
    wp P i p (fun r τ vs => (∀ a, r = .ok a → Clean τ vs) ∧
      ∀ e, r = .error e → raising = .sound → Clean τ vs) σ ws := by
  induction h generalizing σ ws with
  | ret a => exact ⟨fun _ _ => clean rfl, fun _ impossible => (nomatch impossible)⟩
  | raise e fit =>
      exact ⟨fun _ impossible => (nomatch impossible), fun _ _ sound => clean (fit sound)⟩
  | stmt here _ ih =>
      intro τ rely inv' _
      have now := fun sound => keeps.stable (clean sound) rely inv'
      refine ⟨fun _ e => ih _ inv' now, ?_⟩
      intro choice locked answer new world run _
      obtain ⟨guarantee, kept⟩ := keeps.step here inv' run
      exact ⟨guarantee, ih _ guarantee.inv (fun sound => kept (now sound))⟩
  | commit _ ih =>
      intro τ rely inv'
      have guarantee := keeps.commits (keeps.stable (clean rfl) rely inv') inv'
      exact ⟨fun e => ih _ inv' (fun _ => keeps.empty inv'), guarantee,
        ih _ guarantee.inv (fun _ => keeps.empty guarantee.inv)⟩
  | rollback _ ih =>
      intro τ _ inv'
      exact ih inv' (fun _ => keeps.empty inv')
  | part here _ _ returned raised =>
      rw [wp_attempt]
      refine wp_mono (wp_inv inv (keeps.part here inv (clean rfl))) ?_
      rintro r τ vs ⟨inv', done⟩
      cases r with
      | ok b => exact returned b inv' (fun _ => done b rfl)
      | error e => exact raised e inv' (fun impossible => (nomatch impossible))

theorem Prog.Composed.verified {p : Prog Ans Err α} (keeps : Sustains P i parts allowed Clean)
    (h : Composed parts allowed raising .sound p) (inv : P.inv σ) :
    Txn.wp P i p (fun _ _ _ => True) σ [] :=
  wp_mono (h.wp keeps inv (fun _ => keeps.empty inv)) (fun _ _ _ _ => True.intro)

/-- A composed program that runs alone keeps the invariant, however far it gets. -/
theorem Prog.Composed.visits {p : Prog Ans Err α} (keeps : Sustains P i parts allowed Clean)
    (free : ∀ s σ ws, P.admits s σ ws) (h : Composed parts allowed raising .sound p)
    (inv : P.inv σ) (run : E.Visits i p σ τ) : P.inv τ :=
  wp_visits P free inv (h.verified keeps inv) run

/-- Composed programs keep the invariant in any interleaving. -/
theorem Cluster.Composed.inv [Fintype ι] [DecidableEq ι] (coherent : P.Coherent)
    {parts : ι → ∀ β : Type, Prog Ans Err β → Prop}
    {Clean : ι → Shared Store Write World ι → List Write → Prop}
    (keeps : ∀ i, Sustains P i (parts i) allowed (Clean i)) {progs : ι → Prog Ans Err α}
    (composed : ∀ i, Composed (parts i) allowed raising .sound (progs i)) (inv : P.inv σ)
    {st : Cluster Ans Err Store Write World ι α}
    (run : Cluster.Run E P.admits (Cluster.start σ progs) st) : P.inv st.shared := by
  have safe := Cluster.Safe.start P (Q := fun _ _ _ _ => True) inv
    (fun i => (composed i).verified (keeps i) inv)
  exact (safe.run coherent (fun _ => .trivial) run).inv

end Rules

section Assuming

/-- The protocol under a further invariant. -/
def Protocol.assuming (P : Protocol E ι) (K : Shared Store Write World ι → Prop) :
    Protocol E ι := { P with inv := fun σ => P.inv σ ∧ K σ }

/-- What survives interference may be added to the invariant. -/
theorem wp_of_assuming {i : ι} {p : Prog Ans Err α} {Q : Post Err Store Write World ι α}
    {K : Shared Store Write World ι → Prop} {σ : Shared Store Write World ι} {ws : List Write}
    (stable : ∀ {ws σ τ}, K σ → P.rely ws σ τ → K τ) (here : K σ)
    (h : wp (P.assuming K) i p Q σ ws) : wp P i p Q σ ws := by
  induction p generalizing σ ws with
  | ret => exact h
  | raise => exact h
  | stmt s next ih =>
      intro τ rely inv admits
      have now := stable here rely
      obtain ⟨failing, step⟩ := h τ rely ⟨inv, now⟩ admits
      refine ⟨fun may e => ih _ now (failing may e), ?_⟩
      intro choice locked answer new world run free
      obtain ⟨guarantee, rest⟩ := step choice locked answer new world run free
      exact ⟨⟨guarantee.inv.1, guarantee.guar⟩, ih _ guarantee.inv.2 rest⟩
  | commit next ih =>
      intro τ rely inv
      have now := stable here rely
      obtain ⟨failing, guarantee, rest⟩ := h τ rely ⟨inv, now⟩
      exact ⟨fun e => ih _ now (failing e), ⟨guarantee.inv.1, guarantee.guar⟩,
        ih _ guarantee.inv.2 rest⟩
  | rollback next ih =>
      intro τ rely inv
      exact ih (stable here rely) (h τ rely ⟨inv, stable here rely⟩)

end Assuming

end Txn
