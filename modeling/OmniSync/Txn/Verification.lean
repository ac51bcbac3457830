import OmniSync.Txn.Cluster

/-!
# Weakest preconditions under interference

A protocol fixes an invariant of the shared state, a rely and a guarantee. The
rely says what the other sessions may have changed, given the writes that are
pending here; the guarantee says what a session with given pending writes may
change itself. `wp` describes a program of which every statement may find the
shared state changed by the rely, and of which every own change keeps the
invariant and is covered by the guarantee.

`wp_advance` is the soundness of one step. `Cluster.Safe` lifts it to any
interleaving of a `Coherent` protocol: it suffices to verify each program on its
own. The same weakest precondition describes solo runs (`wp_solo`), where
nothing interferes and the rely may be as strong as equality.

The rewriting rules execute a program symbolically: `wp_bind` and `wp_tryCatch`
thread the postcondition, loops are reduced to one iteration by `wp_forM` and
`wp_foldlM`, and `wp_issue` leaves the verification condition of a statement.
-/

namespace Txn

variable {Stmt : Type} {Ans : Stmt → Type} {Err Store Write World Choice ι α β : Type}

/-- What the sessions of a cluster agree on. `admits` restricts the interleavings
under consideration: it is assumed of every statement that a session executes. -/
structure Protocol {Stmt : Type} {Ans : Stmt → Type} {Err Store Write World Choice : Type}
    (E : Engine Ans Err Store Write World Choice) (ι : Type) where
  inv : Shared Store Write World ι → Prop
  rely : List Write → Shared Store Write World ι → Shared Store Write World ι → Prop
  guar : ι → List Write → Shared Store Write World ι → Shared Store Write World ι → Prop
  admits : Stmt → Shared Store Write World ι → List Write → Prop
  rely_refl : ∀ ws σ, rely ws σ σ
  rely_trans : ∀ {ws σ τ υ}, rely ws σ τ → rely ws τ υ → rely ws σ υ
  guar_refl : ∀ i ws σ, guar i ws σ σ

/-- A postcondition: of the outcome, the shared state and the pending writes. -/
abbrev Post (Err Store Write World ι α : Type) :=
  Except Err α → Shared Store Write World ι → List Write → Prop

/-- Hand a value on to `next`, and an error to `Q`. -/
def Post.andThen (Q : Post Err Store Write World ι β)
    (next : α → Shared Store Write World ι → List Write → Prop) :
    Post Err Store Write World ι α
  | .ok a => next a
  | .error e => Q (.error e)

/-- Hand an error on to `handler`, and a value to `Q`. -/
def Post.handling (Q : Post Err Store Write World ι α)
    (handler : Err → Shared Store Write World ι → List Write → Prop) :
    Post Err Store Write World ι α
  | .ok a => Q (.ok a)
  | .error e => handler e

section Post

variable {σ : Shared Store Write World ι} {ws : List Write}

@[simp] theorem Post.andThen_ok {Q : Post Err Store Write World ι β}
    {next : α → Shared Store Write World ι → List Write → Prop} {a : α} :
    Q.andThen next (.ok a) σ ws ↔ next a σ ws := Iff.rfl

@[simp] theorem Post.andThen_error {Q : Post Err Store Write World ι β}
    {next : α → Shared Store Write World ι → List Write → Prop} {e : Err} :
    Q.andThen next (.error e) σ ws ↔ Q (.error e) σ ws := Iff.rfl

@[simp] theorem Post.handling_ok {Q : Post Err Store Write World ι α}
    {handler : Err → Shared Store Write World ι → List Write → Prop} {a : α} :
    Q.handling handler (.ok a) σ ws ↔ Q (.ok a) σ ws := Iff.rfl

@[simp] theorem Post.handling_error {Q : Post Err Store Write World ι α}
    {handler : Err → Shared Store Write World ι → List Write → Prop} {e : Err} :
    Q.handling handler (.error e) σ ws ↔ handler e σ ws := Iff.rfl

end Post

variable {E : Engine Ans Err Store Write World Choice} (P : Protocol E ι)

namespace Protocol

/-- What one session guarantees, every session relies on whose pending writes are
compatible with its own. -/
def Coherent : Prop :=
  ∀ {i ws others σ τ}, E.Compatible ws others → P.guar i ws σ τ → P.rely others σ τ

/-- Session `i` with pending writes `ws` may change `σ` to `τ`. -/
structure Guarantees (i : ι) (ws : List Write) (σ τ : Shared Store Write World ι) : Prop where
  inv : P.inv τ
  guar : P.guar i ws σ τ

theorem Guarantees.refl {P : Protocol E ι} {i : ι} {ws : List Write}
    {σ : Shared Store Write World ι} (h : P.inv σ) : P.Guarantees i ws σ σ :=
  ⟨h, P.guar_refl i ws σ⟩

/-- A postcondition that survives interference and the end of the session. -/
structure Final (Q : Post Err Store Write World ι α) : Prop where
  stable : ∀ {r σ τ ws}, Q r σ ws → P.rely ws σ τ → P.inv τ → Q r τ ws
  closed : ∀ {r σ ws}, Q r σ ws → Q r σ []
  crashed : ∀ {e σ}, P.inv σ → Q (.error e) σ []

theorem Final.trivial {P : Protocol E ι} :
    P.Final (fun (_ : Except Err α) _ _ => True) :=
  ⟨fun _ _ _ => True.intro, fun _ => True.intro, fun _ => True.intro⟩

end Protocol

/-- The weakest precondition of a program of session `i`. -/
def wp (i : ι) : Prog Ans Err α → Post Err Store Write World ι α →
    Shared Store Write World ι → List Write → Prop
  | .ret a, Q, σ, ws => Q (.ok a) σ ws
  | .raise e, Q, σ, ws => Q (.error e) σ ws
  | .stmt s next, Q, σ, ws =>
      ∀ τ, P.rely ws σ τ → P.inv τ → P.admits s τ ws →
        (E.fallible s = true → ∀ e, wp i (next (.error e)) Q τ ws) ∧
        ∀ choice locked answer new world,
          E.exec s choice τ.world (E.view τ.store ws) locked = some (answer, new, world) →
            (∀ w ∈ new, locked w = false) →
              P.Guarantees i ws τ { τ with world := world } ∧
                wp i (next answer) Q { τ with world := world } (ws ++ new)
  | .commit next, Q, σ, ws =>
      ∀ τ, P.rely ws σ τ → P.inv τ →
        (∀ e, wp i (next (.error e)) Q τ []) ∧
        P.Guarantees i ws τ (E.publish τ i ws) ∧
        wp i (next (.ok ())) Q (E.publish τ i ws) []
  | .rollback next, Q, σ, ws =>
      ∀ τ, P.rely ws σ τ → P.inv τ → wp i next Q τ []

section Rules

variable {P} {i : ι} {Q Q' : Post Err Store Write World ι α}
variable {σ τ : Shared Store Write World ι} {ws : List Write}

@[simp] theorem wp_ret {a : α} : wp P i (.ret a) Q σ ws ↔ Q (.ok a) σ ws := Iff.rfl

@[simp] theorem wp_pure {a : α} : wp P i (pure a) Q σ ws ↔ Q (.ok a) σ ws := Iff.rfl

@[simp] theorem wp_raise {e : Err} : wp P i (.raise e) Q σ ws ↔ Q (.error e) σ ws := Iff.rfl

@[simp] theorem wp_throw {e : Err} :
    wp P i (throw e : Prog Ans Err α) Q σ ws ↔ Q (.error e) σ ws := Iff.rfl

theorem wp_ofAnswer {r : Except Err α} :
    wp P i (Prog.ofAnswer r : Prog Ans Err α) Q σ ws ↔ Q r σ ws := by
  cases r <;> rfl

theorem wp_mono {p : Prog Ans Err α} (h : wp P i p Q σ ws)
    (imp : ∀ r σ ws, Q r σ ws → Q' r σ ws) : wp P i p Q' σ ws := by
  induction p generalizing σ ws with
  | ret => exact imp _ _ _ h
  | raise => exact imp _ _ _ h
  | stmt s next ih =>
      intro τ rely inv admits
      obtain ⟨failing, step⟩ := h τ rely inv admits
      refine ⟨fun may e => ih _ (failing may e), ?_⟩
      intro choice locked answer new world run free
      obtain ⟨guarantee, rest⟩ := step choice locked answer new world run free
      exact ⟨guarantee, ih _ rest⟩
  | commit next ih =>
      intro τ rely inv
      obtain ⟨failing, guarantee, rest⟩ := h τ rely inv
      exact ⟨fun e => ih _ (failing e), guarantee, ih _ rest⟩
  | rollback next ih =>
      intro τ rely inv
      exact ih (h τ rely inv)

/-- The invariant holds where a program ends. -/
theorem wp_inv {p : Prog Ans Err α} (inv : P.inv σ) (h : wp P i p Q σ ws) :
    wp P i p (fun r τ vs => P.inv τ ∧ Q r τ vs) σ ws := by
  induction p generalizing σ ws with
  | ret => exact ⟨inv, h⟩
  | raise => exact ⟨inv, h⟩
  | stmt s next ih =>
      intro τ rely here admits
      obtain ⟨failing, step⟩ := h τ rely here admits
      refine ⟨fun may e => ih _ here (failing may e), ?_⟩
      intro choice locked answer new world run free
      obtain ⟨guarantee, rest⟩ := step choice locked answer new world run free
      exact ⟨guarantee, ih _ guarantee.inv rest⟩
  | commit next ih =>
      intro τ rely here
      obtain ⟨failing, guarantee, rest⟩ := h τ rely here
      exact ⟨fun e => ih _ here (failing e), guarantee, ih _ guarantee.inv rest⟩
  | rollback next ih =>
      intro τ rely here
      exact ih here (h τ rely here)

/-- Sequencing: the second program starts where the first one returns. -/
theorem wp_bind {p : Prog Ans Err β} {f : β → Prog Ans Err α} :
    wp P i (p >>= f) Q σ ws ↔ wp P i p (Q.andThen (fun b => wp P i (f b) Q)) σ ws := by
  rw [Prog.bind_eq]
  induction p generalizing σ ws with
  | ret => rfl
  | raise => rfl
  | stmt s next ih => simp only [Prog.bind, wp, ih]
  | commit next ih => simp only [Prog.bind, wp, ih]
  | rollback next ih => simp only [Prog.bind, wp, ih]

/-- Exception handling: the handler starts where the program raises. -/
theorem wp_tryCatch {p : Prog Ans Err α} {handler : Err → Prog Ans Err α} :
    wp P i (p.tryCatch handler) Q σ ws ↔
      wp P i p (Q.handling (fun e => wp P i (handler e) Q)) σ ws := by
  induction p generalizing σ ws with
  | ret => rfl
  | raise => rfl
  | stmt s next ih => simp only [Prog.tryCatch, wp, ih]
  | commit next ih => simp only [Prog.tryCatch, wp, ih]
  | rollback next ih => simp only [Prog.tryCatch, wp, ih]

/-- Interference before the first statement changes nothing. -/
theorem wp_stable {p : Prog Ans Err α} (hQ : ∀ {r}, Q r σ ws → Q r τ ws)
    (h : wp P i p Q σ ws) (rely : P.rely ws σ τ) : wp P i p Q τ ws := by
  cases p with
  | ret => exact hQ h
  | raise => exact hQ h
  | stmt s next => exact fun υ rest inv admits => h υ (P.rely_trans rely rest) inv admits
  | commit next => exact fun υ rest inv => h υ (P.rely_trans rely rest) inv
  | rollback next => exact fun υ rest inv => h υ (P.rely_trans rely rest) inv

/-- The verification condition of one statement. -/
theorem wp_issue {s : Stmt} {Q : Post Err Store Write World ι (Ans s)} :
    wp P i (Prog.issue s) Q σ ws ↔
      ∀ τ, P.rely ws σ τ → P.inv τ → P.admits s τ ws →
        (E.fallible s = true → ∀ e, Q (.error e) τ ws) ∧
        ∀ choice locked answer new world,
          E.exec s choice τ.world (E.view τ.store ws) locked = some (answer, new, world) →
            (∀ w ∈ new, locked w = false) →
              P.Guarantees i ws τ { τ with world := world } ∧
                Q answer { τ with world := world } (ws ++ new) := by
  simp only [Prog.issue, wp, wp_ofAnswer]

theorem wp_commitWork {Q : Post Err Store Write World ι Unit} :
    wp P i Prog.commitWork Q σ ws ↔
      ∀ τ, P.rely ws σ τ → P.inv τ →
        (∀ e, Q (.error e) τ []) ∧ P.Guarantees i ws τ (E.publish τ i ws) ∧
          Q (.ok ()) (E.publish τ i ws) [] := by
  simp only [Prog.commitWork, wp, wp_ofAnswer]

theorem wp_rollbackWork {Q : Post Err Store Write World ι Unit} :
    wp P i Prog.rollbackWork Q σ ws ↔
      ∀ τ, P.rely ws σ τ → P.inv τ → Q (.ok ()) τ [] := Iff.rfl

/-- A loop over a list, by an invariant of the elements still to be visited. -/
theorem wp_forM {γ : Type} {action : γ → Prog Ans Err PUnit}
    {Q : Post Err Store Write World ι PUnit} (inv : List γ → Shared Store Write World ι →
      List Write → Prop)
    (iteration : ∀ x xs σ ws, inv (x :: xs) σ ws →
      wp P i (action x) (Q.andThen (fun _ => inv xs)) σ ws)
    (exit : ∀ σ ws, inv [] σ ws → Q (.ok ⟨⟩) σ ws) (xs : List γ) (enter : inv xs σ ws) :
    wp P i (xs.forM action) Q σ ws := by
  induction xs generalizing σ ws with
  | nil => exact exit σ ws enter
  | cons x xs ih =>
      change wp P i (action x >>= fun _ => xs.forM action) Q σ ws
      rw [wp_bind]
      refine wp_mono (iteration x xs σ ws enter) ?_
      intro r σ ws h
      cases r with
      | ok => exact ih h
      | error => exact h

/-- An accumulating loop, by an invariant of the accumulator and of the elements
still to be visited. -/
theorem wp_foldlM {γ : Type} {action : α → γ → Prog Ans Err α}
    (inv : α → List γ → Shared Store Write World ι → List Write → Prop)
    (iteration : ∀ a x xs σ ws, inv a (x :: xs) σ ws →
      wp P i (action a x) (Q.andThen (fun b => inv b xs)) σ ws)
    (exit : ∀ a σ ws, inv a [] σ ws → Q (.ok a) σ ws) (init : α) (xs : List γ)
    (enter : inv init xs σ ws) : wp P i (xs.foldlM action init) Q σ ws := by
  induction xs generalizing init σ ws with
  | nil => exact exit init σ ws enter
  | cons x xs ih =>
      rw [List.foldlM_cons, wp_bind]
      refine wp_mono (iteration init x xs σ ws enter) ?_
      intro r σ ws h
      cases r with
      | ok b => exact ih b h
      | error => exact h

/-- A program that issues only `allowed` statements and does not commit: an assertion that
each of them keeps is kept by the program. -/
theorem wp_within {allowed : Stmt → Prop} {p : Prog Ans Err α} (within : p.Within allowed)
    {R : Shared Store Write World ι → List Write → Prop}
    (stable : ∀ {σ τ ws}, R σ ws → P.rely ws σ τ → P.inv τ → R τ ws)
    (step : ∀ {s}, allowed s → ∀ {σ ws choice locked answer new world}, R σ ws → P.inv σ →
      E.exec s choice σ.world (E.view σ.store ws) locked = some (answer, new, world) →
        P.Guarantees i ws σ { σ with world := world } ∧ R { σ with world := world } (ws ++ new))
    (start : R σ ws) (exit : ∀ r σ ws, R σ ws → Q r σ ws) : wp P i p Q σ ws := by
  induction p generalizing σ ws with
  | ret => exact exit _ _ _ start
  | raise => exact exit _ _ _ start
  | stmt s next ih =>
      intro τ rely inv _
      have here := stable start rely inv
      refine ⟨fun _ e => ih _ (within.2 _) here, ?_⟩
      intro choice locked answer new world run _
      obtain ⟨guarantee, kept⟩ := step within.1 here inv run
      exact ⟨guarantee, ih _ (within.2 _) kept⟩
  | commit => exact within.elim
  | rollback => exact within.elim

/-- An assertion on the pending writes that every admitted statement keeps, that holds of a
session with nothing pending, and that allows a commit: it verifies any program. -/
theorem wp_any {R : Shared Store Write World ι → List Write → Prop}
    (stable : ∀ {σ τ ws}, R σ ws → P.rely ws σ τ → P.inv τ → R τ ws)
    (step : ∀ {s σ ws choice locked answer new world}, R σ ws → P.inv σ → P.admits s σ ws →
      E.exec s choice σ.world (E.view σ.store ws) locked = some (answer, new, world) →
        P.Guarantees i ws σ { σ with world := world } ∧ R { σ with world := world } (ws ++ new))
    (commits : ∀ {σ ws}, R σ ws → P.inv σ → P.Guarantees i ws σ (E.publish σ i ws))
    (empty : ∀ {σ}, P.inv σ → R σ []) (start : R σ ws) (p : Prog Ans Err α) :
    wp P i p (fun _ _ _ => True) σ ws := by
  induction p generalizing σ ws with
  | ret => trivial
  | raise => trivial
  | stmt s next ih =>
      intro τ rely inv admitted
      have here := stable start rely inv
      refine ⟨fun _ e => ih _ here, ?_⟩
      intro choice locked answer new world run _
      obtain ⟨guarantee, kept⟩ := step here inv admitted run
      exact ⟨guarantee, ih _ kept⟩
  | commit next ih =>
      intro τ rely inv
      have guarantee := commits (stable start rely inv) inv
      exact ⟨fun e => ih _ (empty inv), guarantee, ih _ (empty guarantee.inv)⟩
  | rollback next ih =>
      intro τ rely inv
      exact ih (empty inv)

end Rules

/-- Soundness of one step of the program: it keeps the invariant, it is covered by the rely
of the other sessions, and the rest of the program is verified again. -/
theorem wp_step {i : ι} {Q : Post Err Store Write World ι α}
    {locked : Write → Bool} {σ τ : Shared Store Write World ι}
    {session next : Session Ans Err Write α} {m : Move Err Choice} (ordinary : m.ordinary = true)
    (inv : P.inv σ) (verified : wp P i session.prog Q σ session.writes)
    (admitted : ∀ s k, session.prog = .stmt s k → P.admits s σ session.writes)
    (h : E.advance i locked σ session m = some (next, τ)) :
    P.Guarantees i session.writes σ τ ∧ wp P i next.prog Q τ next.writes ∧
      ∀ others, E.Compatible session.writes others →
        (∀ w, locked w = false → ∀ v ∈ others, E.conflict w v = false) →
          E.Compatible next.writes others := by
  obtain ⟨prog, ws⟩ := session
  have same : P.Guarantees i ws σ σ := .refl inv
  have empty : ∀ others, E.Compatible ws others →
      (∀ w, locked w = false → ∀ v ∈ others, E.conflict w v = false) →
        E.Compatible [] others := fun others _ _ => E.compatible_nil_left others
  cases m with
  | crash e => cases ordinary
  | close => cases ordinary
  | fail e =>
      cases prog with
      | ret a => cases h
      | raise e' => cases h
      | stmt s k =>
          simp only [Engine.advance] at h
          split at h
          · rename_i may
            cases h
            exact ⟨same, (verified σ (P.rely_refl ws σ) inv (admitted s k rfl)).1 may e,
              fun others compatible _ => compatible⟩
          · cases h
      | commit k =>
          cases h
          exact ⟨same, (verified σ (P.rely_refl ws σ) inv).1 e, empty⟩
      | rollback k => cases h
  | step choice =>
      cases prog with
      | ret a => cases h
      | raise e => cases h
      | stmt s k =>
          cases run : E.exec s choice σ.world (E.view σ.store ws) locked with
          | none => simp only [Engine.advance, run, reduceCtorEq] at h
          | some outcome =>
              obtain ⟨answer, new, world⟩ := outcome
              simp only [Engine.advance, run] at h
              split at h
              · cases h
              · rename_i free
                cases h
                have unlocked : ∀ w ∈ new, locked w = false := by
                  intro w hw
                  by_contra taken
                  exact free (List.any_eq_true.mpr ⟨w, hw, by simpa using taken⟩)
                obtain ⟨guarantee, rest⟩ :=
                  (verified σ (P.rely_refl ws σ) inv (admitted s k rfl)).2
                    choice locked answer new world run unlocked
                refine ⟨guarantee, rest, ?_⟩
                intro others compatible exclusive
                exact (E.compatible_append_left).mpr
                  ⟨compatible, fun w hw => exclusive w (unlocked w hw)⟩
      | commit k =>
          cases h
          obtain ⟨_, guarantee, rest⟩ := verified σ (P.rely_refl ws σ) inv
          exact ⟨guarantee, rest, empty⟩
      | rollback k =>
          cases h
          exact ⟨same, verified σ (P.rely_refl ws σ) inv, empty⟩

/-- Soundness of one step of a session. The session may also crash or be closed, and a final
postcondition allows for that. -/
theorem wp_advance {i : ι} {Q : Post Err Store Write World ι α} (final : P.Final Q)
    {locked : Write → Bool} {σ τ : Shared Store Write World ι}
    {session next : Session Ans Err Write α} {m : Move Err Choice} (inv : P.inv σ)
    (verified : wp P i session.prog Q σ session.writes)
    (admitted : ∀ s k, session.prog = .stmt s k → P.admits s σ session.writes)
    (h : E.advance i locked σ session m = some (next, τ)) :
    P.Guarantees i session.writes σ τ ∧ wp P i next.prog Q τ next.writes ∧
      ∀ others, E.Compatible session.writes others →
        (∀ w, locked w = false → ∀ v ∈ others, E.conflict w v = false) →
          E.Compatible next.writes others := by
  cases m with
  | step choice => exact wp_step P rfl inv verified admitted h
  | fail e => exact wp_step P rfl inv verified admitted h
  | crash e =>
      obtain ⟨prog, ws⟩ := session
      have moved : (⟨.raise e, []⟩, σ) = (next, τ) := by cases prog <;> exact Option.some.inj h
      cases moved
      exact ⟨.refl inv, final.crashed inv, fun others _ _ => E.compatible_nil_left others⟩
  | close =>
      obtain ⟨prog, ws⟩ := session
      cases prog with
      | ret a =>
          cases h
          exact ⟨.refl inv, final.closed verified, fun others _ _ => E.compatible_nil_left others⟩
      | raise e =>
          cases h
          exact ⟨.refl inv, final.closed verified, fun others _ _ => E.compatible_nil_left others⟩
      | stmt s k => cases h
      | commit k => cases h
      | rollback k => cases h

/-- A solo run of a verified program. Nothing interferes, so the protocol only has to
be kept by the program itself. -/
theorem wp_solo {i : ι} {Q : Post Err Store Write World ι α} (final : P.Final Q)
    {start next : Session Ans Err Write α × Shared Store Write World ι} (inv : P.inv start.2)
    (verified : wp P i start.1.prog Q start.2 start.1.writes)
    (h : E.Solo P.admits i start next) :
    P.inv next.2 ∧ wp P i next.1.prog Q next.2 next.1.writes := by
  induction h with
  | refl => exact ⟨inv, verified⟩
  | tail _ admitted step ih =>
      obtain ⟨guarantee, verified', _⟩ := wp_advance P final ih.1 ih.2 admitted step
      exact ⟨guarantee.inv, verified'⟩

/-- Run alone from `σ`, the program of session `i` returns `a` and leaves `τ`. What
is still pending then is never committed. -/
def Engine.Completes (E : Engine Ans Err Store Write World Choice) (i : ι) (p : Prog Ans Err α)
    (σ : Shared Store Write World ι) (a : α) (τ : Shared Store Write World ι) : Prop :=
  ∃ ws, E.Solo (fun _ _ _ => True) i (⟨p, []⟩, σ) (⟨.ret a, ws⟩, τ)

/-- Either nothing has happened, or the first move is known. -/
theorem Engine.Solo.head {admits : Stmt → Shared Store Write World ι → List Write → Prop} {i : ι}
    {start next : Session Ans Err Write α × Shared Store Write World ι}
    (h : E.Solo admits i start next) : next = start ∨
      ∃ m mid, E.advance i (fun _ => false) start.2 start.1 m = some mid ∧
        E.Solo admits i mid next := by
  induction h with
  | refl => exact .inl rfl
  | @tail mid next m _ admitted step ih =>
      rcases ih with rfl | ⟨first, then', step', rest⟩
      · exact .inr ⟨m, next, step, .refl⟩
      · exact .inr ⟨first, then', step', rest.tail admitted step⟩

/-- A program that has raised an error never returns. -/
theorem Engine.Solo.not_returned {admits : Stmt → Shared Store Write World ι → List Write → Prop}
    {i : ι} {e : Err} {ws ws' : List Write} {σ τ : Shared Store Write World ι} {a : α}
    (h : E.Solo admits i (⟨.raise e, ws⟩, σ) (⟨.ret a, ws'⟩, τ)) : False := by
  have raised : ∀ next, E.Solo admits i (⟨(.raise e : Prog Ans Err α), ws⟩, σ) next →
      ∃ e', next.1.prog = .raise e' := by
    intro next run
    induction run with
    | refl => exact ⟨e, rfl⟩
    | @tail mid next m _ _ step ih =>
        obtain ⟨⟨prog, ws⟩, σ⟩ := mid
        obtain ⟨e', same⟩ := ih
        cases same
        cases m with
        | step | fail => cases step
        | crash e'' =>
            cases step
            exact ⟨e'', rfl⟩
        | close =>
            cases step
            exact ⟨e', rfl⟩
  obtain ⟨e', same⟩ := raised _ h
  cases same

/-- A program that returns has had an answer to its first statement, with no locks in its
way. -/
theorem Engine.Completes.of_issue {i : ι} {s : Stmt} {f : Ans s → Prog Ans Err α}
    {σ τ : Shared Store Write World ι} {a : α} (h : E.Completes i (Prog.issue s >>= f) σ a τ) :
    ∃ choice b new world ws,
      E.exec s choice σ.world σ.store (fun _ => false) = some (.ok b, new, world) ∧
        E.Solo (fun _ _ _ => True) i (⟨f b, new⟩, { σ with world := world }) (⟨.ret a, ws⟩, τ) := by
  obtain ⟨ws, run⟩ := h
  rcases run.head with same | ⟨m, ⟨mid, υ⟩, step, rest⟩
  · cases same
  · cases m with
    | step choice =>
        change E.advance i (fun _ => false) σ
          ⟨.stmt s (fun answer => (Prog.ofAnswer answer).bind f), []⟩ (.step choice) = _ at step
        unfold Engine.advance at step
        cases exec : E.exec s choice σ.world σ.store (fun _ => false) with
        | none =>
            simp [exec] at step
        | some r =>
            obtain ⟨answer, new, world⟩ := r
            have moved : (⟨(Prog.ofAnswer answer).bind f, new⟩, { σ with world := world }) =
                (mid, υ) := by simpa [exec] using step
            cases moved
            cases answer with
            | ok b => exact ⟨choice, b, new, world, ws, exec, rest⟩
            | error e => exact rest.not_returned.elim
    | fail e =>
        change (if E.fallible s then some (⟨.raise e, []⟩, σ) else none) = some (mid, υ) at step
        split at step
        · cases step
          exact rest.not_returned.elim
        · cases step
    | crash e =>
        cases step
        exact rest.not_returned.elim
    | close => cases step

/-- Run alone from `σ`, the program of session `i` comes to `τ`, however far it gets. -/
def Engine.Visits (E : Engine Ans Err Store Write World Choice) (i : ι) (p : Prog Ans Err α)
    (σ τ : Shared Store Write World ι) : Prop :=
  ∃ session, E.Solo (fun _ _ _ => True) i (⟨p, []⟩, σ) (session, τ)

theorem Engine.Completes.visits {i : ι} {p : Prog Ans Err α} {σ τ : Shared Store Write World ι}
    {a : α} (h : E.Completes i p σ a τ) : E.Visits i p σ τ := by
  obtain ⟨ws, run⟩ := h
  exact ⟨_, run⟩

/-- The value and the final state of a solo run that returns. -/
def Engine.outcome (E : Engine Ans Err Store Write World Choice) (i : ι)
    (script : List (Move Err Choice)) (p : Prog Ans Err α) (σ : Shared Store Write World ι) :
    Option (α × Shared Store Write World ι) :=
  match E.drive (fun _ _ _ => True) i script (⟨p, []⟩, σ) with
  | some (⟨.ret a, _⟩, τ) => some (a, τ)
  | _ => none

theorem Engine.completes_of_outcome {i : ι} {script : List (Move Err Choice)}
    {p : Prog Ans Err α} {σ τ : Shared Store Write World ι} {a : α}
    (h : E.outcome i script p σ = some (a, τ)) : E.Completes i p σ a τ := by
  unfold outcome at h
  split at h
  · rename_i a' ws τ' run
    cases h
    exact ⟨ws, solo_of_drive run⟩
  · cases h

/-- A verified program keeps the invariant in every state that it visits. -/
theorem wp_visits {i : ι} {p : Prog Ans Err α} (free : ∀ s σ ws, P.admits s σ ws)
    {σ τ : Shared Store Write World ι} (inv : P.inv σ)
    (verified : wp P i p (fun _ _ _ => True) σ []) (h : E.Visits i p σ τ) : P.inv τ := by
  obtain ⟨session, run⟩ := h
  have admitted : E.Solo P.admits i (⟨p, []⟩, σ) (session, τ) :=
    run.mono (fun s σ ws _ => free s σ ws)
  exact (wp_solo P .trivial inv verified admitted).1

theorem wp_completes {i : ι} {p : Prog Ans Err α} {Q : α → Shared Store Write World ι → Prop}
    (free : ∀ s σ ws, P.admits s σ ws)
    (stable : ∀ {a ws σ τ}, Q a σ → P.rely ws σ τ → Q a τ) {σ τ : Shared Store Write World ι}
    {a : α} (inv : P.inv σ) (verified : wp P i p (fun r τ _ => ∀ b, r = .ok b → Q b τ) σ [])
    (h : E.Completes i p σ a τ) : P.inv τ ∧ Q a τ := by
  obtain ⟨ws, run⟩ := h
  have final : P.Final (fun (r : Except Err α) τ (_ : List Write) => ∀ b, r = .ok b → Q b τ) :=
    ⟨fun post rely _ b value => stable (post b value) rely, fun post => post,
      fun _ _ value => by cases value⟩
  have admitted : E.Solo P.admits i (⟨p, []⟩, σ) (⟨.ret a, ws⟩, τ) :=
    run.mono (fun s σ ws _ => free s σ ws)
  obtain ⟨kept, post⟩ := wp_solo P final inv verified admitted
  exact ⟨kept, post a rfl⟩

namespace Cluster

/-- The invariant of an interleaving of verified programs. -/
structure Safe (Q : ι → Post Err Store Write World ι α)
    (st : Cluster Ans Err Store Write World ι α) : Prop where
  inv : P.inv st.shared
  verified : ∀ i, wp P i (st.sessions i).prog (Q i) st.shared (st.sessions i).writes
  disjoint : ∀ i j, i ≠ j → E.Compatible (st.sessions i).writes (st.sessions j).writes

theorem Safe.start {Q : ι → Post Err Store Write World ι α}
    {shared : Shared Store Write World ι} {progs : ι → Prog Ans Err α} (inv : P.inv shared)
    (verified : ∀ i, wp P i (progs i) (Q i) shared []) :
    Safe P Q (Cluster.start shared progs) :=
  ⟨inv, verified, fun _ _ _ => E.compatible_nil_left []⟩

variable {P} [Fintype ι] [DecidableEq ι]

/-- Every admitted step of any session keeps the interleaving safe. -/
theorem Safe.act (coherent : P.Coherent) {Q : ι → Post Err Store Write World ι α} (final : ∀ i, P.Final (Q i))
    {st next : Cluster Ans Err Store Write World ι α} {i : ι} {m : Move Err Choice}
    (safe : st.Safe P Q)
    (admitted : (st.sessions i).Admitted P.admits st.shared) (h : st.act E i m = some next) :
    next.Safe P Q := by
  obtain ⟨session, shared, step, rfl⟩ := act_eq_some_iff.mp h
  obtain ⟨guarantee, verified, compatible⟩ :=
    wp_advance P (final i) safe.inv (safe.verified i) admitted step
  have unlocked : ∀ j, j ≠ i → E.Compatible session.writes (st.sessions j).writes := by
    intro j other
    refine compatible _ (safe.disjoint i j other.symm) ?_
    intro w free v hv
    exact (locked_eq_false_iff E st i w).mp free j other v hv
  refine ⟨guarantee.inv, ?_, ?_⟩
  · intro j
    by_cases own : j = i
    · subst own
      simpa only [Function.update_self] using verified
    · simp only [Function.update_of_ne own]
      have rely := coherent (safe.disjoint i j (Ne.symm own)) guarantee.guar
      exact wp_stable (fun post => (final j).stable post rely guarantee.inv)
        (safe.verified j) rely
  · intro j k distinct
    by_cases hj : j = i
    · subst hj
      simp only [Function.update_self, Function.update_of_ne distinct.symm]
      exact unlocked k distinct.symm
    · by_cases hk : k = i
      · subst hk
        simp only [Function.update_self, Function.update_of_ne distinct]
        exact (unlocked j distinct).symm
      · simp only [Function.update_of_ne hj, Function.update_of_ne hk]
        exact safe.disjoint j k distinct

/-- An interleaving of verified programs is safe in every state that it reaches. -/
theorem Safe.run (coherent : P.Coherent) {Q : ι → Post Err Store Write World ι α} (final : ∀ i, P.Final (Q i))
    {st next : Cluster Ans Err Store Write World ι α} (safe : st.Safe P Q)
    (h : Run E P.admits st next) : next.Safe P Q := by
  induction h with
  | refl => exact safe
  | tail _ admitted step ih => exact ih.act coherent final admitted step

end Cluster

end Txn
