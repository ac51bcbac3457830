import OmniSync.Txn.Answered
import OmniSync.Txn.History

/-!
# What a program issues after what it was answered

`Prog.Noting` follows a program with notes of the answers that its statements have got. Every
statement that it issues is allowed by the notes so far, whatever the answers are. So nothing is
assumed of the other sessions, and `Cluster.noting_of_trace` draws the conclusion for any
interleaving: what holds of the notes of a session holds when it issues its next statement.
-/

namespace Txn

variable {Stmt : Type} {Ans : Stmt → Type} {Err Store Write World Choice ι K α β : Type}

namespace Prog

variable (note : K → (s : Stmt) → Except Err (Ans s) → K) (allowed : K → Stmt → Prop)

/-- Every statement is allowed by the notes so far, and `Q` holds of the notes at the end. -/
def Noting (Q : K → Except Err α → Prop) : K → Prog Ans Err α → Prop
  | k, ret a => Q k (.ok a)
  | k, raise e => Q k (.error e)
  | k, stmt s next => allowed k s ∧ ∀ answer, Noting Q (note k s answer) (next answer)
  | k, commit next => ∀ answer, Noting Q k (next answer)
  | k, rollback next => Noting Q k next

variable {note allowed}

namespace Noting

variable {Q : K → Except Err α → Prop} {R : K → Except Err β → Prop} {k : K}
variable {p : Prog Ans Err α}

theorem bind {f : α → Prog Ans Err β}
    (h : p.Noting note allowed (fun k r => match r with
      | .ok a => (f a).Noting note allowed R k
      | .error e => R k (.error e)) k) : (p >>= f).Noting note allowed R k := by
  rw [bind_eq]
  induction p generalizing k with
  | ret | raise => exact h
  | stmt s next ih => exact ⟨h.1, fun answer => ih answer (h.2 answer)⟩
  | commit next ih => exact fun answer => ih answer (h answer)
  | rollback next ih => exact ih h

theorem mono {Q' : K → Except Err α → Prop} (h : p.Noting note allowed Q k)
    (imp : ∀ k r, Q k r → Q' k r) : p.Noting note allowed Q' k := by
  induction p generalizing k with
  | ret | raise => exact imp _ _ h
  | stmt s next ih => exact ⟨h.1, fun answer => ih answer (h.2 answer)⟩
  | commit next ih => exact fun answer => ih answer (h answer)
  | rollback next ih => exact ih h

/-- A program of which nothing is noted. -/
theorem of_issuing {plain : Stmt → Prop}
    (free : ∀ s, plain s → allowed k s ∧ ∀ answer, note k s answer = k) (h : p.Issuing plain)
    (exit : ∀ r, Q k r) : p.Noting note allowed Q k := by
  induction p with
  | ret | raise => exact exit _
  | stmt s next ih =>
      refine ⟨(free s h.1).1, fun answer => ?_⟩
      rw [(free s h.1).2 answer]
      exact ih answer (h.2 answer)
  | commit next ih => exact fun answer => ih answer (h answer)
  | rollback next ih => exact ih h

theorem bind_of_issuing {plain : Stmt → Prop} {f : α → Prog Ans Err β}
    (free : ∀ s, plain s → allowed k s ∧ ∀ answer, note k s answer = k) (h : p.Issuing plain)
    (then' : ∀ a, (f a).Noting note allowed R k) (fails : ∀ e, R k (.error e)) :
    (p >>= f).Noting note allowed R k := by
  refine bind (of_issuing free h (fun r => ?_))
  cases r with
  | error e => exact fails e
  | ok a => exact then' a

/-- A program that issues only what is always allowed. -/
theorem of_always {plain : Stmt → Prop} (free : ∀ k s, plain s → allowed k s)
    (h : p.Issuing plain) (exit : ∀ k r, Q k r) : p.Noting note allowed Q k := by
  induction p generalizing k with
  | ret | raise => exact exit _ _
  | stmt s next ih => exact ⟨free k s h.1, fun answer => ih answer (h.2 answer)⟩
  | commit next ih => exact fun answer => ih answer (h answer)
  | rollback next ih => exact ih h

/-- A loop: `I` holds of the notes, what is accumulated, and what is still to visit. -/
theorem foldlM {γ : Type} {step : β → γ → Prog Ans Err β} (I : K → β → List γ → Prop)
    (each : ∀ k b x xs, I k b (x :: xs) → (step b x).Noting note allowed (fun k r =>
      match r with
      | .ok b' => I k b' xs
      | .error e => R k (.error e)) k)
    (exit : ∀ k b, I k b [] → R k (.ok b)) {b : β} {xs : List γ} (start : I k b xs) :
    (xs.foldlM step b).Noting note allowed R k := by
  induction xs generalizing k b with
  | nil => exact exit k b start
  | cons x xs ih =>
      rw [List.foldlM_cons]
      refine bind ((each k b x xs start).mono (fun k r post => ?_))
      cases r with
      | error e => exact post
      | ok b' => exact ih post

end Noting

end Prog

section Runs

variable {E : Engine Ans Err Store Write World Choice} [Fintype ι] [DecidableEq ι]
variable {note : ι → K → (s : Stmt) → Except Err (Ans s) → K} {allowed : ι → K → Stmt → Prop}
variable {Q : ι → K → Except Err α → Prop}

/-- Steps of an interleaving. -/
abbrev Cluster.Step (Ans : Stmt → Type) (Err Store Write World Choice ι α : Type) :=
  Taken (Cluster Ans Err Store Write World ι α) (ι × Move Err Choice)

/-- A statement of session `i` is answered by the step. -/
def Cluster.Hears (E : Engine Ans Err Store Write World Choice)
    (x : Cluster.Step Ans Err Store Write World Choice ι α) (i : ι) (s : Stmt)
    (answer : Except Err (Ans s)) : Prop :=
  x.label.1 = i ∧ (∃ next, (x.before.sessions i).prog = .stmt s next) ∧
    ((∃ e, x.label.2 = .fail e ∧ answer = .error e) ∨
      ∃ choice new world, x.label.2 = .step choice ∧
        E.exec s choice x.before.shared.world
          (E.view x.before.shared.store (x.before.sessions i).writes)
            (x.before.locked E i) = some (answer, new, world))

/-- One move of a session that takes notes. -/
theorem Cluster.Noting.act {c c' : Cluster Ans Err Store Write World ι α} {i : ι}
    {m : Move Err Choice} {k : K} {note : K → (s : Stmt) → Except Err (Ans s) → K}
    {allowed : K → Stmt → Prop} {Q : K → Except Err α → Prop} (exit : ∀ k e, Q k (.error e))
    (h : (c.sessions i).prog.Noting note allowed Q k) (taken : c.act E i m = some c') :
    (c'.sessions i).prog.Noting note allowed Q k ∨
      ∃ s answer, Cluster.Hears E ⟨c, (i, m), c'⟩ i s answer ∧
        (c'.sessions i).prog.Noting note allowed Q (note k s answer) := by
  obtain ⟨session, shared, step, rfl⟩ := act_eq_some_iff.mp taken
  simp only [Function.update_self]
  unfold Hears
  generalize c.sessions i = before at h step
  obtain ⟨prog, ws⟩ := before
  cases m with
  | crash e =>
      have moved : (⟨.raise e, []⟩, c.shared) = (session, shared) := by
        cases prog <;> exact Option.some.inj step
      cases moved
      exact .inl (exit k e)
  | close => cases prog <;> cases step <;> exact .inl h
  | fail e =>
      cases prog with
      | stmt s next =>
          simp only [Engine.advance] at step
          split at step
          · cases step
            exact .inr ⟨s, .error e, ⟨rfl, ⟨next, rfl⟩, .inl ⟨e, rfl, rfl⟩⟩, h.2 _⟩
          · cases step
      | commit next =>
          cases step
          exact .inl (h _)
      | _ => cases step
  | step choice =>
      cases prog with
      | ret a => cases step
      | raise e => cases step
      | stmt s next =>
          simp only [Engine.advance] at step
          split at step
          · cases step
          · rename_i answer new world run
            split at step
            · cases step
            · cases step
              exact .inr ⟨s, answer,
                ⟨rfl, ⟨next, rfl⟩, .inr ⟨choice, new, world, rfl, run⟩⟩, h.2 _⟩
      | commit next =>
          cases step
          exact .inl (h _)
      | rollback next =>
          cases step
          exact .inl h

/-- In every interleaving a session has notes that allow what it issues next. `J` is what the
steps of the run say about them. -/
theorem Cluster.noting_of_trace {shared : Shared Store Write World ι}
    {progs : ι → Prog Ans Err α} {k₀ : ι → K} (exit : ∀ i k e, Q i k (.error e))
    (noting : ∀ i, (progs i).Noting (note i) (allowed i) (Q i) (k₀ i))
    {J : List (Cluster.Step Ans Err Store Write World Choice ι α) → ι → K → Prop}
    (initial : ∀ i, J [] i (k₀ i)) (kept : ∀ {steps x i k}, J steps i k → J (steps ++ [x]) i k)
    (heard : ∀ {steps x i k s answer}, J steps i k → Cluster.Hears E x i s answer →
      J (steps ++ [x]) i (note i k s answer))
    {steps : List (Cluster.Step Ans Err Store Write World Choice ι α)}
    {c : Cluster Ans Err Store Write World ι α}
    (run : Trace (Cluster.Acts E) (Cluster.start shared progs) steps c) :
    ∀ i, ∃ k, J steps i k ∧ (c.sessions i).prog.Noting (note i) (allowed i) (Q i) k := by
  induction run with
  | nil => exact fun i => ⟨k₀ i, initial i, noting i⟩
  | @concat steps c c' label run taken ih =>
      intro i
      obtain ⟨k, holds, here⟩ := ih i
      by_cases own : label.1 = i
      · subst own
        rcases Cluster.Noting.act (exit _) here taken with same | ⟨s, answer, hears, next⟩
        · exact ⟨k, kept holds, same⟩
        · exact ⟨_, heard holds hears, next⟩
      · refine ⟨k, kept holds, ?_⟩
        obtain ⟨session, shared, _, rfl⟩ := act_eq_some_iff.mp taken
        simp only [Function.update_of_ne (Ne.symm own)]
        exact here

end Runs

end Txn
