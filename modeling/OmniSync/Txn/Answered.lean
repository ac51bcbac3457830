import OmniSync.Txn.Verification

/-!
# A program whose statements are answered

The run of a program when no statement and no commit fails: `answer n s` is what statement `s`
is answered if it is the `n`-th one. The trail of a run keeps which statements took effect.
`Prog.Issuing` says which statements a program issues, wherever it commits; what those
statements and a commit keep is kept by the program (`wp_issuing`).
-/

namespace Txn

variable {Stmt : Type} {Ans : Stmt → Type} {Err α β γ : Type}

/-- What a session has issued: the number of its statements, those that wait for a commit, and
those that were committed. -/
structure Trail (Stmt : Type) where
  issued : Nat := 0
  pending : List Stmt := []
  committed : List Stmt := []

namespace Trail

def issue (t : Trail Stmt) (s : Stmt) : Trail Stmt :=
  { t with issued := t.issued + 1, pending := t.pending ++ [s] }

@[simp] theorem issued_issue (t : Trail Stmt) (s : Stmt) :
    (t.issue s).issued = t.issued + 1 := rfl

def commit (t : Trail Stmt) : Trail Stmt :=
  { t with pending := [], committed := t.committed ++ t.pending }

def rollback (t : Trail Stmt) : Trail Stmt := { t with pending := [] }

/-- Every statement of the trail is allowed. -/
structure Within (allowed : Stmt → Prop) (t : Trail Stmt) : Prop where
  pending : ∀ s ∈ t.pending, allowed s
  committed : ∀ s ∈ t.committed, allowed s

theorem within_empty {allowed : Stmt → Prop} : Within allowed ({} : Trail Stmt) where
  pending _ hs := (List.not_mem_nil hs).elim
  committed _ hs := (List.not_mem_nil hs).elim

namespace Within

variable {allowed : Stmt → Prop} {t : Trail Stmt}

theorem issue (h : t.Within allowed) {s : Stmt} (hs : allowed s) : (t.issue s).Within allowed where
  pending s' hs' := by
    rcases List.mem_append.mp hs' with old | new
    · exact h.pending s' old
    · rw [List.mem_singleton.mp new]
      exact hs
  committed := h.committed

theorem commit (h : t.Within allowed) : t.commit.Within allowed where
  pending _ hs := (List.not_mem_nil hs).elim
  committed s hs := (List.mem_append.mp hs).elim (h.committed s) (h.pending s)

theorem rollback (h : t.Within allowed) : t.rollback.Within allowed where
  pending _ hs := (List.not_mem_nil hs).elim
  committed := h.committed

end Within

section Count

variable (counted : Stmt → Bool) (t : Trail Stmt)

/-- How many of the statements are counted that were committed, or may be. -/
def count : Nat := (t.committed ++ t.pending).countP counted

theorem count_issue (s : Stmt) :
    (t.issue s).count counted = t.count counted + if counted s = true then 1 else 0 := by
  simp only [count, issue, ← List.append_assoc, List.countP_append, List.countP_singleton]

theorem countP_commit : t.commit.committed.countP counted = t.count counted := rfl

variable {counted t} in
/-- What is not allowed is not counted. -/
theorem Within.count_eq_zero (h : t.Within (fun s => counted s = false)) : t.count counted = 0 :=
  List.countP_eq_zero.mpr (fun s hs found => by
    rw [h.commit.committed s hs] at found
    cases found)

end Count

end Trail

namespace Prog

variable {answer : Nat → (s : Stmt) → Ans s} {p : Prog Ans Err α} {t : Trail Stmt}

/-- How a program ends that is answered, and what it leaves. -/
def answered (answer : Nat → (s : Stmt) → Ans s) :
    Prog Ans Err α → Trail Stmt → Except Err α × Trail Stmt
  | ret a, t => (.ok a, t)
  | raise e, t => (.error e, t)
  | stmt s next, t => (next (.ok (answer t.issued s))).answered answer (t.issue s)
  | commit next, t => (next (.ok ())).answered answer t.commit
  | rollback next, t => next.answered answer t.rollback

theorem answered_issue {s : Stmt} : (issue s : Prog Ans Err (Ans s)).answered answer t =
    (.ok (answer t.issued s), t.issue s) := rfl

theorem answered_bind {f : α → Prog Ans Err β} :
    (p >>= f).answered answer t =
      match p.answered answer t with
      | (.ok a, t') => (f a).answered answer t'
      | (.error e, t') => (.error e, t') := by
  rw [bind_eq]
  induction p generalizing t with
  | ret | raise => rfl
  | stmt s next ih => exact ih _
  | commit next ih => exact ih _
  | rollback next ih => exact ih

theorem answered_tryCatch {handler : Err → Prog Ans Err α} :
    (p.tryCatch handler).answered answer t =
      match p.answered answer t with
      | (.ok a, t') => (.ok a, t')
      | (.error e, t') => (handler e).answered answer t' := by
  induction p generalizing t with
  | ret | raise => rfl
  | stmt s next ih => exact ih _
  | commit next ih => exact ih _
  | rollback next ih => exact ih

/-- Every statement of the program is allowed, before and after its commits. -/
def Issuing (allowed : Stmt → Prop) : Prog Ans Err α → Prop
  | ret _ => True
  | raise _ => True
  | stmt s next => allowed s ∧ ∀ answer, (next answer).Issuing allowed
  | commit next => ∀ answer, (next answer).Issuing allowed
  | rollback next => next.Issuing allowed

namespace Issuing

variable {allowed : Stmt → Prop}

theorem of_within (h : p.Within allowed) : p.Issuing allowed := by
  induction p with
  | ret | raise => trivial
  | stmt s next ih => exact ⟨h.1, fun answer => ih answer (h.2 answer)⟩
  | commit | rollback => exact h.elim

theorem commitWork : (Prog.commitWork : Prog Ans Err Unit).Issuing allowed := by
  intro answer
  cases answer <;> trivial

theorem rollbackWork : (Prog.rollbackWork : Prog Ans Err Unit).Issuing allowed := trivial

theorem bind (h : p.Issuing allowed) {f : α → Prog Ans Err β}
    (then' : ∀ a, (f a).Issuing allowed) : (p >>= f).Issuing allowed := by
  induction p with
  | ret a => exact then' a
  | raise => trivial
  | stmt s next ih => exact ⟨h.1, fun answer => ih answer (h.2 answer)⟩
  | commit next ih => exact fun answer => ih answer (h answer)
  | rollback next ih => exact ih h

theorem tryCatch (h : p.Issuing allowed) {handler : Err → Prog Ans Err α}
    (caught : ∀ e, (handler e).Issuing allowed) : (p.tryCatch handler).Issuing allowed := by
  induction p with
  | ret => trivial
  | raise e => exact caught e
  | stmt s next ih => exact ⟨h.1, fun answer => ih answer (h.2 answer)⟩
  | commit next ih => exact fun answer => ih answer (h answer)
  | rollback next ih => exact ih h

theorem mono {allowed' : Stmt → Prop} (h : p.Issuing allowed)
    (imp : ∀ s, allowed s → allowed' s) : p.Issuing allowed' := by
  induction p with
  | ret | raise => trivial
  | stmt s next ih => exact ⟨imp s h.1, fun answer => ih answer (h.2 answer)⟩
  | commit next ih => exact fun answer => ih answer (h answer)
  | rollback next ih => exact ih h

/-- An answered run leaves allowed statements only. -/
theorem answered (h : p.Issuing allowed) (before : t.Within allowed) :
    (p.answered answer t).2.Within allowed := by
  induction p generalizing t with
  | ret | raise => exact before
  | stmt s next ih => exact ih _ (h.2 _) (before.issue h.1)
  | commit next ih => exact ih _ (h _) before.commit
  | rollback next ih => exact ih h before.rollback

end Issuing

end Prog

section Rules

variable {Store Write World Choice ι : Type} {E : Engine Ans Err Store Write World Choice}
variable {P : Protocol E ι} {i : ι} {Q : Post Err Store Write World ι α}
variable {σ : Shared Store Write World ι} {ws : List Write} {allowed : Stmt → Prop}

/-- A program that issues only `allowed` statements: an assertion that each of them keeps, that
a commit keeps and that survives the loss of what is pending, is kept by the program. -/
theorem wp_issuing {p : Prog Ans Err α} (issuing : p.Issuing allowed)
    {R : Shared Store Write World ι → List Write → Prop}
    (stable : ∀ {σ τ ws}, R σ ws → P.rely ws σ τ → P.inv τ → R τ ws)
    (step : ∀ {s}, allowed s → ∀ {σ ws choice locked answer new world}, R σ ws → P.inv σ →
      E.exec s choice σ.world (E.view σ.store ws) locked = some (answer, new, world) →
        P.Guarantees i ws σ { σ with world := world } ∧ R { σ with world := world } (ws ++ new))
    (commits : ∀ {σ ws}, R σ ws → P.inv σ →
      P.Guarantees i ws σ (E.publish σ i ws) ∧ R (E.publish σ i ws) [])
    (empty : ∀ {σ ws}, R σ ws → R σ []) (start : R σ ws)
    (exit : ∀ r σ ws, R σ ws → Q r σ ws) : wp P i p Q σ ws := by
  induction p generalizing σ ws with
  | ret => exact exit _ _ _ start
  | raise => exact exit _ _ _ start
  | stmt s next ih =>
      intro τ rely inv _
      have here := stable start rely inv
      refine ⟨fun _ e => ih _ (issuing.2 _) here, ?_⟩
      intro choice locked answer new world run _
      obtain ⟨guarantee, kept⟩ := step issuing.1 here inv run
      exact ⟨guarantee, ih _ (issuing.2 _) kept⟩
  | commit next ih =>
      intro τ rely inv
      have here := stable start rely inv
      obtain ⟨guarantee, kept⟩ := commits here inv
      exact ⟨fun e => ih _ (issuing _) (empty here), guarantee, ih _ (issuing _) kept⟩
  | rollback next ih =>
      intro τ rely inv
      exact ih issuing (empty (stable start rely inv))

end Rules

section Pending

variable {Store Write World Choice ι : Type} {E : Engine Ans Err Store Write World Choice}

/-- The statement may write `w`. -/
def Engine.Writes (E : Engine Ans Err Store Write World Choice) (s : Stmt) (w : Write) : Prop :=
  ∃ choice world view locked answer new world',
    E.exec s choice world view locked = some (answer, new, world') ∧ w ∈ new

/-- What a session has pending was written by allowed statements. -/
structure Session.Issued (E : Engine Ans Err Store Write World Choice) (allowed : Stmt → Prop)
    (session : Session Ans Err Write α) : Prop where
  issuing : session.prog.Issuing allowed
  writes : ∀ w ∈ session.writes, ∃ s, allowed s ∧ E.Writes s w

theorem Session.Issued.advance {allowed : Stmt → Prop} {i : ι} {locked : Write → Bool}
    {σ τ : Shared Store Write World ι} {session next : Session Ans Err Write α}
    {m : Move Err Choice} (h : session.Issued E allowed)
    (step : E.advance i locked σ session m = some (next, τ)) : next.Issued E allowed := by
  obtain ⟨prog, ws⟩ := session
  obtain ⟨issuing, writes⟩ := h
  have nothing : ∀ w ∈ ([] : List Write), ∃ s, allowed s ∧ E.Writes s w :=
    fun _ hw => (List.not_mem_nil hw).elim
  cases m with
  | crash e =>
      have moved : (⟨.raise e, []⟩, σ) = (next, τ) := by cases prog <;> exact Option.some.inj step
      cases moved
      exact ⟨trivial, nothing⟩
  | close => cases prog <;> cases step <;> exact ⟨trivial, nothing⟩
  | fail e =>
      cases prog with
      | stmt s k =>
          simp only [Engine.advance] at step
          split at step
          · cases step
            exact ⟨issuing.2 _, writes⟩
          · cases step
      | commit k =>
          cases step
          exact ⟨issuing _, nothing⟩
      | _ => cases step
  | step choice =>
      cases prog with
      | ret a => cases step
      | raise e => cases step
      | stmt s k =>
          simp only [Engine.advance] at step
          split at step
          · cases step
          · rename_i answer new world run
            split at step
            · cases step
            · cases step
              refine ⟨issuing.2 _, fun w hw => ?_⟩
              rcases List.mem_append.mp hw with old | added
              · exact writes w old
              · exact ⟨s, issuing.1, choice, _, _, _, answer, new, world, run, added⟩
      | commit k =>
          cases step
          exact ⟨issuing _, nothing⟩
      | rollback k =>
          cases step
          exact ⟨issuing, nothing⟩

/-- In an interleaving, what is pending was written by the statements of its program. -/
theorem Cluster.issued [Fintype ι] [DecidableEq ι] {allowed : ι → Stmt → Prop}
    {shared : Shared Store Write World ι} {progs : ι → Prog Ans Err α}
    {st : Cluster Ans Err Store Write World ι α}
    {admits : Stmt → Shared Store Write World ι → List Write → Prop}
    (issuing : ∀ i, (progs i).Issuing (allowed i))
    (run : Cluster.Run E admits (Cluster.start shared progs) st) (i : ι) :
    (st.sessions i).Issued E (allowed i) := by
  induction run with
  | refl => exact ⟨issuing i, fun _ hw => (List.not_mem_nil hw).elim⟩
  | @tail mid _ j m _ _ step ih =>
      obtain ⟨session, shared, advanced, rfl⟩ := Cluster.act_eq_some_iff.mp step
      by_cases own : i = j
      · subst own
        simp only [Function.update_self]
        exact ih.advance advanced
      · simp only [Function.update_of_ne own]
        exact ih

end Pending

end Txn
