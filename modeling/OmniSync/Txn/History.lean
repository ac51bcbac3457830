import OmniSync.Data.Trace
import OmniSync.Txn.Cluster

/-!
# Histories of interleavings

An interleaving as a labelled run: each step is a move of one session. `Cluster.history`
computes the steps of a schedule. The pending writes of two sessions never conflict,
`Cluster.Disjoint`.
-/

namespace Txn

variable {Stmt : Type} {Ans : Stmt → Type} {Err Store Write World Choice ι α : Type}
variable {E : Engine Ans Err Store Write World Choice}

/-- A session only adds writes that nobody has locked, or it drops all of them. -/
theorem Engine.advance_writes {i : ι} {locked : Write → Bool}
    {σ τ : Shared Store Write World ι} {session next : Session Ans Err Write α}
    {m : Move Err Choice} (h : E.advance i locked σ session m = some (next, τ)) :
    next.writes = [] ∨
      ∃ new, next.writes = session.writes ++ new ∧ ∀ w ∈ new, locked w = false := by
  obtain ⟨prog, ws⟩ := session
  have same : ∃ new, ws = ws ++ new ∧ ∀ w ∈ new, locked w = false :=
    ⟨[], (List.append_nil ws).symm, fun w hw => (List.not_mem_nil hw).elim⟩
  cases m with
  | crash e =>
      have moved : (⟨.raise e, []⟩, σ) = (next, τ) := by cases prog <;> exact Option.some.inj h
      cases moved
      exact .inl rfl
  | close => cases prog <;> cases h <;> exact .inl rfl
  | fail e =>
      cases prog with
      | stmt s k =>
          simp only [advance] at h
          split at h
          · cases h
            exact .inr same
          · cases h
      | commit k =>
          cases h
          exact .inl rfl
      | _ => cases h
  | step choice =>
      cases prog with
      | ret a => cases h
      | raise e => cases h
      | stmt s k =>
          simp only [advance] at h
          split at h
          · cases h
          · split at h
            · cases h
            · next new _ _ free =>
                cases h
                refine .inr ⟨new, rfl, fun w hw => ?_⟩
                exact (Bool.not_eq_true _).mp fun held =>
                  free (List.any_eq_true.mpr ⟨w, hw, held⟩)
      | commit k =>
          cases h
          exact .inl rfl
      | rollback k =>
          cases h
          exact .inl rfl

/-- What a session commits by a move. -/
def Session.commits (session : Session Ans Err Write α) (m : Move Err Choice) : List Write :=
  match session.prog, m with
  | .commit _, .step _ => session.writes
  | _, _ => []

/-- A session changes the store by what it commits. -/
theorem Engine.advance_store {i : ι} {locked : Write → Bool}
    {σ τ : Shared Store Write World ι} {session next : Session Ans Err Write α}
    {m : Move Err Choice} (h : E.advance i locked σ session m = some (next, τ)) :
    τ.store = E.view σ.store (session.commits m) := by
  obtain ⟨prog, ws⟩ := session
  cases m with
  | crash e =>
      have moved : (⟨.raise e, []⟩, σ) = (next, τ) := by cases prog <;> exact Option.some.inj h
      cases moved
      cases prog <;> rfl
  | close => cases prog <;> cases h <;> rfl
  | fail e =>
      cases prog with
      | stmt s k =>
          simp only [advance] at h
          split at h
          · cases h
            rfl
          · cases h
      | commit k =>
          cases h
          rfl
      | _ => cases h
  | step choice =>
      cases prog with
      | stmt s k =>
          simp only [advance] at h
          split at h
          · cases h
          · split at h
            · cases h
            · cases h
              rfl
      | ret a => cases h
      | raise e => cases h
      | _ =>
          cases h
          rfl

namespace Cluster

/-- The pending writes of different sessions do not conflict. -/
def Disjoint (E : Engine Ans Err Store Write World Choice)
    (st : Cluster Ans Err Store Write World ι α) : Prop :=
  ∀ i j, i ≠ j → E.Compatible (st.sessions i).writes (st.sessions j).writes

theorem disjoint_start {shared : Shared Store Write World ι} {progs : ι → Prog Ans Err α} :
    (start shared progs).Disjoint E := fun _ _ _ => E.compatible_nil_left []

variable [Fintype ι] [DecidableEq ι]
variable {st next last : Cluster Ans Err Store Write World ι α} {i : ι} {m : Move Err Choice}

theorem Disjoint.act (h : st.Disjoint E) (taken : st.act E i m = some next) : next.Disjoint E := by
  obtain ⟨session, shared, step, rfl⟩ := act_eq_some_iff.mp taken
  have unlocked : ∀ j, j ≠ i → E.Compatible session.writes (st.sessions j).writes := by
    intro j other
    rcases Engine.advance_writes step with empty | ⟨new, writes, free⟩
    · rw [empty]
      exact E.compatible_nil_left _
    · rw [writes, E.compatible_append_left]
      refine ⟨h i j other.symm, fun w hw v hv => ?_⟩
      exact (locked_eq_false_iff E st i w).mp (free w hw) j other v hv
  intro j k distinct
  by_cases hj : j = i
  · subst hj
    simp only [Function.update_self, Function.update_of_ne distinct.symm]
    exact unlocked k distinct.symm
  · by_cases hk : k = i
    · subst hk
      simp only [Function.update_self, Function.update_of_ne distinct]
      exact (unlocked j distinct).symm
    · simp only [Function.update_of_ne hj, Function.update_of_ne hk]
      exact h j k distinct

/-- One move of one session. -/
def Acts (E : Engine Ans Err Store Write World Choice)
    (st : Cluster Ans Err Store Write World ι α) (label : ι × Move Err Choice)
    (next : Cluster Ans Err Store Write World ι α) : Prop :=
  st.act E label.1 label.2 = some next

/-- The steps of a schedule, and the state that it ends in. -/
def history (E : Engine Ans Err Store Write World Choice)
    (st : Cluster Ans Err Store Write World ι α) : List (ι × Move Err Choice) →
      Option (List (Taken (Cluster Ans Err Store Write World ι α) (ι × Move Err Choice)) ×
        Cluster Ans Err Store Write World ι α)
  | [] => some ([], st)
  | label :: schedule =>
      (st.act E label.1 label.2).bind (fun next =>
        (next.history E schedule).map (fun rest => (⟨st, label, next⟩ :: rest.1, rest.2)))

theorem trace_of_history {schedule : List (ι × Move Err Choice)}
    {steps : List (Taken (Cluster Ans Err Store Write World ι α) (ι × Move Err Choice))}
    (h : st.history E schedule = some (steps, last)) : Trace (Acts E) st steps last := by
  induction schedule generalizing st steps with
  | nil =>
      cases h
      exact .nil
  | cons label schedule ih =>
      obtain ⟨next, taken, rest⟩ := Option.bind_eq_some_iff.mp h
      obtain ⟨⟨steps', last'⟩, later, same⟩ := Option.map_eq_some_iff.mp rest
      cases same
      exact .cons taken (ih later)

/-- What a step commits. -/
def committed (x : Taken (Cluster Ans Err Store Write World ι α) (ι × Move Err Choice)) :
    List Write :=
  (x.before.sessions x.label.1).commits x.label.2

theorem store_of_acts {label : ι × Move Err Choice} (taken : Acts E st label next) :
    next.shared.store = E.view st.shared.store (committed ⟨st, label, next⟩) := by
  obtain ⟨session, shared, step, rfl⟩ := act_eq_some_iff.mp taken
  exact Engine.advance_store step

end Cluster

end Txn
