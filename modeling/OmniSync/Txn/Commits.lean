import OmniSync.Txn.History
import OmniSync.Txn.Interference

/-!
# Programs that commit once

`Prog.CommitsOnce Q` is a static property of a program: on no path does it commit twice, and `Q`
says with which results it ends, depending on whether it has committed. In an interleaving of
such programs a session is in the log as often as its program has committed, so its result tells
whether its writes are in the store (`Cluster.commits_once`).

`Cluster.RunOf` are the runs in which only some of the sessions move.
-/

namespace Txn

variable {Stmt : Type} {Ans : Stmt → Type} {Err Store Write World Choice ι α β : Type}

namespace Prog

/-- The program does not commit twice. It ends as `Q c` says, where `c` tells whether it has
committed. -/
def CommitsOnce (Q : Bool → Except Err α → Prop) : Bool → Prog Ans Err α → Prop
  | c, ret a => Q c (.ok a)
  | c, raise e => Q c (.error e)
  | c, stmt _ next => ∀ answer, (next answer).CommitsOnce Q c
  | c, commit next =>
      c = false ∧ (next (.ok ())).CommitsOnce Q true ∧ ∀ e, (next (.error e)).CommitsOnce Q false
  | c, rollback next => next.CommitsOnce Q c

namespace CommitsOnce

variable {Q Q' : Bool → Except Err α → Prop} {c : Bool} {p : Prog Ans Err α}

theorem of_within {allowed : Stmt → Prop} (h : p.Within allowed) (ends : ∀ r, Q c r) :
    p.CommitsOnce Q c := by
  induction p with
  | ret | raise => exact ends _
  | stmt s next ih => exact fun answer => ih answer (h.2 answer)
  | commit | rollback => exact h.elim

theorem mono (h : p.CommitsOnce Q c) (imp : ∀ c r, Q c r → Q' c r) : p.CommitsOnce Q' c := by
  induction p generalizing c with
  | ret | raise => exact imp _ _ h
  | stmt s next ih => exact fun answer => ih answer (h answer)
  | commit next ih => exact ⟨h.1, ih _ h.2.1, fun e => ih _ (h.2.2 e)⟩
  | rollback next ih => exact ih h

theorem bind {f : β → Prog Ans Err α} {R : Bool → Except Err β → Prop} {p : Prog Ans Err β}
    (h : p.CommitsOnce R c) (value : ∀ c b, R c (.ok b) → (f b).CommitsOnce Q c)
    (error : ∀ c e, R c (.error e) → Q c (.error e)) : (p >>= f).CommitsOnce Q c := by
  induction p generalizing c with
  | ret b => exact value c b h
  | raise e => exact error c e h
  | stmt s next ih => exact fun answer => ih answer (h answer)
  | commit next ih => exact ⟨h.1, ih _ h.2.1, fun e => ih _ (h.2.2 e)⟩
  | rollback next ih => exact ih h

/-- What does not commit before it hands on. -/
theorem within_bind {allowed : Stmt → Prop} {p : Prog Ans Err β} {f : β → Prog Ans Err α}
    (h : p.Within allowed) (value : ∀ b, (f b).CommitsOnce Q c) (error : ∀ e, Q c (.error e)) :
    (p >>= f).CommitsOnce Q c := by
  refine .bind (R := fun c' _ => c' = c) (.of_within h (fun _ => rfl)) ?_ ?_
  · rintro _ b rfl
    exact value b
  · rintro _ e rfl
    exact error e

theorem tryCatch {handler : Err → Prog Ans Err α} {R : Bool → Except Err α → Prop}
    (h : p.CommitsOnce R c) (value : ∀ c a, R c (.ok a) → Q c (.ok a))
    (caught : ∀ c e, R c (.error e) → (handler e).CommitsOnce Q c) :
    (p.tryCatch handler).CommitsOnce Q c := by
  induction p generalizing c with
  | ret a => exact value c a h
  | raise e => exact caught c e h
  | stmt s next ih => exact fun answer => ih answer (h answer)
  | commit next ih => exact ⟨h.1, ih _ h.2.1, fun e => ih _ (h.2.2 e)⟩
  | rollback next ih => exact ih h

theorem issue {s : Stmt} {Q : Bool → Except Err (Ans s) → Prop} (ends : ∀ r, Q c r) :
    (Prog.issue s : Prog Ans Err (Ans s)).CommitsOnce Q c := by
  intro answer
  cases answer <;> exact ends _

theorem ofAnswer {r : Except Err α} (ends : Q c r) :
    (Prog.ofAnswer r : Prog Ans Err α).CommitsOnce Q c := by
  cases r <;> exact ends

theorem commitWork {Q : Bool → Except Err Unit → Prop} (done : Q true (.ok ()))
    (failed : ∀ e, Q false (.error e)) :
    (Prog.commitWork : Prog Ans Err Unit).CommitsOnce Q false :=
  ⟨rfl, done, failed⟩

end CommitsOnce

end Prog

variable {E : Engine Ans Err Store Write World Choice}

/-- One move of a program that commits once: it commits, or the log stays. -/
theorem Engine.advance_commitsOnce {i : ι} {locked : Write → Bool}
    {σ τ : Shared Store Write World ι} {session next : Session Ans Err Write α}
    {m : Move Err Choice} {Q : Bool → Except Err α → Prop} {c : Bool}
    (once : session.prog.CommitsOnce Q c) (crashed : ∀ c e, Q c (.error e))
    (h : E.advance i locked σ session m = some (next, τ)) :
    (τ.log = σ.log ∧ next.prog.CommitsOnce Q c) ∨
      (c = false ∧ τ.log = σ.log ++ [(i, session.writes)] ∧ next.prog.CommitsOnce Q true) := by
  obtain ⟨prog, ws⟩ := session
  cases m with
  | crash e =>
      have moved : (⟨.raise e, []⟩, σ) = (next, τ) := by cases prog <;> exact Option.some.inj h
      cases moved
      exact .inl ⟨rfl, crashed c e⟩
  | close => cases prog <;> cases h <;> exact .inl ⟨rfl, once⟩
  | fail e =>
      cases prog with
      | stmt s k =>
          simp only [advance] at h
          split at h
          · cases h
            exact .inl ⟨rfl, once (.error e)⟩
          · cases h
      | commit k =>
          cases h
          obtain ⟨rfl, _, failed⟩ := once
          exact .inl ⟨rfl, failed e⟩
      | _ => cases h
  | step choice =>
      cases prog with
      | ret a => cases h
      | raise e => cases h
      | stmt s k =>
          simp only [advance] at h
          split at h
          · cases h
          · split at h
            · cases h
            · cases h
              exact .inl ⟨rfl, once _⟩
      | commit k =>
          cases h
          obtain ⟨rfl, done, _⟩ := once
          exact .inr ⟨rfl, rfl, done⟩
      | rollback k =>
          cases h
          exact .inl ⟨rfl, once⟩

namespace Cluster

variable [Fintype ι] [DecidableEq ι] {st mid next : Cluster Ans Err Store Write World ι α}

/-- How often the session is in the log. -/
def commitCount (st : Cluster Ans Err Store Write World ι α) (i : ι) : Nat :=
  (st.shared.log.map Prod.fst).count i

/-- The session is in the log as often as its program has committed. -/
def Counts (Q : Bool → Except Err α → Prop) (st : Cluster Ans Err Store Write World ι α)
    (i : ι) : Prop :=
  ∃ c, (st.sessions i).prog.CommitsOnce Q c ∧ st.commitCount i = c.toNat

theorem Counts.act {Q : Bool → Except Err α → Prop} {i j : ι} {m : Move Err Choice}
    (crashed : ∀ c e, Q c (.error e)) (h : st.Counts Q i) (step : st.act E j m = some next) :
    next.Counts Q i := by
  obtain ⟨c, once, count⟩ := h
  obtain ⟨session, shared, advanced, rfl⟩ := act_eq_some_iff.mp step
  by_cases own : i = j
  · subst own
    simp only [Counts, commitCount, Function.update_self]
    rcases Engine.advance_commitsOnce once crashed advanced with ⟨log, rest⟩ | ⟨rfl, log, rest⟩
    · exact ⟨c, rest, by rw [log]; exact count⟩
    · refine ⟨true, rest, ?_⟩
      unfold commitCount at count
      rw [log, List.map_append, List.count_append, count]
      simp
  · refine ⟨c, ?_, ?_⟩
    · simp only [Function.update_of_ne own]
      exact once
    · unfold commitCount at count ⊢
      rcases Engine.advance_shared advanced with ⟨_, log⟩ | ⟨_, rfl⟩
      · rw [log, count]
      · rw [Engine.publish_log, List.map_append, List.count_append, count]
        simp [Ne.symm own]

/-- In an interleaving of programs that commit once, what a session ends with tells whether it is
in the log. -/
theorem commits_once {Q : ι → Bool → Except Err α → Prop}
    {shared : Shared Store Write World ι} {progs : ι → Prog Ans Err α}
    {admits : Stmt → Shared Store Write World ι → List Write → Prop}
    (empty : shared.log = []) (once : ∀ i, (progs i).CommitsOnce (Q i) false)
    (crashed : ∀ i c e, Q i c (.error e)) (run : Run E admits (start shared progs) st) (i : ι) :
    st.Counts (Q i) i := by
  induction run with
  | refl => exact ⟨false, once i, by simp [commitCount, start, empty]⟩
  | tail _ _ step ih => exact ih.act (crashed i) step

omit [Fintype ι] in
theorem commitCount_eq_zero_iff {i : ι} :
    st.commitCount i = 0 ↔ ∀ entry ∈ st.shared.log, entry.1 ≠ i := by
  unfold commitCount
  rw [List.count_eq_zero, List.mem_map]
  constructor
  · exact fun absent entry here same => absent ⟨entry, here, same⟩
  · rintro none' ⟨entry, here, same⟩
    exact none' entry here same

/-- The states that an interleaving reaches in which only the sessions of `who` move. -/
inductive RunOf (E : Engine Ans Err Store Write World Choice) (who : ι → Prop)
    (st : Cluster Ans Err Store Write World ι α) :
    Cluster Ans Err Store Write World ι α → Prop where
  | refl : RunOf E who st st
  | tail {mid next : Cluster Ans Err Store Write World ι α} {i : ι} {m : Move Err Choice} :
      RunOf E who st mid → who i → mid.act E i m = some next → RunOf E who st next

namespace RunOf

variable {who : ι → Prop}

theorem reachable (h : RunOf E who st next) : Reachable E st next := by
  induction h with
  | refl => exact .refl
  | tail _ _ step ih => exact .tail ih (fun _ _ _ => trivial) step

/-- The other sessions stay where they are. -/
theorem sessions (h : RunOf E who st next) {j : ι} (other : ¬ who j) :
    next.sessions j = st.sessions j := by
  induction h with
  | refl => rfl
  | @tail mid _ i m _ moves step ih =>
      obtain ⟨session, shared, _, rfl⟩ := act_eq_some_iff.mp step
      have distinct : j ≠ i := fun same => other (same ▸ moves)
      rw [← ih]
      exact Function.update_of_ne distinct _ _

/-- Only the sessions that move commit. -/
theorem log (h : RunOf E who st next) :
    ∃ new, next.shared.log = st.shared.log ++ new ∧ ∀ entry ∈ new, who entry.1 := by
  induction h with
  | refl => exact ⟨[], (List.append_nil _).symm, fun _ he => (List.not_mem_nil he).elim⟩
  | @tail mid _ i m _ moves step ih =>
      obtain ⟨new, log, each⟩ := ih
      obtain ⟨session, shared, advanced, rfl⟩ := act_eq_some_iff.mp step
      rcases Engine.advance_shared advanced with ⟨_, same⟩ | ⟨_, rfl⟩
      · exact ⟨new, same.trans log, each⟩
      · refine ⟨new ++ [(i, (mid.sessions i).writes)], ?_, fun entry here => ?_⟩
        · rw [Engine.publish_log, log, List.append_assoc]
        · rcases List.mem_append.mp here with old | own
          · exact each entry old
          · rw [List.mem_singleton.mp own]
            exact moves

theorem trans (first : RunOf E who st mid) (rest : RunOf E who mid next) :
    RunOf E who st next := by
  induction rest with
  | refl => exact first
  | tail _ moves step ih => exact .tail ih moves step

theorem of_play {admits : Stmt → Shared Store Write World ι → List Write → Prop}
    [∀ s σ ws, Decidable (admits s σ ws)] {schedule : List (ι × Move Err Choice)}
    (h : st.play E admits schedule = some next) (moves : ∀ move ∈ schedule, who move.1) :
    RunOf E who st next := by
  induction schedule generalizing st with
  | nil =>
      cases h
      exact .refl
  | cons move schedule ih =>
      rw [play] at h
      split at h
      · obtain ⟨mid, step, rest⟩ := Option.bind_eq_some_iff.mp h
        refine (RunOf.tail .refl (moves move List.mem_cons_self) step).trans (ih rest ?_)
        exact fun later here => moves later (List.mem_cons_of_mem move here)
      · cases h

end RunOf

end Cluster

end Txn
