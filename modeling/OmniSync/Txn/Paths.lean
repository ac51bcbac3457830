import Mathlib.Data.List.Infix
import OmniSync.Txn.Program

/-!
# Which statements a program issues

A path is a sequence of statements that a program issues under some answers, with its result.
The paths of a sequence are those of its parts.
-/

namespace Txn

namespace Prog

variable {Stmt : Type} {Ans : Stmt → Type} {Err α β γ : Type}

/-- The program issues these statements, one after the other, and ends like this. -/
inductive Issues {α : Type} : Prog Ans Err α → List Stmt → Except Err α → Prop where
  | ret (a : α) : Issues (.ret a) [] (.ok a)
  | raise (e : Err) : Issues (.raise e) [] (.error e)
  | stmt {s : Stmt} {next : Except Err (Ans s) → Prog Ans Err α} {ss : List Stmt}
      {r : Except Err α} (answer : Except Err (Ans s)) (rest : Issues (next answer) ss r) :
      Issues (.stmt s next) (s :: ss) r
  | commit {next : Except Err Unit → Prog Ans Err α} {ss : List Stmt} {r : Except Err α}
      (answer : Except Err Unit) (rest : Issues (next answer) ss r) : Issues (.commit next) ss r
  | rollback {next : Prog Ans Err α} {ss : List Stmt} {r : Except Err α}
      (rest : Issues next ss r) : Issues (.rollback next) ss r

/-- Only allowed statements are issued. -/
theorem Within.issued {allowed : Stmt → Prop} {p : Prog Ans Err α} {ss : List Stmt}
    {r : Except Err α} (h : p.Within allowed) (path : p.Issues ss r) : ∀ s ∈ ss, allowed s := by
  induction path with
  | ret | raise => exact fun _ hs => (List.not_mem_nil hs).elim
  | stmt answer rest ih =>
      intro s hs
      rcases List.mem_cons.mp hs with rfl | hs
      · exact h.1
      · exact ih (h.2 answer) s hs
  | commit | rollback => exact h.elim

namespace Issues

variable {p : Prog Ans Err α} {f : α → Prog Ans Err β} {ss ss' : List Stmt} {a : α}

theorem answered {s : Stmt} (a : Ans s) : (issue s : Prog Ans Err (Ans s)).Issues [s] (.ok a) :=
  .stmt (.ok a) (.ret a)

theorem issue_bind {s : Stmt} {f : Ans s → Prog Ans Err β} {r : Except Err β} (a : Ans s)
    (rest : (f a).Issues ss r) : (issue s >>= f).Issues (s :: ss) r :=
  .stmt (.ok a) rest

theorem bind {r : Except Err β} (first : p.Issues ss (.ok a)) (rest : (f a).Issues ss' r) :
    (p >>= f).Issues (ss ++ ss') r := by
  rw [bind_eq]
  generalize result : Except.ok a = x at first
  induction first with
  | ret a' =>
      cases result
      exact rest
  | raise => cases result
  | stmt answer _ ih => exact .stmt answer (ih result)
  | commit answer _ ih => exact .commit answer (ih result)
  | rollback _ ih => exact .rollback (ih result)

/-- A path of a sequence ends in its first part, or goes on with the second one. -/
theorem of_bind {r : Except Err β} (h : (p >>= f).Issues ss r) :
    (∃ e, r = .error e ∧ p.Issues ss (.error e)) ∨
      ∃ first rest a, ss = first ++ rest ∧ p.Issues first (.ok a) ∧ (f a).Issues rest r := by
  rw [bind_eq] at h
  induction p generalizing ss with
  | ret a => exact .inr ⟨[], ss, a, rfl, .ret a, h⟩
  | raise e =>
      cases h
      exact .inl ⟨e, rfl, .raise e⟩
  | stmt s next ih =>
      cases h with
      | stmt answer path =>
          rcases ih answer path with ⟨e, rfl, failed⟩ | ⟨first, rest, a, rfl, returned, goesOn⟩
          · exact .inl ⟨e, rfl, .stmt answer failed⟩
          · exact .inr ⟨s :: first, rest, a, rfl, .stmt answer returned, goesOn⟩
  | commit next ih =>
      cases h with
      | commit answer path =>
          rcases ih answer path with ⟨e, rfl, failed⟩ | ⟨first, rest, a, rfl, returned, goesOn⟩
          · exact .inl ⟨e, rfl, .commit answer failed⟩
          · exact .inr ⟨first, rest, a, rfl, .commit answer returned, goesOn⟩
  | rollback next ih =>
      cases h with
      | rollback path =>
          rcases ih path with ⟨e, rfl, failed⟩ | ⟨first, rest, a, rfl, returned, goesOn⟩
          · exact .inl ⟨e, rfl, .rollback failed⟩
          · exact .inr ⟨first, rest, a, rfl, .rollback returned, goesOn⟩

theorem of_issue {s : Stmt} {r : Except Err (Ans s)}
    (h : (issue s : Prog Ans Err (Ans s)).Issues ss r) : ss = [s] := by
  cases h with
  | stmt answer rest => cases answer <;> cases rest <;> rfl

/-- A loop that issues one statement for each element issues the first ones of them. -/
theorem of_forM {stmt : γ → Stmt} {xs : List γ}
    {action : γ → Prog Ans Err PUnit} (each : ∀ x ss r, (action x).Issues ss r → ss = [stmt x])
    {r : Except Err PUnit} (h : (xs.forM action).Issues ss r) :
    ss <+: xs.map stmt := by
  induction xs generalizing ss with
  | nil =>
      cases h
      exact List.nil_prefix
  | cons x xs ih =>
      rcases of_bind h with ⟨_, _, failed⟩ | ⟨first, rest, _, rfl, returned, goesOn⟩
      · rw [each x _ _ failed, List.map_cons]
        exact List.prefix_append [stmt x] _
      · rw [each x _ _ returned, List.map_cons]
        exact (List.prefix_cons_inj _).mpr (ih goesOn)

theorem forM {stmts : γ → List Stmt} {xs : List γ} {action : γ → Prog Ans Err PUnit}
    (each : ∀ x, (action x).Issues (stmts x) (.ok ⟨⟩)) :
    (xs.forM action).Issues (xs.flatMap stmts) (.ok ⟨⟩) := by
  induction xs with
  | nil => exact .ret _
  | cons x xs ih => exact bind (each x) ih

theorem countP_eq_zero {counted : Stmt → Bool} {r : Except Err α}
    (none : p.Within (fun s => counted s = false)) (h : p.Issues ss r) :
    ss.countP counted = 0 := by
  refine List.countP_eq_zero.mpr (fun s hs found => ?_)
  rw [none.issued h s hs] at found
  cases found

/-- Only the rest of the program counts. -/
theorem countP_bind {counted : Stmt → Bool} {r : Except Err β} {n : Nat}
    (none : p.Within (fun s => counted s = false))
    (rest : ∀ first a after, p.Issues first (.ok a) → (f a).Issues after r →
      after.countP counted ≤ n)
    (h : (p >>= f).Issues ss r) : ss.countP counted ≤ n := by
  rcases of_bind h with ⟨_, _, failed⟩ | ⟨first, after, a, rfl, returned, goesOn⟩
  · rw [countP_eq_zero none failed]
    exact Nat.zero_le n
  · rw [List.countP_append, countP_eq_zero none returned, Nat.zero_add]
    exact rest first a after returned goesOn

end Issues

end Prog

end Txn
