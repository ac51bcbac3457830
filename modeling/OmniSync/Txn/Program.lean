import Mathlib.Logic.Basic

/-!
# Programs over a database session

A program issues statements and waits for their answers, commits or rolls back
the work of its session, and finally returns a value or raises an error. It is
ordinary Lean data: the same program is run alone, or interleaved with others
statement by statement, without being written twice.

`Ans s` is the type of the answer to statement `s`. Every statement may fail;
its continuation receives `Except.error` then. Exceptions propagate through
`bind` and are handled by `tryCatch`, as in an ordinary imperative language.
-/

namespace Txn

/-- A session program. `commit` may fail as well, `rollback` never does. -/
inductive Prog {Stmt : Type} (Ans : Stmt → Type) (Err α : Type) : Type where
  | ret (a : α)
  | raise (e : Err)
  | stmt (s : Stmt) (next : Except Err (Ans s) → Prog Ans Err α)
  | commit (next : Except Err Unit → Prog Ans Err α)
  | rollback (next : Prog Ans Err α)

namespace Prog

variable {Stmt : Type} {Ans : Stmt → Type} {Err α β : Type}

/-- Run `p`, then continue with its value. Errors skip the continuation. -/
protected def bind : Prog Ans Err α → (α → Prog Ans Err β) → Prog Ans Err β
  | ret a, f => f a
  | raise e, _ => raise e
  | stmt s next, f => stmt s (fun answer => (next answer).bind f)
  | commit next, f => commit (fun answer => (next answer).bind f)
  | rollback next, f => rollback (next.bind f)

/-- Run `p`; if it raises, continue with the handler. Work that the session did
before the error stays pending: only a `rollback` in the handler discards it. -/
protected def tryCatch : Prog Ans Err α → (Err → Prog Ans Err α) → Prog Ans Err α
  | ret a, _ => ret a
  | raise e, handler => handler e
  | stmt s next, handler => stmt s (fun answer => (next answer).tryCatch handler)
  | commit next, handler => commit (fun answer => (next answer).tryCatch handler)
  | rollback next, handler => rollback (next.tryCatch handler)

instance : Monad (Prog Ans Err) where
  pure := ret
  bind := Prog.bind

instance : MonadExcept Err (Prog Ans Err) where
  throw := raise
  tryCatch := Prog.tryCatch

/-- Continue with the answer of a statement, or raise the error it failed with. -/
def ofAnswer : Except Err α → Prog Ans Err α
  | .ok a => ret a
  | .error e => raise e

@[simp] theorem ofAnswer_ok (a : α) : (ofAnswer (.ok a) : Prog Ans Err α) = ret a := rfl

@[simp] theorem ofAnswer_error (e : Err) : (ofAnswer (.error e) : Prog Ans Err α) = raise e := rfl

/-- Issue one statement and return its answer. -/
def issue (s : Stmt) : Prog Ans Err (Ans s) := stmt s ofAnswer

/-- Commit the pending work of the session. -/
def commitWork : Prog Ans Err Unit := commit ofAnswer

/-- Discard the pending work of the session. -/
def rollbackWork : Prog Ans Err Unit := rollback (ret ())

theorem bind_eq (p : Prog Ans Err α) (f : α → Prog Ans Err β) : p >>= f = p.bind f := rfl

@[simp] theorem ret_bind (a : α) (f : α → Prog Ans Err β) : (ret a).bind f = f a := rfl

@[simp] theorem raise_bind (e : Err) (f : α → Prog Ans Err β) :
    (raise e : Prog Ans Err α).bind f = raise e := rfl

theorem bind_assoc {γ : Type} (p : Prog Ans Err α) (f : α → Prog Ans Err β)
    (g : β → Prog Ans Err γ) : (p >>= f) >>= g = p >>= fun a => f a >>= g := by
  simp only [bind_eq]
  induction p with
  | ret => rfl
  | raise => rfl
  | stmt s next ih => exact congrArg (stmt s) (funext ih)
  | commit next ih => exact congrArg commit (funext ih)
  | rollback next ih => exact congrArg rollback ih

theorem bind_pure (p : Prog Ans Err α) : (p >>= fun a => pure a) = p := by
  simp only [bind_eq]
  induction p with
  | ret => rfl
  | raise => rfl
  | stmt s next ih => exact congrArg (stmt s) (funext ih)
  | commit next ih => exact congrArg commit (funext ih)
  | rollback next ih => exact congrArg rollback ih

/-- No statement of a program outside `allowed`, and no `commit` or `rollback`.
This is a static property of the program: it holds for every answer. -/
def Within (allowed : Stmt → Prop) : Prog Ans Err α → Prop
  | ret _ => True
  | raise _ => True
  | stmt s next => allowed s ∧ ∀ answer, (next answer).Within allowed
  | commit _ => False
  | rollback _ => False

namespace Within

variable {allowed : Stmt → Prop}

theorem mono {wider : Stmt → Prop} {p : Prog Ans Err α} (h : p.Within allowed)
    (imp : ∀ s, allowed s → wider s) : p.Within wider := by
  induction p with
  | ret => trivial
  | raise => trivial
  | stmt s next ih => exact ⟨imp s h.1, fun answer => ih answer (h.2 answer)⟩
  | commit => exact h.elim
  | rollback => exact h.elim

theorem issue {s : Stmt} (h : allowed s) :
    (Prog.issue s : Prog Ans Err (Ans s)).Within allowed := by
  refine ⟨h, ?_⟩
  intro answer
  cases answer <;> trivial

theorem bind {p : Prog Ans Err α} {f : α → Prog Ans Err β} (hp : p.Within allowed)
    (hf : ∀ a, (f a).Within allowed) : (p >>= f).Within allowed := by
  induction p with
  | ret a => exact hf a
  | raise => trivial
  | stmt s next ih => exact ⟨hp.1, fun answer => ih answer (hp.2 answer)⟩
  | commit => exact hp.elim
  | rollback => exact hp.elim

theorem tryCatch {p : Prog Ans Err α} {handler : Err → Prog Ans Err α} (hp : p.Within allowed)
    (hh : ∀ e, (handler e).Within allowed) : (p.tryCatch handler).Within allowed := by
  induction p with
  | ret => trivial
  | raise e => exact hh e
  | stmt s next ih => exact ⟨hp.1, fun answer => ih answer (hp.2 answer)⟩
  | commit => exact hp.elim
  | rollback => exact hp.elim

theorem forM {γ : Type} {action : γ → Prog Ans Err PUnit} (xs : List γ)
    (h : ∀ x ∈ xs, (action x).Within allowed) : (xs.forM action).Within allowed := by
  induction xs with
  | nil => trivial
  | cons x xs ih =>
      exact bind (h x (by simp)) (fun _ => ih (fun y hy => h y (by simp [hy])))

theorem foldlM {γ : Type} {action : α → γ → Prog Ans Err α} (xs : List γ) (init : α)
    (h : ∀ a, ∀ x ∈ xs, (action a x).Within allowed) :
    (xs.foldlM action init).Within allowed := by
  induction xs generalizing init with
  | nil => trivial
  | cons x xs ih =>
      exact bind (h init x (by simp)) (fun a => ih a (fun b y hy => h b y (by simp [hy])))

end Within

end Prog

end Txn
