import Mathlib.Data.List.Basic

/-!
# Bounded retries

Run `k`, and run again while the outcome asks for it, a bounded number of times. `history` is
the list of the runs that are made, `final` the outcome of the last one. A layer that retries
every failure, and raises an error of its own in the end, is `exhaust`.
-/

namespace Retry

variable {ρ ε α : Type}

/-- The outcomes of the runs from the `k`-th on, at most `left` of them being repetitions. -/
def history (again : ρ → Bool) (run : Nat → ρ) : Nat → Nat → List ρ
  | 0, k => [run k]
  | left + 1, k => if again (run k) then run k :: history again run left (k + 1) else [run k]

/-- The outcome of the last run. -/
def final (again : ρ → Bool) (run : Nat → ρ) : Nat → Nat → ρ
  | 0, k => run k
  | left + 1, k => if again (run k) then final again run left (k + 1) else run k

section History

variable {again : ρ → Bool} {run : Nat → ρ} {left k : Nat}

theorem history_of_done (done : again (run k) = false) : history again run left k = [run k] := by
  cases left with
  | zero => rfl
  | succ left => rw [history, done]; rfl

theorem history_of_again (each : ∀ j < left, again (run (k + j)) = true) :
    history again run left k = (List.range' k (left + 1)).map run := by
  induction left generalizing k with
  | zero => rfl
  | succ left ih =>
      have first : again (run k) = true := each 0 (Nat.succ_pos left)
      have rest : ∀ j < left, again (run (k + 1 + j)) = true := by
        intro j hj
        have next := each (j + 1) (Nat.succ_lt_succ hj)
        rwa [show k + (j + 1) = k + 1 + j by omega] at next
      rw [history, if_pos first, ih rest]
      rfl

/-- Only runs of the task are made. -/
theorem exists_of_mem_history {x : ρ} (made : x ∈ history again run left k) :
    ∃ j ≤ left, x = run (k + j) := by
  induction left generalizing k with
  | zero => exact ⟨0, Nat.le_refl 0, List.mem_singleton.mp made⟩
  | succ left ih =>
      rw [history] at made
      split at made
      · rcases List.mem_cons.mp made with rfl | later
        · exact ⟨0, Nat.zero_le _, rfl⟩
        · obtain ⟨j, bound, rfl⟩ := ih later
          exact ⟨j + 1, Nat.succ_le_succ bound, congrArg run (by omega)⟩
      · exact ⟨0, Nat.zero_le _, List.mem_singleton.mp made⟩

theorem getLast?_history : (history again run left k).getLast? = some (final again run left k) := by
  induction left generalizing k with
  | zero => rfl
  | succ left ih =>
      rw [history, final]
      split
      · rw [List.getLast?_cons, ih]
        rfl
      · rfl

theorem final_of_again (each : ∀ j < left, again (run (k + j)) = true) :
    final again run left k = run (k + left) := by
  have runs : (history again run left k).getLast? = some (run (k + left)) := by
    rw [history_of_again each, List.getLast?_map, List.getLast?_range',
      if_neg (Nat.succ_ne_zero left)]
    exact congrArg (fun j => some (run j)) (by omega)
  exact Option.some.inj (getLast?_history.symm.trans runs)

end History

/-- At most `attempts` attempts. The error of the last one is wrapped. -/
def exhaust (wrap : ε → ε) (once : Nat → Except ε α) (attempts : Nat) : Except ε α :=
  (final (fun r => !r.isOk) once (attempts - 1) 0).mapError wrap

/-- If every attempt fails, so does the call, with the wrapped error of the last one. -/
theorem exhaust_of_failed {wrap : ε → ε} {once : Nat → Except ε α} {attempts : Nat}
    {failure : Nat → ε} (failed : ∀ j < attempts, once j = .error (failure j))
    (positive : 0 < attempts) :
    exhaust wrap once attempts = .error (wrap (failure (attempts - 1))) := by
  have each : ∀ j < attempts - 1, (!(once (0 + j)).isOk) = true := by
    intro j hj
    rw [Nat.zero_add, failed j (by omega)]
    rfl
  rw [exhaust, final_of_again each, Nat.zero_add, failed _ (by omega)]
  rfl

end Retry
