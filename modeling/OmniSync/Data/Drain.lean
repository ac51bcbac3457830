import Mathlib.Algebra.BigOperators.Group.Finset.Piecewise
import Mathlib.Algebra.Group.Action.Defs
import Mathlib.Algebra.Order.BigOperators.Group.Finset

/-!
# Jobs with a bounded number of attempts

Every job has a budget of attempts. A pass takes attempts from at most `size` jobs, but from all
of them if they are not more than that. Whichever jobs the passes choose, the budgets are used
up after a number of passes that depends on their sum, their maximum and `size`.
-/

namespace Drain

variable {ι : Type}

/-- The jobs that have attempts left. -/
def waiting (jobs : Finset ι) (budget : ι → Nat) : Finset ι := jobs.filter (fun i => 0 < budget i)

/-- Only the waiting jobs have attempts. -/
theorem sum_le {jobs : Finset ι} {budget : ι → Nat} {m : Nat} (bounded : ∀ i ∈ jobs, budget i ≤ m) :
    ∑ i ∈ jobs, budget i ≤ (waiting jobs budget).card * m := by
  rw [← Finset.sum_filter_of_ne (fun i _ left => Nat.pos_of_ne_zero left)]
  refine (Finset.sum_le_card_nsmul _ _ m (fun i hi => ?_)).trans_eq (smul_eq_mul _ _)
  exact bounded i (Finset.mem_filter.mp hi).1

/-- One pass: the budgets of `size` waiting jobs get smaller, or those of all of them. -/
structure Pass (jobs : Finset ι) (size : Nat) (before after : ι → Nat) : Prop where
  le : ∀ i ∈ jobs, after i ≤ before i
  tried : min size (waiting jobs before).card ≤ (jobs.filter (fun i => after i < before i)).card

/-- `k` passes, one after the other. -/
inductive PassesThrough (jobs : Finset ι) (size : Nat) (start : ι → Nat) :
    Nat → (ι → Nat) → Prop where
  | start : PassesThrough jobs size start 0 start
  | pass {k : Nat} {b b' : ι → Nat} : PassesThrough jobs size start k b → Pass jobs size b b' →
      PassesThrough jobs size start (k + 1) b'

namespace Pass

variable {jobs : Finset ι} {size : Nat} {b b' : ι → Nat}

theorem waiting_subset (h : Pass jobs size b b') : waiting jobs b' ⊆ waiting jobs b := by
  intro i hi
  obtain ⟨known, left⟩ := Finset.mem_filter.mp hi
  exact Finset.mem_filter.mpr ⟨known, left.trans_le (h.le i known)⟩

theorem sum_add_le (h : Pass jobs size b b') :
    ∑ i ∈ jobs, b' i + (jobs.filter (fun i => b' i < b i)).card ≤ ∑ i ∈ jobs, b i := by
  rw [Finset.card_filter, ← Finset.sum_add_distrib]
  refine Finset.sum_le_sum (fun i hi => ?_)
  have le := h.le i hi
  split <;> omega

/-- A pass over few jobs takes an attempt from each of them. -/
theorem lt_of_few (h : Pass jobs size b b') (few : (waiting jobs b).card ≤ size) {i : ι}
    (hi : i ∈ waiting jobs b) : b' i < b i := by
  have sub : jobs.filter (fun i => b' i < b i) ⊆ waiting jobs b := by
    intro j hj
    obtain ⟨known, less⟩ := Finset.mem_filter.mp hj
    exact Finset.mem_filter.mpr ⟨known, (Nat.zero_le _).trans_lt less⟩
  have all : (waiting jobs b).card ≤ (jobs.filter (fun i => b' i < b i)).card := by
    rw [← Nat.min_eq_right few]
    exact h.tried
  have same := Finset.eq_of_subset_of_card_le sub all
  rw [← same] at hi
  exact (Finset.mem_filter.mp hi).2

end Pass

namespace PassesThrough

variable {jobs : Finset ι} {size m k : Nat} {start b : ι → Nat}

/-- The passes are full ones first, each of which takes `size` attempts, and then short ones,
each of which takes an attempt from every job. -/
theorem exists_full_short (bounded : ∀ i ∈ jobs, start i ≤ m)
    (h : PassesThrough jobs size start k b) :
    ∃ full short, k = full + short ∧ ∑ i ∈ jobs, b i + full * size ≤ ∑ i ∈ jobs, start i ∧
      (∀ i ∈ waiting jobs b, b i + short ≤ m) ∧
        (0 < short → (waiting jobs b).card ≤ size) := by
  induction h with
  | start =>
      refine ⟨0, 0, rfl, by simp, fun i hi => ?_, nofun⟩
      exact bounded i (Finset.mem_filter.mp hi).1
  | @pass k b b' _ pass ih =>
      obtain ⟨full, short, rfl, sum, each, few⟩ := ih
      have spent := pass.sum_add_le
      by_cases fits : (waiting jobs b).card ≤ size
      · refine ⟨full, short + 1, rfl, by omega, fun i hi => ?_, fun _ => ?_⟩
        · have known := pass.waiting_subset hi
          have less := pass.lt_of_few fits known
          have left := each i known
          omega
        · exact (Finset.card_le_card pass.waiting_subset).trans fits
      · have none : short = 0 := by
          by_contra some
          exact fits (few (Nat.pos_of_ne_zero some))
        have tried := pass.tried
        refine ⟨full + 1, 0, by omega, ?_, fun i hi => ?_, nofun⟩
        · rw [Nat.succ_mul]
          omega
        · have known := pass.waiting_subset hi
          have le := pass.le i (Finset.mem_filter.mp hi).1
          have left := each i known
          omega

/-- Enough passes use up every budget. -/
theorem eq_zero (positive : 0 < size) (bounded : ∀ i ∈ jobs, start i ≤ m)
    (h : PassesThrough jobs size start k b) (enough : (waiting jobs start).card * m / size + m ≤ k) :
    ∀ i ∈ jobs, b i = 0 := by
  intro i hi
  by_contra left
  obtain ⟨full, short, rfl, sum, each, _⟩ := h.exists_full_short bounded
  have waits : i ∈ waiting jobs b := Finset.mem_filter.mpr ⟨hi, Nat.pos_of_ne_zero left⟩
  have kept := each i waits
  have fulls : full ≤ (waiting jobs start).card * m / size := by
    refine (Nat.le_div_iff_mul_le positive).mpr ?_
    exact ((Nat.le_add_left _ _).trans sum).trans (sum_le bounded)
  omega

end PassesThrough

end Drain
