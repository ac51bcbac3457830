import Mathlib.Logic.Basic
import Mathlib.Data.List.Basic

/-!
# Labelled runs

The runs of a labelled transition relation, with every step that was taken: the state
before it, its label and the state after it. What an invariant implies of a single step
holds of every step of a run: `Trace.forall_taken`.
-/

/-- One step: the state before it, the label, and the state after it. -/
structure Taken (S L : Type) where
  before : S
  label : L
  after : S

/-- The run from `s` to the last state takes these steps. -/
inductive Trace {S L : Type} (step : S → L → S → Prop) (s : S) : List (Taken S L) → S → Prop where
  | nil : Trace step s [] s
  | concat {steps : List (Taken S L)} {t u : S} {l : L} :
      Trace step s steps t → step t l u → Trace step s (steps ++ [⟨t, l, u⟩]) u

namespace Trace

variable {S L : Type} {step : S → L → S → Prop} {s t : S} {steps : List (Taken S L)}

theorem cons {l : L} {u : S} (taken : step s l u) (h : Trace step u steps t) :
    Trace step s (⟨s, l, u⟩ :: steps) t := by
  induction h with
  | nil => exact .concat .nil taken
  | concat _ last ih => exact .concat ih last

/-- An invariant holds in the last state. -/
theorem invariant (h : Trace step s steps t) {inv : S → Prop} (start : inv s)
    (kept : ∀ {t l u}, inv t → step t l u → inv u) : inv t := by
  induction h with
  | nil => exact start
  | concat _ taken ih => exact kept ih taken

/-- Every step is taken from a state in which the invariant holds. -/
theorem forall_taken (h : Trace step s steps t) {inv : S → Prop} (start : inv s)
    (kept : ∀ {t l u}, inv t → step t l u → inv u) {P : Taken S L → Prop}
    (each : ∀ {t l u}, inv t → step t l u → P ⟨t, l, u⟩) : ∀ x ∈ steps, P x := by
  induction h with
  | nil => exact fun x hx => (List.not_mem_nil hx).elim
  | concat run taken ih =>
      intro x hx
      rcases List.mem_append.mp hx with old | new
      · exact ih x old
      · rw [List.mem_singleton.mp new]
        exact each (run.invariant start kept) taken

/-- An invariant that is kept by the steps that meet a condition holds throughout a run of
such steps. -/
theorem forall_of_met (h : Trace step s steps t) {inv : S → Prop} {met : Taken S L → Prop}
    (start : inv s) (kept : ∀ {t l u}, inv t → step t l u → met ⟨t, l, u⟩ → inv u)
    (each : ∀ x ∈ steps, met x) :
    inv t ∧ ∀ x ∈ steps, inv x.before ∧ step x.before x.label x.after := by
  induction h with
  | nil => exact ⟨start, fun x hx => (List.not_mem_nil hx).elim⟩
  | concat run taken ih =>
      obtain ⟨now, before⟩ := ih (fun x hx => each x (List.mem_append_left _ hx))
      have last := each _ (List.mem_append_right _ (List.mem_singleton_self _))
      refine ⟨kept now taken last, fun x hx => ?_⟩
      rcases List.mem_append.mp hx with old | new
      · exact before x old
      · rw [List.mem_singleton.mp new]
        exact ⟨now, taken⟩

/-- What every step keeps, the whole run keeps. -/
theorem preorder (h : Trace step s steps t) (r : S → S → Prop) (refl : ∀ s, r s s)
    (trans : ∀ {s t u}, r s t → r t u → r s u) (each : ∀ x ∈ steps, r x.before x.after) :
    r s t := by
  induction h with
  | nil => exact refl s
  | concat _ _ ih =>
      exact trans (ih (fun x hx => each x (List.mem_append_left _ hx)))
        (each _ (List.mem_append_right _ (List.mem_singleton_self _)))

/-- The run up to one of its steps. -/
theorem upTo (h : Trace step s steps t) {before after : List (Taken S L)} {x : Taken S L}
    (split : steps = before ++ x :: after) :
    Trace step s before x.before ∧ step x.before x.label x.after := by
  induction h generalizing after with
  | nil => exact absurd split.symm (List.append_ne_nil_of_right_ne_nil _ (List.cons_ne_nil _ _))
  | concat run taken ih =>
      rcases List.eq_nil_or_concat after with rfl | ⟨after', y, rfl⟩
      · obtain ⟨rfl, last⟩ := List.append_inj' split rfl
        obtain rfl := List.singleton_inj.mp last
        exact ⟨run, taken⟩
      · rw [List.concat_eq_append, ← List.cons_append, ← List.append_assoc] at split
        exact ih (List.append_inj' split rfl).1

/-- What holds after a step and is kept by the steps that follow it holds at the end. -/
theorem since (h : Trace step s steps t) {inv : S → Prop} {before after : List (Taken S L)}
    {x : Taken S L} (split : steps = before ++ x :: after) (start : inv x.after)
    (kept : ∀ y ∈ after, inv y.before → step y.before y.label y.after → inv y.after) : inv t := by
  induction h generalizing after with
  | nil => exact absurd split.symm (List.append_ne_nil_of_right_ne_nil _ (List.cons_ne_nil _ _))
  | concat run taken ih =>
      rcases List.eq_nil_or_concat after with rfl | ⟨after', y, rfl⟩
      · obtain ⟨_, last⟩ := List.append_inj' split rfl
        rw [← List.singleton_inj.mp last] at start
        exact start
      · rw [List.concat_eq_append] at split kept
        rw [← List.cons_append, ← List.append_assoc] at split
        obtain ⟨earlier, last⟩ := List.append_inj' split rfl
        obtain rfl := List.singleton_inj.mp last
        have now := ih earlier (fun z hz => kept z (List.mem_append_left _ hz))
        exact kept _ (List.mem_append_right _ (List.mem_singleton_self _)) now taken

/-- What holds at first and not at the end is lost in some step for the last time. -/
theorem last_loss (h : Trace step s steps t) {P : S → Prop} (start : P s) (lost : ¬ P t) :
    ∃ before x after, steps = before ++ x :: after ∧ P x.before ∧ ¬ P x.after ∧
      step x.before x.label x.after ∧ ∀ y ∈ after, ¬ P y.after := by
  induction h with
  | nil => exact (lost start).elim
  | @concat steps t u l run taken ih =>
      by_cases now : P t
      · exact ⟨steps, ⟨t, l, u⟩, [], rfl, now, lost, taken, fun y hy => (List.not_mem_nil hy).elim⟩
      · obtain ⟨before, x, after, split, had, not, step, rest⟩ := ih now
        refine ⟨before, x, after ++ [⟨t, l, u⟩], ?_, had, not, step, fun y hy => ?_⟩
        · rw [split, List.append_assoc, List.cons_append]
        · rcases List.mem_append.mp hy with old | new
          · exact rest y old
          · rw [List.mem_singleton.mp new]
            exact lost

end Trace
