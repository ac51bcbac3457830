import Mathlib.Data.List.Destutter

/-!
# Collapsing consecutive repeats

`List.destutter (· ≠ ·)` reads a list from the left. A history grows at the other
end: `destutter_concat` says what one more element does to it.
-/

namespace List

variable {α : Type} [DecidableEq α]

theorem getLast?_destutter' (a : α) (l : List α) :
    (l.destutter' (· ≠ ·) a).getLast? = (a :: l).getLast? := by
  induction l generalizing a with
  | nil => rfl
  | cons b l ih =>
      by_cases h : a = b
      · subst h
        rw [destutter'_cons_neg _ (by simp), ih, getLast?_cons_cons]
      · rw [destutter'_cons_pos _ h, getLast?_cons_cons, ← ih]
        obtain ⟨c, cs, eq⟩ := exists_cons_of_ne_nil (destutter'_ne_nil l (· ≠ ·) (a := b))
        rw [eq, getLast?_cons_cons]

/-- Collapsing repeats keeps the last element. -/
theorem getLast?_destutter (l : List α) :
    (l.destutter (· ≠ ·)).getLast? = l.getLast? := by
  cases l with
  | nil => rfl
  | cons a l => exact getLast?_destutter' a l

theorem destutter'_concat (a : α) (l : List α) (c : α) :
    (l ++ [c]).destutter' (· ≠ ·) a =
      if (a :: l).getLast? = some c then l.destutter' (· ≠ ·) a
      else l.destutter' (· ≠ ·) a ++ [c] := by
  induction l generalizing a with
  | nil =>
      by_cases h : a = c <;> simp [h]
  | cons b l ih =>
      rw [getLast?_cons_cons, cons_append]
      by_cases h : a = b
      · subst h
        rw [destutter'_cons_neg _ (by simp), destutter'_cons_neg _ (by simp), ih]
      · rw [destutter'_cons_pos _ h, destutter'_cons_pos _ h, ih]
        split <;> rfl

/-- One more element is kept exactly when it differs from the last one. -/
theorem destutter_concat (l : List α) (c : α) :
    (l ++ [c]).destutter (· ≠ ·) =
      if l.getLast? = some c then l.destutter (· ≠ ·) else l.destutter (· ≠ ·) ++ [c] := by
  cases l with
  | nil => rfl
  | cons a l => exact destutter'_concat a l c

end List
