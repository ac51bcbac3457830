import Mathlib.Logic.Basic

/-!
# When a computation that may fail succeeds

A sequence succeeds if and only if each part does, and so does a loop over a list.
-/

section Outcome

variable {ε α β : Type}

theorem ok_bind (a : α) (f : α → Except ε β) : (Except.ok a >>= f) = f a := rfl

theorem bind_ok_iff {x : Except ε α} {f : α → Except ε β} {b : β} :
    (x >>= f) = .ok b ↔ ∃ a, x = .ok a ∧ f a = .ok b := by
  cases x with
  | error e =>
      constructor
      · intro impossible
        cases impossible
      · rintro ⟨_, impossible, _⟩
        cases impossible
  | ok a =>
      constructor
      · exact fun h => ⟨a, rfl, h⟩
      · rintro ⟨_, ⟨⟩, h⟩
        exact h

theorem exists_bind_iff {x : Except ε α} {f : α → Except ε β} :
    (∃ b, (x >>= f) = .ok b) ↔ ∃ a, x = .ok a ∧ ∃ b, f a = .ok b := by
  simp only [bind_ok_iff]
  constructor
  · rintro ⟨b, a, first, rest⟩
    exact ⟨a, first, b, rest⟩
  · rintro ⟨a, first, b, rest⟩
    exact ⟨b, a, first, rest⟩

theorem mapM_ok_iff {f : α → Except ε β} {items : List α} :
    (∃ results, items.mapM f = .ok results) ↔ ∀ a ∈ items, ∃ b, f a = .ok b := by
  induction items with
  | nil => exact ⟨fun _ _ ha => (List.not_mem_nil ha).elim, fun _ => ⟨[], rfl⟩⟩
  | cons a items ih =>
      rw [List.mapM_cons, exists_bind_iff, List.forall_mem_cons, ← ih]
      constructor
      · rintro ⟨b, first, results, rest⟩
        obtain ⟨others, each, _⟩ := exists_bind_iff.mp ⟨results, rest⟩
        exact ⟨⟨b, first⟩, others, each⟩
      · rintro ⟨⟨b, first⟩, others, each⟩
        exact ⟨b, first, exists_bind_iff.mpr ⟨others, each, _, rfl⟩⟩

/-- If each step succeeds exactly from a good state with a good item, a loop does from a good
state with good items. -/
theorem foldlM_ok_iff {f : β → α → Except ε β} {good : β → Prop} {fine : α → Prop}
    {items : List α} (step : ∀ b, ∀ a ∈ items,
      (∃ b', f b a = .ok b' ∧ good b') ↔ good b ∧ fine a) (b : β) :
    (∃ b', items.foldlM f b = .ok b' ∧ good b') ↔ good b ∧ ∀ a ∈ items, fine a := by
  induction items generalizing b with
  | nil =>
      constructor
      · rintro ⟨_, ⟨⟩, here⟩
        exact ⟨here, fun _ ha => (List.not_mem_nil ha).elim⟩
      · exact fun h => ⟨b, rfl, h.1⟩
  | cons a items ih =>
      have rest := ih (fun b a' ha => step b a' (List.mem_cons_of_mem a ha))
      rw [List.forall_mem_cons, ← and_assoc, ← step b a List.mem_cons_self, List.foldlM_cons]
      cases first : f b a with
      | error e =>
          constructor
          · rintro ⟨_, impossible, _⟩
            cases impossible
          · rintro ⟨⟨_, impossible, _⟩, _⟩
            cases impossible
      | ok c =>
          refine (rest c).trans (and_congr_left' ?_)
          constructor
          · exact fun h => ⟨c, rfl, h⟩
          · rintro ⟨_, ⟨⟩, h⟩
            exact h

end Outcome
