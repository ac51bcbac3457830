import Mathlib.Data.List.Basic

/-!
# Joined lists

Lists that are joined by a separator, where the lists may contain the separator themselves.
Two joined lists are the same if and only if their parts consist of the same pieces, and the
parts are the same if they have the separator equally often: `joined_eq_iff`,
`eq_of_pieces`. With two parts, what is between the two places of division has moved from
the one to the other: `append_sep_eq_iff`.
-/

section Joined

variable {σ : Type} {sep : σ} {parts parts' : List (List σ)}

theorem append_sep_eq_iff {a x b y : List σ} : a ++ sep :: x = b ++ sep :: y ↔
    (a = b ∧ x = y) ∨ (∃ r, b = a ++ sep :: r ∧ x = r ++ sep :: y) ∨
      ∃ r, a = b ++ sep :: r ∧ y = r ++ sep :: x := by
  constructor
  · intro same
    rcases List.append_eq_append_iff.mp same with ⟨r, hb, hx⟩ | ⟨r, ha, hy⟩
    · cases r with
      | nil =>
          rw [List.append_nil] at hb
          exact .inl ⟨hb.symm, (List.cons.inj hx).2⟩
      | cons c r =>
          obtain ⟨rfl, rest⟩ := List.cons.inj hx
          exact .inr (.inl ⟨r, hb, rest⟩)
    · cases r with
      | nil =>
          rw [List.append_nil] at ha
          exact .inl ⟨ha, (List.cons.inj hy).2.symm⟩
      | cons c r =>
          obtain ⟨rfl, rest⟩ := List.cons.inj hy
          exact .inr (.inr ⟨r, ha, rest⟩)
  · rintro (⟨rfl, rfl⟩ | ⟨r, rfl, rfl⟩ | ⟨r, rfl, rfl⟩)
    · rfl
    · simp
    · simp

variable [DecidableEq σ]

/-- The pieces between the separators, in all parts. -/
def pieces (sep : σ) (parts : List (List σ)) : List (List σ) := parts.flatMap (List.splitOn sep)

theorem splitOn_joined (some : parts ≠ []) :
    ([sep].intercalate parts).splitOn sep = pieces sep parts := by
  induction parts with
  | nil => exact absurd rfl some
  | cons part parts ih =>
      cases parts with
      | nil => simp [pieces]
      | cons next parts =>
          rw [List.intercalate_cons_cons, List.append_assoc, List.singleton_append,
            List.splitOn_append_cons_self, ih (List.cons_ne_nil _ _)]
          rfl

/-- Joined lists are determined by the pieces of their parts. -/
theorem joined_eq_iff (some : parts ≠ []) (some' : parts' ≠ []) :
    [sep].intercalate parts = [sep].intercalate parts' ↔ pieces sep parts = pieces sep parts' := by
  rw [← splitOn_joined some, ← splitOn_joined some']
  refine ⟨fun same => by rw [same], fun same => ?_⟩
  rw [← @List.intercalate_splitOn _ ([sep].intercalate parts) _ _ sep, same,
    List.intercalate_splitOn]

theorem length_splitOn (xs : List σ) : (xs.splitOn sep).length = xs.count sep + 1 := by
  induction xs with
  | nil => rfl
  | cons x xs ih =>
      rw [List.splitOn_cons_eq_if_modifyHead, List.count_cons]
      split
      · rw [List.length_cons, ih]
      · rw [List.length_modifyHead, ih, Nat.add_zero]

/-- The same pieces, divided into parts at the same places. -/
theorem eq_of_pieces (same : pieces sep parts = pieces sep parts')
    (counts : parts.map (List.count sep) = parts'.map (List.count sep)) : parts = parts' := by
  induction parts generalizing parts' with
  | nil => exact (List.map_eq_nil_iff.mp counts.symm).symm
  | cons part parts ih =>
      cases parts' with
      | nil => cases counts
      | cons part' parts' =>
          obtain ⟨first, rest⟩ := List.cons_eq_cons.mp counts
          have lengths : (part.splitOn sep).length = (part'.splitOn sep).length := by
            rw [length_splitOn, length_splitOn, first]
          obtain ⟨here, later⟩ := List.append_inj same lengths
          have parted : part = part' := by
            rw [← @List.intercalate_splitOn _ part _ _ sep, here, List.intercalate_splitOn]
          rw [parted, ih later rest]

end Joined
