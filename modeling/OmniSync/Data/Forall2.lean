import Mathlib.Data.List.Forall2

/-!
# Lists related position by position

What a loop over one list produces is related to it by `List.Forall₂`. The lemmas
here turn that into statements about members.
-/

namespace List.Forall₂

variable {α β γ : Type} {R S : α → β → Prop} {xs : List α} {ys : List β}

theorem imp_of_mem (h : Forall₂ R xs ys) (imp : ∀ x ∈ xs, ∀ y ∈ ys, R x y → S x y) :
    Forall₂ S xs ys := by
  induction h with
  | nil => exact .nil
  | cons head _ ih =>
      exact .cons (imp _ (by simp) _ (by simp) head)
        (ih (fun x hx y hy => imp x (by simp [hx]) y (by simp [hy])))

theorem exists_right (h : Forall₂ R xs ys) {x : α} (hx : x ∈ xs) : ∃ y ∈ ys, R x y := by
  induction h with
  | nil => cases hx
  | cons head _ ih =>
      rcases mem_cons.mp hx with rfl | later
      · exact ⟨_, by simp, head⟩
      · obtain ⟨y, hy, related⟩ := ih later
        exact ⟨y, by simp [hy], related⟩

theorem exists_left (h : Forall₂ R xs ys) {y : β} (hy : y ∈ ys) : ∃ x ∈ xs, R x y :=
  exists_right h.flip hy

theorem map_eq (h : Forall₂ R xs ys) {f : α → γ} {g : β → γ} (same : ∀ x y, R x y → g y = f x) :
    ys.map g = xs.map f := by
  induction h with
  | nil => rfl
  | cons head _ ih => rw [map_cons, map_cons, ih, same _ _ head]

theorem trans {zs : List γ} {T : β → γ → Prop} {U : α → γ → Prop} (h : Forall₂ R xs ys)
    (h' : Forall₂ T ys zs) (comp : ∀ x y z, R x y → T y z → U x z) : Forall₂ U xs zs := by
  induction h generalizing zs with
  | nil =>
      cases h'
      exact .nil
  | cons head _ ih =>
      cases h' with
      | cons head' rest => exact .cons (comp _ _ _ head head') (ih rest)

theorem of_concat {x : α} {zs : List β} (h : Forall₂ R (xs ++ [x]) zs) :
    ∃ ys y, Forall₂ R xs ys ∧ R x y ∧ zs = ys ++ [y] := by
  induction xs generalizing zs with
  | nil =>
      cases h with
      | cons head rest =>
          cases rest
          exact ⟨[], _, .nil, head, rfl⟩
  | cons _ xs ih =>
      cases h with
      | cons head rest =>
          obtain ⟨ys, y, first, last, rfl⟩ := ih rest
          exact ⟨_ :: ys, y, .cons head first, last, rfl⟩

theorem exists_of_forall (h : ∀ x ∈ xs, ∃ y, R x y) : ∃ ys, Forall₂ R xs ys := by
  induction xs with
  | nil => exact ⟨[], .nil⟩
  | cons x xs ih =>
      obtain ⟨⟨y, head⟩, rest⟩ := List.forall_mem_cons.mp h
      obtain ⟨ys, others⟩ := ih rest
      exact ⟨y :: ys, .cons head others⟩

end List.Forall₂
