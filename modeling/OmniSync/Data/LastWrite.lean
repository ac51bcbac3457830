import Mathlib.Data.List.Induction
import Mathlib.Data.List.Sort
import Mathlib.Logic.Function.Basic

/-!
# Last write wins

A consumer that replays a log keeps, for each key, the value of the last entry with
that key. When the log is sorted by a position that no two entries share, this is the
entry with the largest position, whatever else is in the log.
-/

section LastWrite

variable {α β κ : Type} [DecidableEq κ] (key : α → κ) (value : α → β)

/-- Replay a log into a map. -/
def lastWrite (log : List α) : κ → Option β :=
  log.foldl (fun m x => Function.update m (key x) (some (value x))) (fun _ => none)

theorem lastWrite_concat (log : List α) (x : α) (k : κ) :
    lastWrite key value (log ++ [x]) k =
      if k = key x then some (value x) else lastWrite key value log k := by
  simp only [lastWrite, List.foldl_append, List.foldl_cons, List.foldl_nil, Function.update_apply]

theorem lastWrite_eq_none {log : List α} {k : κ} (h : ∀ x ∈ log, key x ≠ k) :
    lastWrite key value log k = none := by
  induction log using List.reverseRecOn with
  | nil => rfl
  | append_singleton log x ih =>
      rw [lastWrite_concat, if_neg (h x (by simp)).symm]
      exact ih (fun y hy => h y (by simp [hy]))

theorem exists_of_lastWrite {log : List α} {k : κ} {b : β}
    (h : lastWrite key value log k = some b) : ∃ x ∈ log, key x = k ∧ value x = b := by
  induction log using List.reverseRecOn with
  | nil => cases h
  | append_singleton log x ih =>
      rw [lastWrite_concat] at h
      split at h
      · rename_i same
        exact ⟨x, by simp, same.symm, Option.some.inj h⟩
      · obtain ⟨y, hy, found⟩ := ih h
        exact ⟨y, by simp [hy], found⟩

/-- What was written under a key that was used once. -/
theorem lastWrite_of_nodup {log : List α} (once : (log.map key).Nodup) {x : α} (hx : x ∈ log) :
    lastWrite key value log (key x) = some (value x) := by
  induction log using List.reverseRecOn with
  | nil => cases hx
  | append_singleton log z ih =>
      rw [List.map_append, List.nodup_append] at once
      obtain ⟨before, -, apart⟩ := once
      rw [lastWrite_concat]
      rcases List.mem_append.mp hx with old | new
      · rw [if_neg (apart _ (List.mem_map_of_mem old) _ (List.mem_map_of_mem (by simp)))]
        exact ih before old
      · rw [List.mem_singleton.mp new, if_pos rfl]

/-- The entry at the largest position with a key decides. -/
theorem lastWrite_eq_some {ρ : Type} [LinearOrder ρ] {position : α → ρ} {log : List α} {x : α}
    (sorted : log.Pairwise (fun a b => position a < position b)) (hx : x ∈ log)
    (last : ∀ y ∈ log, key y = key x → position y ≤ position x) :
    lastWrite key value log (key x) = some (value x) := by
  induction log using List.reverseRecOn with
  | nil => cases hx
  | append_singleton log z ih =>
      rw [List.pairwise_append] at sorted
      obtain ⟨first, _, before⟩ := sorted
      rw [lastWrite_concat]
      rcases List.mem_append.mp hx with old | new
      · rw [if_neg, ih first old (fun y hy => last y (by simp [hy]))]
        intro same
        exact absurd (last z (by simp) same.symm) (not_le.mpr (before x old z (by simp)))
      · cases List.mem_singleton.mp new
        exact if_pos rfl

end LastWrite
