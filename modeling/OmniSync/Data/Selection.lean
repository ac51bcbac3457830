import Mathlib.Data.List.Nodup
import Mathlib.Data.List.Pairwise
import Mathlib.Data.List.Perm.Subperm

/-!
# ORDER BY … LIMIT

A query with `ORDER BY` and `LIMIT` determines its answer only up to the order of
ties, and under a limit not even up to that. `Selects` says which answers are
possible: sorted, without repetitions, as many as the limit allows, and no row
that was left out precedes a row that was taken.
-/

/-- `picked` is a possible answer of a query over `rows`, sorted by `le`, with at
most `limit` rows. `key` identifies a row. -/
structure Selects {α κ : Type} (key : α → κ) (le : α → α → Prop) (limit : Nat)
    (rows picked : List α) : Prop where
  mem : ∀ x ∈ picked, x ∈ rows
  nodup : (picked.map key).Nodup
  sorted : picked.Pairwise le
  length : picked.length = min limit rows.length
  first : ∀ x ∈ picked, ∀ y ∈ rows, key y ∉ picked.map key → le x y

namespace Selects

variable {α κ : Type} {key : α → κ} {le : α → α → Prop} {limit : Nat} {rows picked : List α}

theorem length_le (h : Selects key le limit rows picked) : picked.length ≤ limit :=
  h.length ▸ Nat.min_le_left limit rows.length

theorem eq_nil_iff (h : Selects key le limit rows picked) (pos : 0 < limit) :
    picked = [] ↔ rows = [] := by
  rw [← List.length_eq_zero_iff, ← List.length_eq_zero_iff, h.length]
  omega

/-- A query that does not use up its limit returns every row. -/
theorem complete (h : Selects key le limit rows picked) (_unique : (rows.map key).Nodup)
    (short : picked.length < limit) {x : α} (hx : x ∈ rows) : x ∈ picked := by
  have all : picked.length = rows.length := by
    have := h.length
    omega
  have sub : picked.Subperm rows := (h.nodup.of_map).subperm h.mem
  exact (sub.perm_of_length_le (Nat.le_of_eq all.symm)).symm.subset hx

end Selects

/-- The rows with the given keys, in the order of the keys. -/
def rowsOf {α κ : Type} [DecidableEq κ] (key : α → κ) (rows : List α) (ids : List κ) : List α :=
  ids.filterMap (fun k => rows.find? (fun x => decide (key x = k)))

/-- Whether the rows with keys `ids` are a possible answer. -/
def selects {α κ : Type} [DecidableEq κ] (key : α → κ) (le : α → α → Bool) (limit : Nat)
    (rows : List α) (ids : List κ) : Bool :=
  decide ids.Nodup && decide (ids.length = min limit rows.length) &&
    ids.all (fun k => rows.any (fun x => decide (key x = k))) &&
      decide ((rowsOf key rows ids).Pairwise (fun x y => le x y = true)) &&
        (rowsOf key rows ids).all
          (fun x => rows.all (fun y => decide (key y ∈ ids) || le x y))

theorem map_rowsOf {α κ : Type} [DecidableEq κ] {key : α → κ} {rows : List α} {ids : List κ}
    (known : ∀ k ∈ ids, ∃ x ∈ rows, key x = k) : (rowsOf key rows ids).map key = ids := by
  induction ids with
  | nil => rfl
  | cons k ids ih =>
      obtain ⟨x, hx, hk⟩ := known k (by simp)
      obtain ⟨y, hy⟩ : ∃ y, rows.find? (fun x => decide (key x = k)) = some y := by
        cases found : rows.find? (fun x => decide (key x = k)) with
        | some y => exact ⟨y, rfl⟩
        | none =>
            have absent := List.find?_eq_none.mp found x hx
            simp [hk] at absent
      have same : key y = k := by simpa using List.find?_some hy
      have rest := ih (fun k hk => known k (by simp [hk]))
      simp only [rowsOf] at rest
      simp only [rowsOf, List.filterMap_cons, hy, List.map_cons, same, rest]

theorem selects_known {α κ : Type} [DecidableEq κ] {key : α → κ} {le : α → α → Bool}
    {limit : Nat} {rows : List α} {ids : List κ} (h : selects key le limit rows ids = true) :
    ∀ k ∈ ids, ∃ x ∈ rows, key x = k := by
  simp only [selects, Bool.and_eq_true, List.all_eq_true, List.any_eq_true,
    decide_eq_true_eq] at h
  exact h.1.1.2

theorem selects_sound {α κ : Type} [DecidableEq κ] {key : α → κ} {le : α → α → Bool}
    {limit : Nat} {rows : List α} {ids : List κ} (h : selects key le limit rows ids = true) :
    Selects key (fun x y => le x y = true) limit rows (rowsOf key rows ids) := by
  simp only [selects, Bool.and_eq_true, decide_eq_true_eq, List.all_eq_true, List.any_eq_true,
    Bool.or_eq_true] at h
  obtain ⟨⟨⟨⟨nodup, length⟩, known⟩, sorted⟩, first⟩ := h
  have keys := map_rowsOf known
  refine ⟨?_, by rwa [keys], sorted, ?_, ?_⟩
  · intro x hx
    obtain ⟨k, _, found⟩ := List.mem_filterMap.mp hx
    exact List.mem_of_find?_eq_some found
  · rw [← length, ← keys, List.length_map, keys]
  · intro x hx y hy left
    rw [keys] at left
    exact (first x hx y hy).resolve_left left
