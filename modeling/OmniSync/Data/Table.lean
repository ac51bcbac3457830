import Mathlib.Data.List.Nodup

/-!
# Tables with a unique key

A table is a list of rows in insertion order, no two of which have the same key.
The uniqueness is part of the type, so no operation can produce a table that
violates it: `put` replaces the row with the same key, or appends; `add` appends,
or leaves the table alone when the key is taken.
-/

/-- Rows of type `α`, unique by `key`. -/
structure Table {α κ : Type} (key : α → κ) where
  rows : List α
  unique : (rows.map key).Nodup

namespace Table

variable {α κ : Type} {key : α → κ}

instance : Membership α (Table key) := ⟨fun t x => x ∈ t.rows⟩

theorem mem_def {t : Table key} {x : α} : x ∈ t ↔ x ∈ t.rows := Iff.rfl

/-- The table without rows. -/
def empty : Table key := ⟨[], List.nodup_nil⟩

instance : EmptyCollection (Table key) := ⟨empty⟩

@[simp] theorem not_mem_empty (x : α) : ¬ x ∈ (∅ : Table key) := List.not_mem_nil

@[simp] theorem rows_empty : (∅ : Table key).rows = [] := rfl

theorem eq_of_key_eq {t : Table key} {x y : α} (hx : x ∈ t) (hy : y ∈ t)
    (h : key x = key y) : x = y :=
  List.inj_on_of_nodup_map t.unique hx hy h

theorem rows_nodup (t : Table key) : t.rows.Nodup := t.unique.of_map

/-- Delete the rows that do not satisfy `p`. -/
def filter (t : Table key) (p : α → Bool) : Table key :=
  ⟨t.rows.filter p, t.unique.sublist (List.filter_sublist.map key)⟩

theorem mem_filter {t : Table key} {p : α → Bool} {x : α} :
    x ∈ t.filter p ↔ x ∈ t ∧ p x = true := List.mem_filter

variable [DecidableEq κ]

/-- The row with key `k`. -/
def find (t : Table key) (k : κ) : Option α := t.rows.find? (fun x => decide (key x = k))

theorem find_eq_some_iff {t : Table key} {k : κ} {x : α} :
    t.find k = some x ↔ x ∈ t ∧ key x = k := by
  constructor
  · intro h
    exact ⟨List.mem_of_find?_eq_some h, by simpa using List.find?_some h⟩
  · rintro ⟨member, rfl⟩
    cases found : t.find (key x) with
    | none =>
        have absent := List.find?_eq_none.mp found x member
        simp at absent
    | some y =>
        have same : key y = key x := by simpa using List.find?_some found
        rw [eq_of_key_eq (List.mem_of_find?_eq_some found) member same]

theorem find_eq_none_iff {t : Table key} {k : κ} :
    t.find k = none ↔ ∀ x ∈ t, key x ≠ k := by
  simp only [find, List.find?_eq_none, decide_eq_true_eq]
  rfl

/-- Replace the row with the key of `x`, or append `x`. -/
def put (t : Table key) (x : α) : Table key :=
  if h : key x ∈ t.rows.map key then
    ⟨t.rows.map (fun y => if key y = key x then x else y), by
      have keys : (t.rows.map (fun y => if key y = key x then x else y)).map key =
          t.rows.map key := by
        rw [List.map_map]
        refine List.map_congr_left (fun y _ => ?_)
        by_cases same : key y = key x <;> simp [same]
      rw [keys]
      exact t.unique⟩
  else
    ⟨t.rows ++ [x], by
      rw [List.map_append, List.nodup_append]
      refine ⟨t.unique, by simp, ?_⟩
      intro k hk l hl same
      subst same
      simp only [List.map_cons, List.map_nil, List.mem_singleton] at hl
      exact h (hl ▸ hk)⟩

theorem mem_put {t : Table key} {x y : α} :
    y ∈ t.put x ↔ y = x ∨ (y ∈ t ∧ key y ≠ key x) := by
  by_cases present : key x ∈ t.rows.map key
  · simp only [put, present, ↓reduceDIte, mem_def, List.mem_map]
    constructor
    · rintro ⟨z, hz, rfl⟩
      by_cases same : key z = key x
      · exact .inl (if_pos same)
      · rw [if_neg same]
        exact .inr ⟨hz, same⟩
    · rintro (rfl | ⟨hy, different⟩)
      · obtain ⟨z, hz, same⟩ := List.mem_map.mp present
        exact ⟨z, hz, if_pos same⟩
      · exact ⟨y, hy, if_neg different⟩
  · simp only [put, present, ↓reduceDIte, mem_def, List.mem_append, List.mem_singleton]
    constructor
    · rintro (hy | rfl)
      · exact .inr ⟨hy, fun same => present (List.mem_map.mpr ⟨y, hy, same⟩)⟩
      · exact .inl rfl
    · rintro (rfl | ⟨hy, _⟩)
      · exact .inr rfl
      · exact .inl hy

theorem mem_put_self {t : Table key} {x : α} : x ∈ t.put x := mem_put.mpr (.inl rfl)

theorem mem_put_of_ne {t : Table key} {x y : α} (hy : y ∈ t) (h : key y ≠ key x) :
    y ∈ t.put x := mem_put.mpr (.inr ⟨hy, h⟩)

@[simp] theorem find_put_self {t : Table key} {x : α} : (t.put x).find (key x) = some x :=
  find_eq_some_iff.mpr ⟨mem_put_self, rfl⟩

theorem find_put_of_ne {t : Table key} {x : α} {k : κ} (h : k ≠ key x) :
    (t.put x).find k = t.find k := by
  cases found : t.find k with
  | none =>
      rw [find_eq_none_iff] at found ⊢
      intro y hy
      rcases mem_put.mp hy with rfl | ⟨hy, _⟩
      · exact h.symm
      · exact found y hy
  | some y =>
      obtain ⟨hy, rfl⟩ := find_eq_some_iff.mp found
      exact find_eq_some_iff.mpr ⟨mem_put_of_ne hy h, rfl⟩

/-- Append `x`, unless its key is taken. -/
def add (t : Table key) (x : α) : Table key :=
  if h : key x ∈ t.rows.map key then t
  else
    ⟨t.rows ++ [x], by
      rw [List.map_append, List.nodup_append]
      refine ⟨t.unique, by simp, ?_⟩
      intro k hk l hl same
      subst same
      simp only [List.map_cons, List.map_nil, List.mem_singleton] at hl
      exact h (hl ▸ hk)⟩

theorem mem_add_of_mem {t : Table key} {x y : α} (hy : y ∈ t) : y ∈ t.add x := by
  unfold add
  split
  · exact hy
  · exact List.mem_append_left _ hy

theorem mem_of_mem_add {t : Table key} {x y : α} (hy : y ∈ t.add x) : y ∈ t ∨ y = x := by
  unfold add at hy
  split at hy
  · exact .inl hy
  · rcases List.mem_append.mp hy with old | new
    · exact .inl old
    · exact .inr (List.mem_singleton.mp new)

theorem rows_add_of_absent {t : Table key} {x : α} (h : t.find (key x) = none) :
    (t.add x).rows = t.rows ++ [x] := by
  have absent : ¬ key x ∈ t.rows.map key := by
    intro present
    obtain ⟨y, hy, same⟩ := List.mem_map.mp present
    exact find_eq_none_iff.mp h y hy same
  simp only [add, absent, ↓reduceDIte]

theorem find_add_ne_none {t : Table key} {x : α} : (t.add x).find (key x) ≠ none := by
  intro absent
  cases before : t.find (key x) with
  | none =>
      refine find_eq_none_iff.mp absent x ?_ rfl
      rw [mem_def, rows_add_of_absent before]
      simp
  | some y =>
      obtain ⟨hy, same⟩ := find_eq_some_iff.mp before
      exact find_eq_none_iff.mp absent y (mem_add_of_mem hy) same

theorem find_add_of_ne {t : Table key} {x : α} {k : κ} (h : k ≠ key x) :
    (t.add x).find k = t.find k := by
  cases found : t.find k with
  | none =>
      rw [find_eq_none_iff] at found ⊢
      intro y hy
      rcases mem_of_mem_add hy with old | rfl
      · exact found y old
      · exact h.symm
  | some y =>
      obtain ⟨hy, rfl⟩ := find_eq_some_iff.mp found
      exact find_eq_some_iff.mpr ⟨mem_add_of_mem hy, rfl⟩

/-- Change the row with key `k` in a way that keeps its key. -/
def modify (t : Table key) (k : κ) (f : α → α) (keeps : ∀ x, key (f x) = key x) : Table key :=
  ⟨t.rows.map (fun x => if key x = k then f x else x), by
    have keys : (t.rows.map (fun x => if key x = k then f x else x)).map key =
        t.rows.map key := by
      rw [List.map_map]
      refine List.map_congr_left (fun x _ => ?_)
      by_cases same : key x = k
      · simp only [Function.comp_apply, same, ↓reduceIte, keeps]
      · simp only [Function.comp_apply, same, ↓reduceIte]
    rw [keys]
    exact t.unique⟩

theorem find_modify {t : Table key} {k l : κ} {f : α → α} (keeps : ∀ x, key (f x) = key x) :
    (t.modify k f keeps).find l = if l = k then (t.find l).map f else t.find l := by
  have agree : ∀ x, decide (key (if key x = k then f x else x) = l) = decide (key x = l) := by
    intro x
    by_cases same : key x = k <;> simp [same, keeps]
  simp only [find, modify, List.find?_map, Function.comp_def, agree]
  cases found : t.rows.find? (fun x => decide (key x = l)) with
  | none => simp
  | some x =>
      have hx : key x = l := by simpa using List.find?_some found
      subst hx
      by_cases same : key x = k <;> simp [same]

theorem find_modify_of_ne {t : Table key} {k l : κ} {f : α → α}
    (keeps : ∀ x, key (f x) = key x) (h : l ≠ k) : (t.modify k f keeps).find l = t.find l :=
  (find_modify keeps).trans (if_neg h)

theorem mem_modify {t : Table key} {k : κ} {f : α → α} {keeps : ∀ x, key (f x) = key x} {y : α} :
    y ∈ t.modify k f keeps ↔ ∃ x ∈ t, y = if key x = k then f x else x := by
  simp only [modify, mem_def, List.mem_map, eq_comm]

end Table
