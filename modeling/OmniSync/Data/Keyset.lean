import Mathlib.Data.List.Sort

/-!
# Keyset pagination

A query that is ordered by a unique position returns an ascending list. A page is an
initial segment of the elements past a cursor, and the next cursor is the position of
its last element. So the elements past the next cursor are those past the old one that
lie beyond the page: `past_next`. A list that grows at its end only is extended as a
whole: `Ascending.isPrefix`.
-/

namespace Keyset

variable {β κ : Type} [LinearOrder κ] {position : β → κ}

/-- The position `k` comes after the cursor, if there is one. -/
def Past (cursor : Option κ) (k : κ) : Prop := ∀ c ∈ cursor, c < k

instance (cursor : Option κ) (k : κ) : Decidable (Past cursor k) :=
  inferInstanceAs (Decidable (∀ c ∈ cursor, c < k))

@[simp] theorem past_none (k : κ) : Past none k := fun _ h => nomatch h

@[simp] theorem past_some {c k : κ} : Past (some c) k ↔ c < k := by simp [Past]

theorem Past.trans_lt {cursor : Option κ} {k l : κ} (h : Past cursor k) (lt : k < l) :
    Past cursor l := fun c hc => (h c hc).trans lt

/-- The list is sorted by position, and no two elements share theirs. -/
def Ascending (position : β → κ) (l : List β) : Prop :=
  l.Pairwise (fun a b => position a < position b)

/-- The cursor that follows a page. -/
def next (position : β → κ) (cursor : Option κ) (page : List β) : Option κ :=
  (page.getLast?.map position).or cursor

namespace Ascending

variable {l l' : List β}

theorem nodup (h : Ascending position l) : l.Nodup :=
  List.Pairwise.imp (fun lt same => lt.ne (congrArg position same)) h

theorem eq_of_mem_iff (h : Ascending position l) (h' : Ascending position l')
    (same : ∀ x, x ∈ l ↔ x ∈ l') : l = l' :=
  ((List.perm_ext_iff_of_nodup h.nodup h'.nodup).mpr same).eq_of_pairwise
    (fun _ _ _ _ lt gt => (lt.asymm gt).elim) h h'

/-- An ascending list to which elements are added at the end only. -/
theorem isPrefix (h : Ascending position l) (h' : Ascending position l') (kept : ∀ x ∈ l, x ∈ l')
    (added : ∀ x ∈ l', x ∈ l ∨ ∀ y ∈ l, position y < position x) : l <+: l' := by
  classical
  refine ⟨l'.filter (fun x => decide (x ∉ l)), ?_⟩
  have sorted : Ascending position (l ++ l'.filter (fun x => decide (x ∉ l))) := by
    refine List.pairwise_append.mpr ⟨h, List.Pairwise.filter _ h', ?_⟩
    intro y hy x hx
    obtain ⟨member, new⟩ := List.mem_filter.mp hx
    exact (added x member).resolve_left (of_decide_eq_true new) y hy
  refine sorted.eq_of_mem_iff h' (fun x => ?_)
  rw [List.mem_append, List.mem_filter, decide_eq_true_eq]
  constructor
  · rintro (old | ⟨new, _⟩)
    · exact kept x old
    · exact new
  · intro hx
    by_cases old : x ∈ l
    · exact .inl old
    · exact .inr ⟨hx, old⟩

theorem le_getLast {x last : β} (h : Ascending position l) (hx : x ∈ l)
    (end' : l.getLast? = some last) : position x ≤ position last := by
  obtain ⟨first, rfl⟩ := List.getLast?_eq_some_iff.mp end'
  rcases List.mem_append.mp hx with old | new
  · exact ((List.pairwise_append.mp h).2.2 x old last (by simp)).le
  · rw [List.mem_singleton.mp new]

end Ascending

section Page

variable {cursor : Option κ} {l : List β}

/-- Past the next cursor is what is past the old one and past every element of the page. -/
theorem past_next (h : Ascending position l) (beyond : ∀ x ∈ l, Past cursor (position x)) {k : κ} :
    Past (next position cursor l) k ↔ Past cursor k ∧ ∀ x ∈ l, position x < k := by
  unfold next
  cases end' : l.getLast? with
  | none =>
      rw [List.getLast?_eq_none_iff] at end'
      simp [end']
  | some last =>
      have member := List.mem_of_getLast? end'
      change Past (some (position last)) k ↔ _
      rw [past_some]
      constructor
      · intro lt
        exact ⟨(beyond last member).trans_lt lt, fun x hx => (h.le_getLast hx end').trans_lt lt⟩
      · intro past
        exact past.2 last member

/-- The elements past the cursor that follows a page are those beyond the page. -/
theorem past_next_iff_mem_drop (h : Ascending position l)
    (beyond : ∀ x ∈ l, Past cursor (position x)) {n : Nat} {x : β} (hx : x ∈ l) :
    Past (next position cursor (l.take n)) (position x) ↔ x ∈ l.drop n := by
  have split := List.take_append_drop n l
  have parts : Ascending position (l.take n ++ l.drop n) := by rwa [split]
  obtain ⟨first, _, across⟩ := List.pairwise_append.mp parts
  rw [past_next first (fun y hy => beyond y (List.mem_of_mem_take hy))]
  constructor
  · rintro ⟨_, after⟩
    rw [← split] at hx
    refine (List.mem_append.mp hx).resolve_left ?_
    exact fun inside => lt_irrefl _ (after x inside)
  · exact fun later => ⟨beyond x hx, fun y hy => across y hy x later⟩

end Page

end Keyset
