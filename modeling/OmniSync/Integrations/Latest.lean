import Mathlib.Data.List.Induction
import OmniSync.Data.Outcome
import OmniSync.Integrations.Schemas

/-!
# The latest of several datetimes

The loops over fetched items keep the latest datetime so far. Naive and aware datetimes cannot
be compared, so such a loop may fail. If it does not, it has found a datetime that no other one
exceeds, `exists_latest`, and that is an instant exactly when all of them are aware:
`haveLatest_iff`.
-/

namespace OmniSync

namespace Datetime

/-- The datetime has an offset. -/
def Aware (d : Datetime) : Prop := d.offset ≠ none

variable {a b c d : Datetime}

theorem utc_aware (t : Time) : (utc t).Aware := fun impossible => (nomatch impossible)

theorem aware_iff_naive : d.Aware ↔ d.naive = none := by
  obtain ⟨wall, _ | offset⟩ := d
  · exact ⟨fun aware => (aware rfl).elim, fun impossible => (nomatch impossible)⟩
  · exact ⟨fun _ => rfl, fun _ impossible => (nomatch impossible)⟩

/-- Aware datetimes can be compared. -/
theorem gt_of_aware (ha : a.Aware) (hb : b.Aware) : ∃ later, a.gt b = .ok later := by
  obtain ⟨wall, _ | offset⟩ := a
  · exact (ha rfl).elim
  · obtain ⟨wall', _ | offset'⟩ := b
    · exact (hb rfl).elim
    · exact ⟨_, rfl⟩

/-- What is compared with an aware datetime is aware. -/
theorem aware_of_gt {later : Bool} (h : a.gt b = .ok later) (hb : b.Aware) : a.Aware := by
  obtain ⟨wall, _ | offset⟩ := a
  · obtain ⟨wall', _ | offset'⟩ := b
    · exact (hb rfl).elim
    · cases h
  · exact fun impossible => (nomatch impossible)

theorem gt_self (d : Datetime) : d.gt d = .ok false := by
  obtain ⟨wall, offset⟩ := d
  cases offset <;> simp [gt]

theorem not_gt_of_gt (ab : a.gt b = .ok false) (cb : c.gt b = .ok true) :
    a.gt c = .ok false := by
  obtain ⟨wa, oa⟩ := a
  obtain ⟨wb, ob⟩ := b
  obtain ⟨wc, oc⟩ := c
  cases oa <;> cases ob <;> cases oc <;> simp [gt] at ab cb ⊢ <;> omega

end Datetime

section Loop

variable {α : Type} (date : α → Datetime)

/-- The later one of the latest so far and `x`, by their datetimes. -/
def laterBy (latest : Option α) (x : α) : Except Exn (Option α) :=
  match latest with
  | none => .ok (some x)
  | some latest =>
      ((date x).gt (date latest)).map (fun gt => if gt then some x else some latest)

/-- The latest one of a list. -/
def latestBy (xs : List α) : Except Exn (Option α) := xs.foldlM (laterBy date) none

/-- A latest one is found, and is an instant that none of the list exceeds. -/
def HaveLatest (xs : List α) : Prop :=
  ∃ latest, latestBy date xs = .ok latest ∧
    ∀ x ∈ xs, ∃ last, latest = some last ∧ (date last).Aware ∧ (date x).gt (date last) = .ok false

variable {date} {a x : α} {xs : List α} {latest : Option α}

theorem laterBy_ne_none : laterBy date latest x ≠ .ok none := by
  intro h
  cases latest with
  | none => cases h
  | some last =>
      simp only [laterBy] at h
      cases later : (date x).gt (date last) with
      | error e =>
          rw [later] at h
          cases h
      | ok gt =>
          rw [later] at h
          cases gt <;> cases h

theorem latestBy_concat : latestBy date (xs ++ [x]) =
    latestBy date xs >>= fun latest => laterBy date latest x := by
  unfold latestBy
  rw [List.foldlM_append]
  congr 1
  funext latest
  rw [List.foldlM_cons]
  exact bind_pure _

theorem eq_nil_of_latestBy (h : latestBy date xs = .ok none) : xs = [] := by
  cases xs using List.reverseRecOn with
  | nil => rfl
  | append_singleton xs x =>
      rw [latestBy_concat] at h
      obtain ⟨_, _, last⟩ := bind_ok_iff.mp h
      exact (laterBy_ne_none last).elim

/-- The latest one is in the list, and none of the list exceeds it. -/
theorem exists_latest (h : latestBy date xs = .ok (some a)) :
    a ∈ xs ∧ ∀ x ∈ xs, (date x).gt (date a) = .ok false := by
  induction xs using List.reverseRecOn generalizing a with
  | nil => cases h
  | append_singleton xs x ih =>
      rw [latestBy_concat] at h
      obtain ⟨latest, before, last⟩ := bind_ok_iff.mp h
      cases latest with
      | none =>
          cases last
          rw [eq_nil_of_latestBy before]
          exact ⟨by simp, by simp [Datetime.gt_self]⟩
      | some latest =>
          obtain ⟨first, bound⟩ := ih before
          simp only [laterBy] at last
          cases later : (date x).gt (date latest) with
          | error e =>
              rw [later] at last
              cases last
          | ok gt =>
              rw [later] at last
              cases gt with
              | true =>
                  cases last
                  refine ⟨by simp, fun other ho => ?_⟩
                  rcases List.mem_append.mp ho with old | new
                  · exact Datetime.not_gt_of_gt (bound other old) later
                  · rw [List.mem_singleton.mp new]
                    exact Datetime.gt_self _
              | false =>
                  cases last
                  refine ⟨by simp [first], fun other ho => ?_⟩
                  rcases List.mem_append.mp ho with old | new
                  · exact bound other old
                  · rw [List.mem_singleton.mp new]
                    exact later

/-- The loop does not fail on aware datetimes. -/
theorem exists_latestBy (aware : ∀ x ∈ xs, (date x).Aware) :
    ∃ latest, latestBy date xs = .ok latest := by
  induction xs using List.reverseRecOn with
  | nil => exact ⟨none, rfl⟩
  | append_singleton xs x ih =>
      obtain ⟨latest, before⟩ := ih (fun y hy => aware y (List.mem_append_left _ hy))
      rw [latestBy_concat, before, ok_bind]
      cases latest with
      | none => exact ⟨_, rfl⟩
      | some last =>
          obtain ⟨later, compared⟩ := Datetime.gt_of_aware (aware x (by simp))
            (aware last (List.mem_append_left _ (exists_latest before).1))
          simp only [laterBy, compared]
          exact ⟨_, rfl⟩

/-- The latest one is an instant if and only if all are aware. -/
theorem haveLatest_iff : HaveLatest date xs ↔ ∀ x ∈ xs, (date x).Aware := by
  constructor
  · rintro ⟨latest, _, bound⟩ x hx
    obtain ⟨last, _, aware, le⟩ := bound x hx
    exact Datetime.aware_of_gt le aware
  · intro aware
    obtain ⟨latest, found⟩ := exists_latestBy aware
    refine ⟨latest, found, fun x hx => ?_⟩
    cases latest with
    | none =>
        rw [eq_nil_of_latestBy found] at hx
        cases hx
    | some last =>
        obtain ⟨member, bound⟩ := exists_latest found
        exact ⟨last, rfl, aware last member, bound x hx⟩

end Loop

end OmniSync
