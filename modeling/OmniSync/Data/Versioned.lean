import Mathlib.Data.List.Induction
import Mathlib.Tactic.Common

/-!
# Versioned values

A value with a version number and a history. Writing another value takes the next version, and
writing the same one again changes nothing. So writes can be left out, without a difference in
the versions, only if they repeat the value.
-/

/-- A value with its version, and the values of all versions that are recorded. -/
@[ext] structure Versioned (α : Type) where
  current : Option (α × Nat)
  history : Nat → Option α

namespace Versioned

variable {α : Type} [DecidableEq α] {c : Versioned α} {a : α} {as : List α}

/-- The version under which a value is written. -/
def next (c : Versioned α) (a : α) : Nat :=
  match c.current with
  | some (b, v) => if b ≠ a then v + 1 else v
  | none => 1

/-- The versions that a write records if they are missing: the one that is overwritten with
another value, and the one that is written. -/
def missing (c : Versioned α) (a : α) (n : Nat) : Option α :=
  match c.current with
  | some (b, v) =>
      if b ≠ a ∧ n = v then some b
      else if n = c.next a then some a
      else none
  | none => if n = c.next a then some a else none

def write (c : Versioned α) (a : α) : Versioned α where
  current := some (a, c.next a)
  history n := (c.history n).or (c.missing a n)

def version (c : Versioned α) : Nat := c.current.elim 0 Prod.snd

@[simp] theorem version_write : (c.write a).version = c.next a := rfl

theorem version_le_next (c : Versioned α) (a : α) : c.version ≤ c.next a := by
  unfold version next
  cases c.current with
  | none => exact Nat.zero_le 1
  | some x =>
      dsimp only [Option.elim_some]
      split <;> omega

theorem next_write (c : Versioned α) (a b : α) :
    (c.write a).next b = if a ≠ b then c.next a + 1 else c.next a := rfl

/-- The version that is written is recorded. -/
theorem missing_next (c : Versioned α) (a : α) : c.missing a (c.next a) = some a := by
  unfold missing next
  cases c.current with
  | none => exact if_pos rfl
  | some x =>
      dsimp only
      split
      · rw [if_neg (by omega), if_pos rfl]
      · rename_i same
        rw [if_neg (fun other => same other.1), if_pos rfl]

theorem missing_write_self (c : Versioned α) (a : α) (n : Nat) :
    (c.write a).missing a n = if n = c.next a then some a else none := by
  have same : (c.write a).next a = c.next a := if_neg (not_not.mpr rfl)
  unfold missing
  rw [same]
  exact if_neg (fun other => other.1 rfl)

/-- Writing the same value again changes nothing. -/
theorem write_write (c : Versioned α) (a : α) : (c.write a).write a = c.write a := by
  have same : (c.write a).next a = c.next a := if_neg (not_not.mpr rfl)
  refine Versioned.ext (congrArg (fun v => some (a, v)) same) (funext fun n => ?_)
  change ((c.history n).or (c.missing a n)).or ((c.write a).missing a n) = _
  rw [missing_write_self]
  by_cases last : n = c.next a
  · rw [last, if_pos rfl, missing_next]
    change ((c.history (c.next a)).or (some a)).or (some a) =
      (c.history (c.next a)).or (c.missing a (c.next a))
    rw [missing_next]
    cases c.history (c.next a) <;> rfl
  · rw [if_neg last, Option.or_none]
    rfl

/-- What is left after some writes. -/
def writes (c : Versioned α) (as : List α) : Versioned α := as.foldl write c

@[simp] theorem writes_nil : c.writes [] = c := rfl

theorem writes_concat : c.writes (as ++ [a]) = (c.writes as).write a := List.foldl_append

/-- The value is one of those that are written. -/
theorem current_writes (c : Versioned α) (some' : as ≠ []) :
    ∃ a ∈ as, ∃ v, (c.writes as).current = some (a, v) := by
  induction as using List.reverseRecOn with
  | nil => exact (some' rfl).elim
  | append_singleton as a _ =>
      refine ⟨a, List.mem_append.mpr (.inr List.mem_cons_self), (c.writes as).next a, ?_⟩
      rw [writes_concat]
      rfl

theorem version_le_writes (c : Versioned α) (as : List α) : c.version ≤ (c.writes as).version := by
  induction as using List.reverseRecOn with
  | nil => exact Nat.le_refl _
  | append_singleton as a ih =>
      rw [writes_concat, version_write]
      exact Nat.le_trans ih (version_le_next _ a)

theorem writes_replicate (c : Versioned α) (a : α) (n : Nat) :
    (c.write a).writes (List.replicate n a) = c.write a := by
  induction n with
  | zero => rfl
  | succ n ih =>
      rw [List.replicate_succ, writes, List.foldl_cons, write_write]
      exact ih

/-- Another value among the writes takes a version. -/
theorem lt_version_writes (h : ∃ b ∈ as, b ≠ a) :
    (c.write a).version < ((c.write a).writes as).version := by
  induction as generalizing c with
  | nil =>
      obtain ⟨b, hb, _⟩ := h
      exact (List.not_mem_nil hb).elim
  | cons b as ih =>
      have later := version_le_writes ((c.write a).write b) as
      by_cases same : b = a
      · subst same
        obtain ⟨b', hb', other⟩ := h
        have rest : ∃ b' ∈ as, b' ≠ b := by
          rcases List.mem_cons.mp hb' with rfl | hb'
          · exact (other rfl).elim
          · exact ⟨b', hb', other⟩
        have more := ih (c := c) rest
        rw [writes, List.foldl_cons, write_write]
        exact more
      · rw [version_write, next_write, if_pos (Ne.symm same)] at later
        rw [version_write]
        exact Nat.lt_of_succ_le later

/-- The first write leaves what all of them leave if and only if they write one value. -/
theorem writes_head_iff (c : Versioned α) (as : List α) :
    c.writes as.head?.toList = c.writes as ↔ ∀ a ∈ as, ∀ b ∈ as, a = b := by
  cases as with
  | nil => simp
  | cons a as =>
      change c.write a = (c.write a).writes as ↔ _
      constructor
      · intro same
        have all : ∀ b ∈ a :: as, b = a := by
          intro b hb
          by_contra other
          have there : b ∈ as := (List.mem_cons.mp hb).resolve_left other
          have more := lt_version_writes (c := c) ⟨b, there, other⟩
          rw [← same] at more
          exact Nat.lt_irrefl _ more
        intro b hb b' hb'
        rw [all b hb, all b' hb']
      · intro one
        have all : ∀ b ∈ as, b = a := fun b hb =>
          one b (List.mem_cons_of_mem a hb) a List.mem_cons_self
        rw [List.eq_replicate_of_mem all, writes_replicate]

end Versioned

section Entries

variable {α κ : Type} [DecidableEq κ] {entries : List (κ × α)} {k : κ} {a : α}

/-- The values that some entries have under a key. -/
def valuesAt (entries : List (κ × α)) (k : κ) : List α :=
  (entries.filter (fun x => decide (x.1 = k))).map Prod.snd

theorem mem_valuesAt : a ∈ valuesAt entries k ↔ (k, a) ∈ entries := by
  simp [valuesAt]

theorem valuesAt_append (first rest : List (κ × α)) (k : κ) :
    valuesAt (first ++ rest) k = valuesAt first k ++ valuesAt rest k := by
  simp [valuesAt]

end Entries
