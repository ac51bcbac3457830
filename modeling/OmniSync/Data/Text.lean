import Mathlib.Data.List.Basic
import Mathlib.Data.List.Infix

/-!
# Texts

`str.replace` with an empty replacement, and `str.strip`, on lists of characters.
-/

namespace OmniSync

/-- `text.replace(old, "")`, where `skip` more characters belong to an occurrence. -/
def removeAll (old : List Char) : Nat → List Char → List Char
  | _, [] => []
  | skip + 1, _ :: cs => removeAll old skip cs
  | 0, c :: cs =>
      if old.isPrefixOf (c :: cs) then removeAll old (old.length - 1) cs
      else c :: removeAll old 0 cs

/-- `text.strip(p)`. -/
def strip (p : Char → Bool) (cs : List Char) : List Char :=
  ((cs.dropWhile p).reverse.dropWhile p).reverse

section Remove

variable {old rest : List Char}

theorem removeAll_of_absent (absent : ¬ old <:+: rest) : removeAll old 0 rest = rest := by
  induction rest with
  | nil => rfl
  | cons c cs ih =>
      have here : ¬ old.isPrefixOf (c :: cs) = true := by
        rw [List.isPrefixOf_iff_prefix]
        exact fun first => absent first.isInfix
      have later : ¬ old <:+: cs := fun occurs =>
        absent (occurs.trans (List.suffix_cons c cs).isInfix)
      rw [removeAll, if_neg here, ih later]

theorem removeAll_skip (skipped rest : List Char) :
    removeAll old skipped.length (skipped ++ rest) = removeAll old 0 rest := by
  induction skipped with
  | nil => rfl
  | cons c cs ih => exact ih

theorem removeAll_append (nonempty : old ≠ []) (absent : ¬ old <:+: rest) :
    removeAll old 0 (old ++ rest) = rest := by
  obtain ⟨c, cs, rfl⟩ := List.exists_cons_of_ne_nil nonempty
  have here : (c :: cs).isPrefixOf (c :: (cs ++ rest)) = true :=
    List.isPrefixOf_iff_prefix.mpr ⟨rest, rfl⟩
  rw [List.cons_append, removeAll, if_pos here]
  exact (removeAll_skip cs rest).trans (removeAll_of_absent absent)

end Remove

section Strip

variable {p : Char → Bool} {cs : List Char}

theorem dropWhile_of_not (h : ∀ c ∈ cs, p c = false) : cs.dropWhile p = cs := by
  cases cs with
  | nil => rfl
  | cons c cs =>
      rw [List.dropWhile_cons, h c List.mem_cons_self]
      rfl

theorem strip_of_not (h : ∀ c ∈ cs, p c = false) : strip p cs = cs := by
  rw [strip, dropWhile_of_not h, dropWhile_of_not, List.reverse_reverse]
  intro c hc
  exact h c (List.mem_reverse.mp hc)

end Strip

end OmniSync
