import Mathlib.Order.Defs.LinearOrder
import Mathlib.Data.List.Lex
import Mathlib.Data.Nat.Basic

/-!
# Numerals of a fixed width

`pad b k n` are the last `k` digits of `n` in a base up to sixteen, and `read b k` reads `k`
digits back. Numerals of one width are ordered like their values: `pad_lt_pad_iff`.
-/

namespace Digits

/-- A digit up to fifteen, in lower case. -/
def digit (n : Nat) : Char := if n < 10 then Char.ofNat (48 + n) else Char.ofNat (87 + n)

/-- The value of a digit. Both cases of a letter are read. -/
def hexValue (c : Char) : Option Nat :=
  if 48 ≤ c.toNat ∧ c.toNat < 58 then some (c.toNat - 48)
  else if 65 ≤ c.toNat ∧ c.toNat < 71 then some (c.toNat - 55)
  else if 97 ≤ c.toNat ∧ c.toNat < 103 then some (c.toNat - 87)
  else none

/-- The value of a digit in some base. -/
def value (b : Nat) (c : Char) : Option Nat := (hexValue c).filter (fun v => decide (v < b))

/-- The number of numerals with `k` digits. -/
def place (b : Nat) : Nat → Nat
  | 0 => 1
  | k + 1 => place b k * b

def pad (b : Nat) : Nat → Nat → List Char
  | 0, _ => []
  | k + 1, n => digit (n / place b k % b) :: pad b k n

/-- Read `k` digits. -/
def read (b : Nat) : Nat → Nat → List Char → Option (Nat × List Char)
  | 0, acc, cs => some (acc, cs)
  | _ + 1, _, [] => none
  | k + 1, acc, c :: cs => (value b c).bind (fun v => read b k (acc * b + v) cs)

theorem value_digit {b n : Nat} (base : b ≤ 16) (h : n < b) : value b (digit n) = some n := by
  have all : ∀ n < 16, hexValue (digit n) = some n := by decide
  rw [value, all n (h.trans_le base), Option.filter_some, if_pos (decide_eq_true h)]

theorem digit_lt_digit_iff {m n : Nat} (hm : m < 16) (hn : n < 16) :
    digit m < digit n ↔ m < n := by
  have all : ∀ m < 16, ∀ n < 16, (digit m < digit n ↔ m < n) := by decide
  exact all m hm n hn

theorem digit_inj {m n : Nat} (hm : m < 16) (hn : n < 16) (same : digit m = digit n) : m = n := by
  have all : ∀ m < 16, ∀ n < 16, digit m = digit n → m = n := by decide
  exact all m hm n hn same

@[simp] theorem length_pad (b k n : Nat) : (pad b k n).length = k := by
  induction k with
  | zero => rfl
  | succ k ih => rw [pad, List.length_cons, ih]

theorem place_pos {b : Nat} (positive : 0 < b) (k : Nat) : 0 < place b k := by
  induction k with
  | zero => exact Nat.one_pos
  | succ k ih => exact Nat.mul_pos ih positive

theorem mod_place_succ (b k n : Nat) :
    n % place b (k + 1) = n / place b k % b * place b k + n % place b k := by
  rw [place, Nat.mod_mul, Nat.add_comm, Nat.mul_comm]

/-- What is written is read back. -/
theorem read_pad {b : Nat} (positive : 0 < b) (base : b ≤ 16) (k n acc : Nat) (rest : List Char) :
    read b k acc (pad b k n ++ rest) = some (acc * place b k + n % place b k, rest) := by
  induction k generalizing acc with
  | zero => rw [place, Nat.mul_one, Nat.mod_one, Nat.add_zero]; rfl
  | succ k ih =>
      rw [pad, List.cons_append, read, value_digit base (Nat.mod_lt _ positive), Option.bind_some, ih,
        mod_place_succ, place, Nat.add_mul, Nat.mul_assoc, Nat.mul_comm b, Nat.add_assoc]

theorem read_pad_of_lt {b : Nat} (positive : 0 < b) (base : b ≤ 16) {k n : Nat}
    (h : n < place b k) (rest : List Char) : read b k 0 (pad b k n ++ rest) = some (n, rest) := by
  rw [read_pad positive base, Nat.zero_mul, Nat.zero_add, Nat.mod_eq_of_lt h]

/-- The characters of a numeral are digits. -/
theorem exists_digit_of_mem_pad {b k n : Nat} (positive : 0 < b) {c : Char} (hc : c ∈ pad b k n) :
    ∃ v < b, c = digit v := by
  induction k with
  | zero => exact (List.not_mem_nil hc).elim
  | succ k ih =>
      rcases List.mem_cons.mp hc with rfl | later
      · exact ⟨_, Nat.mod_lt _ positive, rfl⟩
      · exact ih later

section Order

variable {xs ys as bs : List Char}

/-- Texts with first parts of one length are ordered by these first. -/
theorem append_lt_append_iff (h : xs.length = ys.length) :
    xs ++ as < ys ++ bs ↔ xs < ys ∨ xs = ys ∧ as < bs := by
  induction xs generalizing ys with
  | nil =>
      cases ys with
      | nil => simp
      | cons y ys => cases h
  | cons x xs ih =>
      cases ys with
      | nil => cases h
      | cons y ys =>
          simp only [List.cons_append, List.cons_lt_cons_iff, ih (Nat.succ.inj h), List.cons.injEq]
          tauto

end Order

/-- Numerals of one width are ordered like their values. -/
theorem pad_lt_pad_iff {b : Nat} (positive : 0 < b) (base : b ≤ 16) (k m n : Nat) :
    pad b k m < pad b k n ↔ m % place b k < n % place b k := by
  induction k with
  | zero => simp [pad, place, Nat.mod_one]
  | succ k ih =>
      have hm := Nat.mod_lt (m / place b k) positive
      have hn := Nat.mod_lt (n / place b k) positive
      have rm := Nat.mod_lt m (place_pos positive k)
      have rn := Nat.mod_lt n (place_pos positive k)
      rw [pad, pad, List.cons_lt_cons_iff, ih, mod_place_succ, mod_place_succ,
        digit_lt_digit_iff (hm.trans_le base) (hn.trans_le base)]
      constructor
      · rintro (less | ⟨same, less⟩)
        · have step := Nat.mul_le_mul_right (place b k) (Nat.succ_le_of_lt less)
          rw [Nat.succ_mul] at step
          omega
        · rw [digit_inj (hm.trans_le base) (hn.trans_le base) same]
          omega
      · intro less
        rcases Nat.lt_trichotomy (m / place b k % b) (n / place b k % b) with lt | eq | gt
        · exact .inl lt
        · refine .inr ⟨congrArg digit eq, ?_⟩
          rw [eq] at less
          omega
        · have step := Nat.mul_le_mul_right (place b k) (Nat.succ_le_of_lt gt)
          rw [Nat.succ_mul] at step
          omega

theorem pad_lt_pad_of_lt {b : Nat} (positive : 0 < b) (base : b ≤ 16) {k m n : Nat}
    (hm : m < place b k) (hn : n < place b k) : pad b k m < pad b k n ↔ m < n := by
  rw [pad_lt_pad_iff positive base, Nat.mod_eq_of_lt hm, Nat.mod_eq_of_lt hn]

theorem pad_inj_of_lt {b : Nat} (positive : 0 < b) (base : b ≤ 16) {k m n : Nat}
    (hm : m < place b k) (hn : n < place b k) : pad b k m = pad b k n ↔ m = n := by
  constructor
  · intro same
    have read := read_pad_of_lt positive base hm []
    rw [same, read_pad_of_lt positive base hn] at read
    exact (Prod.mk.inj (Option.some.inj read)).1.symm
  · rintro rfl
    rfl

end Digits
