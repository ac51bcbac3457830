import Mathlib.Logic.Basic
import Mathlib.Data.List.Basic

/-!
# URL-safe base64

The encoding with padding, and the lenient decoder: it skips what is not a digit, and stops at
the padding that completes a group. What was encoded is decoded again, and the text consists
of letters, digits, `-`, `_` and `=`.
-/

namespace Base64

/-- The digit of a value below 64. -/
def digit (v : Nat) : Char :=
  if v < 26 then Char.ofNat (65 + v)
  else if v < 52 then Char.ofNat (71 + v)
  else if v < 62 then Char.ofNat (v - 4)
  else if v = 62 then '-'
  else '_'

/-- The value of a digit, of this alphabet or of the standard one. -/
def value (c : Char) : Option Nat :=
  if 65 ≤ c.toNat ∧ c.toNat < 91 then some (c.toNat - 65)
  else if 97 ≤ c.toNat ∧ c.toNat < 123 then some (c.toNat - 71)
  else if 48 ≤ c.toNat ∧ c.toNat < 58 then some (c.toNat + 4)
  else if c = '-' ∨ c = '+' then some 62
  else if c = '_' ∨ c = '/' then some 63
  else none

def encode : List UInt8 → List Char
  | [] => []
  | [a] => [digit (a.toNat / 4), digit (a.toNat % 4 * 16), '=', '=']
  | [a, b] =>
      [digit (a.toNat / 4), digit (a.toNat % 4 * 16 + b.toNat / 16), digit (b.toNat % 16 * 4), '=']
  | a :: b :: c :: rest =>
      digit (a.toNat / 4) :: digit (a.toNat % 4 * 16 + b.toNat / 16) ::
        digit (b.toNat % 16 * 4 + c.toNat / 64) :: digit (c.toNat % 64) :: encode rest

/-- Decode the rest of a text, when `quad` digits of a group have been read, the bits of which
that belong to no byte yet are `left`, and `pads` padding characters. -/
def decodeFrom (quad left pads : Nat) : List Char → Option (List UInt8)
  | [] => if quad = 0 then some [] else none
  | c :: cs =>
      if c = '=' then
        if 2 ≤ quad then
          if 4 ≤ quad + (pads + 1) then some [] else decodeFrom quad left (pads + 1) cs
        else decodeFrom quad left pads cs
      else
        match value c with
        | none => decodeFrom quad left pads cs
        | some v =>
            match quad with
            | 0 => decodeFrom 1 v 0 cs
            | 1 => (decodeFrom 2 (v % 16) 0 cs).map (UInt8.ofNat (left * 4 + v / 16) :: ·)
            | 2 => (decodeFrom 3 (v % 4) 0 cs).map (UInt8.ofNat (left * 16 + v / 4) :: ·)
            | _ => (decodeFrom 0 0 0 cs).map (UInt8.ofNat (left * 64 + v) :: ·)

def decode (cs : List Char) : Option (List UInt8) := decodeFrom 0 0 0 cs

theorem value_digit {v : Nat} (h : v < 64) : value (digit v) = some v ∧ digit v ≠ '=' := by
  have all : ∀ v < 64, value (digit v) = some v ∧ digit v ≠ '=' := by decide
  exact all v h

section Step

variable {v left : Nat} {cs : List Char}

/-- What the first digit of a group does. -/
theorem decodeFrom_first (h : v < 64) (pads : Nat) :
    decodeFrom 0 left pads (digit v :: cs) = decodeFrom 1 v 0 cs := by
  rw [decodeFrom, if_neg (value_digit h).2, (value_digit h).1]
  rfl

theorem decodeFrom_second (h : v < 64) : decodeFrom 1 left 0 (digit v :: cs) =
    (decodeFrom 2 (v % 16) 0 cs).map (UInt8.ofNat (left * 4 + v / 16) :: ·) := by
  rw [decodeFrom, if_neg (value_digit h).2, (value_digit h).1]
  rfl

theorem decodeFrom_third (h : v < 64) : decodeFrom 2 left 0 (digit v :: cs) =
    (decodeFrom 3 (v % 4) 0 cs).map (UInt8.ofNat (left * 16 + v / 4) :: ·) := by
  rw [decodeFrom, if_neg (value_digit h).2, (value_digit h).1]
  rfl

theorem decodeFrom_fourth (h : v < 64) : decodeFrom 3 left 0 (digit v :: cs) =
    (decodeFrom 0 0 0 cs).map (UInt8.ofNat (left * 64 + v) :: ·) := by
  rw [decodeFrom, if_neg (value_digit h).2, (value_digit h).1]
  rfl

/-- The digits of a byte make up the byte. -/
theorem ofNat_eq (a : UInt8) {n : Nat} (h : n = a.toNat) : UInt8.ofNat n = a := by
  rw [h, UInt8.ofNat_toNat]

end Step

theorem decodeFrom_encode (bytes : List UInt8) (left : Nat) :
    decodeFrom 0 left 0 (encode bytes) = some bytes := by
  induction bytes using encode.induct generalizing left with
  | case1 => rfl
  | case2 a =>
      have ha := a.toNat_lt
      rw [encode, decodeFrom_first (by omega), decodeFrom_second (by omega), ofNat_eq a (by omega)]
      rfl
  | case3 a b =>
      have ha := a.toNat_lt
      have hb := b.toNat_lt
      rw [encode, decodeFrom_first (by omega), decodeFrom_second (by omega),
        decodeFrom_third (by omega), ofNat_eq a (by omega), ofNat_eq b (by omega)]
      rfl
  | case4 a b c rest ih =>
      have ha := a.toNat_lt
      have hb := b.toNat_lt
      have hc := c.toNat_lt
      rw [encode, decodeFrom_first (by omega), decodeFrom_second (by omega),
        decodeFrom_third (by omega), decodeFrom_fourth (by omega), ih, ofNat_eq a (by omega),
        ofNat_eq b (by omega), ofNat_eq c (by omega)]
      rfl

/-- What was encoded is decoded again. -/
theorem decode_encode (bytes : List UInt8) : decode (encode bytes) = some bytes :=
  decodeFrom_encode bytes 0

/-- The characters of the alphabet, and the padding. -/
def UrlSafe (c : Char) : Prop := c.isAlphanum = true ∨ c = '-' ∨ c = '_' ∨ c = '='

instance (c : Char) : Decidable (UrlSafe c) := inferInstanceAs (Decidable (_ ∨ _ ∨ _ ∨ _))

theorem urlSafe_digit {v : Nat} (h : v < 64) : UrlSafe (digit v) := by
  have all : ∀ v < 64, UrlSafe (digit v) := by decide
  exact all v h

/-- An encoded text needs no escaping in a URL. -/
theorem urlSafe_of_mem_encode {bytes : List UInt8} {c : Char} (hc : c ∈ encode bytes) :
    UrlSafe c := by
  have padding : UrlSafe '=' := by decide
  induction bytes using encode.induct with
  | case1 => exact (List.not_mem_nil hc).elim
  | case2 a =>
      have ha := a.toNat_lt
      simp only [encode, List.mem_cons, List.not_mem_nil, or_false] at hc
      rcases hc with rfl | rfl | rfl | rfl
      · exact urlSafe_digit (by omega)
      · exact urlSafe_digit (by omega)
      · exact padding
      · exact padding
  | case3 a b =>
      have ha := a.toNat_lt
      have hb := b.toNat_lt
      simp only [encode, List.mem_cons, List.not_mem_nil, or_false] at hc
      rcases hc with rfl | rfl | rfl | rfl
      · exact urlSafe_digit (by omega)
      · exact urlSafe_digit (by omega)
      · exact urlSafe_digit (by omega)
      · exact padding
  | case4 a b c' rest ih =>
      have ha := a.toNat_lt
      have hb := b.toNat_lt
      have hc' := c'.toNat_lt
      simp only [encode, List.mem_cons] at hc
      rcases hc with rfl | rfl | rfl | rfl | later
      · exact urlSafe_digit (by omega)
      · exact urlSafe_digit (by omega)
      · exact urlSafe_digit (by omega)
      · exact urlSafe_digit (by omega)
      · exact ih later

end Base64
