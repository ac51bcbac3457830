import Mathlib.Algebra.Order.Floor.Ring
import Mathlib.Data.Int.Log
import Mathlib.Data.Rat.Floor
import Mathlib.Tactic.FieldSimp
import Mathlib.Tactic.NormNum

/-!
# Numbers in decimal notation, and doubles

The text of a floating-point number denotes a decimal number. The double that is read from the
text is the nearest one, which may be another number: even when the text denotes an integer.
-/

/-- A number in decimal notation: its digits without the point, and how many of them stand behind
the point once the exponent has been applied. -/
structure Decimal where
  negative : Bool
  digits : Nat
  scale : Int
  deriving DecidableEq

namespace Decimal

/-- The digits with the sign. -/
def signed (d : Decimal) : Int := if d.negative then -d.digits else d.digits

/-- The number that is denoted. -/
def value (d : Decimal) : ℚ := d.signed / 10 ^ d.scale

/-- The integer that is denoted, if no digit stands behind the point. -/
def whole (d : Decimal) : Int := d.signed * 10 ^ (-d.scale).toNat

theorem whole_eq_value {d : Decimal} (h : d.scale ≤ 0) : (d.whole : ℚ) = d.value := by
  obtain ⟨n, scale⟩ : ∃ n : Nat, d.scale = -n := ⟨(-d.scale).toNat, by omega⟩
  unfold whole value
  rw [scale, zpow_neg, zpow_natCast, div_inv_eq_mul, neg_neg, Int.toNat_natCast]
  push_cast
  rfl

theorem value_eq_zero {d : Decimal} (h : d.digits = 0) : d.value = 0 := by
  simp [value, signed, h]

section Text

def digitsOf (cs : List Char) : Nat := cs.foldl (fun n c => n * 10 + (c.toNat - 48)) 0

/-- The exponent, as it stands behind the `e`. -/
def exponentOf : List Char → Int
  | '-' :: cs => -digitsOf cs
  | '+' :: cs => digitsOf cs
  | cs => digitsOf cs

/-- Read `-123.45e+67`. -/
def ofText (text : String) : Decimal :=
  let negative := text.toList.head? == some '-'
  let body := if negative then text.toList.tail else text.toList
  let mantissa := body.takeWhile (fun c => c != 'e')
  let whole := mantissa.takeWhile (fun c => c != '.')
  let fraction := (mantissa.dropWhile (fun c => c != '.')).tail
  { negative := negative
    digits := digitsOf (whole ++ fraction)
    scale := fraction.length - exponentOf (body.dropWhile (fun c => c != 'e')).tail }

end Text

end Decimal

section Double

/-- The nearest integer, and of two of them the even one. -/
def halfEven (q : ℚ) : Int :=
  if q - ⌊q⌋ < 1 / 2 ∨ q - ⌊q⌋ = 1 / 2 ∧ ⌊q⌋ % 2 = 0 then ⌊q⌋ else ⌊q⌋ + 1

/-- The exponent of the last of the 53 bits of a double. -/
def lastBit (q : ℚ) : Int := max (Int.log 2 |q| - 52) (-1074)

/-- The double that is nearest to a number in the range of doubles. -/
def nearestDouble (q : ℚ) : ℚ := halfEven (q / 2 ^ lastBit q) * 2 ^ lastBit q

end Double
