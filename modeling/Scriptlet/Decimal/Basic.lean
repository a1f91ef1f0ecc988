/-!
# Decimals

A decimal is a natural number times a power of ten. It is read from digits with or without a
fraction (`Decimal.parse?`) and rounded to the nearest binary number (`Decimal.toFloat`).
-/

namespace Scriptlet

/-- The number `coefficient * 10 ^ exponent`. -/
structure Decimal where
  coefficient : Nat
  exponent : Int
deriving DecidableEq

namespace Decimal

/-- The number that a list of decimal digits writes. -/
def natOfDigits (digits : List Char) : Nat :=
  digits.foldl (fun n c => 10 * n + (c.toNat - '0'.toNat)) 0

/-- Reads `digits` or `digits.digits`, each run of digits nonempty. -/
def parse? (text : List Char) : Option Decimal :=
  let whole := text.takeWhile Char.isDigit
  match text.dropWhile Char.isDigit with
  | [] => if whole = [] then none else some ⟨natOfDigits whole, 0⟩
  | point :: fraction =>
    if whole = [] ∨ point ≠ '.' ∨ fraction = [] ∨ ¬ fraction.all Char.isDigit then none
    else some ⟨natOfDigits (whole ++ fraction), -(fraction.length : Int)⟩

/-- The number of digits after the point when the decimal is written without a power of ten. -/
def places (d : Decimal) : Nat :=
  (-d.exponent).toNat

/-- The decimal without its point: its value is `scaled / 10 ^ places`. -/
def scaled (d : Decimal) : Nat :=
  d.coefficient * Nat.pow 10 d.exponent.toNat

/-- The nearest binary number, infinite past the largest one. -/
def toFloat (d : Decimal) : Float :=
  Float.ofScientific d.scaled true d.places

/-- The same value with no trailing zero in the coefficient, for at most `fuel` zeros. -/
def trim : Nat → Decimal → Decimal
  | 0, d => d
  | fuel + 1, d =>
    if d.coefficient ≠ 0 ∧ d.coefficient % 10 = 0 then trim fuel ⟨d.coefficient / 10, d.exponent + 1⟩
    else d

end Decimal

end Scriptlet
