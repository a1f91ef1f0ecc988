import Scriptlet.Decimal.Shortest

/-!
# The text of a number

A number is written with the digits of its shortest decimal. A `Decimal.Style` says which numbers
are written without a power of ten and what marks a number without fraction.
-/

namespace Scriptlet

namespace Decimal

structure Style where
  /-- Whether a number whose first digit stands for `10 ^ e` is written without a power of ten. -/
  positional : Int → Bool
  /-- What follows a number without fraction that is written without a power of ten. -/
  whole : String

/-- As programs print numbers: never a power of ten, and no mark on whole numbers. -/
def Style.plain : Style where
  positional _ := true
  whole := ""

/-- As descriptions show numbers: at least one decimal, and a power of ten from `10 ^ 16` on and
below `10 ^ -4`. -/
def Style.detailed : Style where
  positional e := decide (-5 < e ∧ e < 16)
  whole := ".0"

def digits (n : Nat) : List Char :=
  Nat.toDigits 10 n

/-- The digits of `n` with zeros in front up to `width`. -/
def padded (width n : Nat) : List Char :=
  List.replicate (width - (digits n).length) '0' ++ digits n

/-- The decimal written without a power of ten, `digits` or `digits.digits`. -/
def positional (d : Decimal) (whole : String) : String :=
  if d.places = 0 then String.ofList (digits d.scaled) ++ whole
  else String.ofList
    (digits (d.scaled / Nat.pow 10 d.places)
      ++ '.' :: padded d.places (d.scaled % Nat.pow 10 d.places))

/-- The power of ten that the first digit stands for. -/
def leading (d : Decimal) : Int :=
  d.exponent + (digits d.coefficient).length - 1

/-- The decimal written with one digit before the point and a power of ten. -/
def scientific (d : Decimal) : String :=
  let mantissa :=
    match digits d.coefficient with
    | first :: second :: rest => first :: '.' :: second :: rest
    | short => short
  String.ofList mantissa ++ "e" ++ toString d.leading

def write (style : Style) (d : Decimal) : String :=
  if style.positional d.leading then d.positional style.whole else d.scientific

/-- A positive or zero number that is finite. -/
def writeMagnitude (style : Style) (x : Float) : String :=
  if x == 0 then write style ⟨0, 0⟩ else write style (shortest x)

/-- Any number; a negative zero keeps its sign, and a number that is none has no sign. -/
def display (style : Style) (x : Float) : String :=
  if x.isNaN then "NaN"
  else
    let sign := if x.toBits.toNat < Nat.pow 2 63 then "" else "-"
    sign ++ if x.isInf then "inf" else writeMagnitude style x.abs

end Decimal

end Scriptlet
