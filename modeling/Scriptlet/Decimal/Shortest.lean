import Scriptlet.Decimal.Basic

/-!
# The shortest decimal of a binary number

Of the decimals that read back as a given positive finite number, `Decimal.shortest` takes one with
the fewest digits, of these the nearest, and of two equally near the larger. A decimal of `n` digits
near the number is one of the two neighbours of its exact value on a grid of powers of ten, so
`n = 1, 2, …, 17` are tried in turn; `Decimal.toFloat_of_mem_hits` is the test that each passes.
-/

namespace Scriptlet

/-- The exact value of a positive finite binary number as a quotient of natural numbers. -/
structure Quotient where
  num : Nat
  den : Nat

namespace Quotient

/-- Reads the eleven exponent bits and fifty-two fraction bits; the sign is left out. -/
def ofFloat (x : Float) : Quotient :=
  let bits := x.toBits.toNat
  let fraction := bits % Nat.pow 2 52
  let biased := bits / Nat.pow 2 52 % Nat.pow 2 11
  let mantissa := if biased = 0 then fraction else Nat.pow 2 52 + fraction
  let shift := max biased 1
  ⟨mantissa * Nat.pow 2 (shift - 1075), Nat.pow 2 (1075 - shift)⟩

/-- How many decimal digits a natural number is written with. -/
def digitCount (n : Nat) : Nat :=
  (Nat.toDigits 10 n).length

/-- The least `k` with the value below `10 ^ k`, for a positive value. -/
def magnitude (q : Quotient) : Int :=
  if q.den ≤ q.num then digitCount (q.num / q.den)
  else
    let d := digitCount (q.den / q.num)
    if q.num * Nat.pow 10 (d - 1) = q.den then 2 - d else 1 - d

end Quotient

namespace Decimal

/-- The neighbours of the value on the grid of `10 ^ exponent`, those that read back as `x`, and
the nearer first. -/
def hits (x : Float) (q : Quotient) (exponent : Int) : List Decimal :=
  let num := q.num * Nat.pow 10 (-exponent).toNat
  let den := q.den * Nat.pow 10 exponent.toNat
  let lower := num / den
  let below := trim 20 ⟨lower, exponent⟩
  let above := trim 20 ⟨lower + 1, exponent⟩
  let ordered := if 2 * (num % den) < den then [below, above] else [above, below]
  ordered.filter fun d => d.toFloat = x

theorem toFloat_of_mem_hits {x : Float} {q : Quotient} {exponent : Int} {d : Decimal}
    (h : d ∈ hits x q exponent) : d.toFloat = x := by
  simpa using (List.mem_filter.1 h).2

/-- All the digits of the exact value. -/
def exact (q : Quotient) : Decimal :=
  let twos := q.den.log2
  trim 1100 ⟨q.num * Nat.pow 5 twos, -(twos : Int)⟩

/-- The shortest decimal that reads back as the positive finite number `x`. -/
def shortest (x : Float) : Decimal :=
  let q := Quotient.ofFloat x
  let k := q.magnitude
  ((List.range 17).findSome? fun n => (hits x q (k - (n + 1 : Nat))).head?).getD (exact q)

end Decimal

end Scriptlet
