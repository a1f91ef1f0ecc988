/-!
# Classes of characters

A class of characters is a table of ranges of code points. The tables are those of Unicode 17.
-/

namespace Scriptlet.Text

/-- A class of characters: ranges of code points in order, ends included. -/
structure CharClass where
  ranges : Array (Nat × Nat)

def CharClass.contains (k : CharClass) (c : Char) : Bool :=
  k.ranges.any fun r => r.1 ≤ c.toNat && c.toNat ≤ r.2

end Scriptlet.Text
