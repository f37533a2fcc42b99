/-!
# Ranges of code points

A property of characters is a list of closed ranges of code points.
-/

namespace Realm.Text

/-- The code points from `first` to `last`, both included. -/
abbrev CodeRange := Nat × Nat

def CodeRange.hold (ranges : List CodeRange) (c : Char) : Bool :=
  ranges.any fun (first, last) => first ≤ c.toNat && c.toNat ≤ last

end Realm.Text
