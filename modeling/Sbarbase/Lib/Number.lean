import Mathlib.Data.Int.Notation
/-!
# Whole numbers of the source language

A JavaScript number that the modelled code accepts is always checked with
`Number.isSafeInteger` first, so numbers are integers here and the check is the
range of a double.
-/

namespace Sbarbase.Lib

def maxSafeInteger : ℤ := 9007199254740991

/-- `Number.isSafeInteger`, on a number that is whole. -/
def isSafeInteger (n : ℤ) : Bool := -maxSafeInteger ≤ n && n ≤ maxSafeInteger

end Sbarbase.Lib
