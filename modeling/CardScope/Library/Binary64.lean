import Mathlib

/-! # Rounding to binary64

The result of an operation is the nearest number of the format, the even one of two. Exponents are
not bounded above, so no result is infinite.
-/

namespace CardScope.Library.Binary64

/-- The integer part of the binary logarithm. -/
def exponent (q : ℚ) : ℤ :=
  let k : ℤ := Nat.log2 q.num.natAbs - Nat.log2 q.den
  if (2 : ℚ) ^ k ≤ |q| then k else k - 1

/-- The unit in the last place. -/
def ulp (q : ℚ) : ℚ := 2 ^ max (exponent q - 52) (-1074)

def nearestEven (q : ℚ) : ℤ :=
  if q - ⌊q⌋ < 1 / 2 then ⌊q⌋
  else if 1 / 2 < q - ⌊q⌋ then ⌊q⌋ + 1
  else if 2 ∣ ⌊q⌋ then ⌊q⌋ else ⌊q⌋ + 1

def round (q : ℚ) : ℚ := nearestEven (q / ulp q) * ulp q

end CardScope.Library.Binary64
