import ClaimRelay.Decimal
import ClaimRelay.Double

/-!
# The double nearest to a decimal

Ties go to the even significand, magnitudes past the largest double to infinity.
-/

namespace ClaimRelay.Decimal

/-- The quotient rounded to the nearest natural, ties to even. -/
def roundQuotient (num den : Nat) : Nat :=
  let n := num / den
  let rest := 2 * (num % den)
  if den < rest || rest == den && n % 2 == 1 then n + 1 else n

/-- The bits of the magnitude nearest to `num / den`, both positive. The significand has 53 bits unless
that asks for an exponent below the least one; a carry out of it moves on to the next binade. -/
def nearestMagnitude (num den : Nat) : Nat :=
  let guess := (Nat.log2 num : Int) - Nat.log2 den - 53
  let fits := scaled num 2 (-guess) / scaled den 2 guess < 0x20000000000000
  let q := max (if fits then guess else guess + 1) (-1074)
  min ((q + 1074).toNat * 0x10000000000000 + roundQuotient (scaled num 2 (-q)) (scaled den 2 q)) Double.infinite

/-- The double nearest to the decimal under the given sign. The first and the last binade end the range
early, so that no power of ten of more than a few hundred digits beyond the given ones is built. -/
def nearest (negative : Bool) (d : Decimal) : Double :=
  .ofMagnitude negative <|
    if d.digits = 0 ∨ d.leadingExponent < -330 then 0
    else if 310 < d.leadingExponent then Double.infinite
    else nearestMagnitude (scaled d.digits 10 d.exponent) (scaled 1 10 (-d.exponent))

end ClaimRelay.Decimal
