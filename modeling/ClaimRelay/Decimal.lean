/-!
# Decimals
-/

namespace ClaimRelay

/-- The number `digits · 10 ^ exponent`. -/
structure Decimal where
  digits : Nat
  exponent : Int
  deriving DecidableEq

namespace Decimal

/-- `n · base ^ e` for a positive `e`, and `n` for any other. -/
def scaled (n base : Nat) (e : Int) : Nat := n * Nat.pow base e.toNat

def digitCount (n : Nat) : Nat := (Nat.toDigits 10 n).length

/-- The power of ten at which the first digit stands. -/
def leadingExponent (d : Decimal) : Int := d.exponent + digitCount d.digits - 1

/-- The same number without trailing zero digits. -/
def normalize (d : Decimal) : Decimal :=
  if h : 0 < d.digits ∧ d.digits % 10 = 0 then normalize ⟨d.digits / 10, d.exponent + 1⟩ else d
termination_by d.digits
decreasing_by omega

end Decimal

end ClaimRelay
