/-!
# Binary64 numbers as bits

A double is carried, compared and printed by its 64 bits, so that NaN payloads and the sign of zero
survive. A finite one has the magnitude `significand · 2 ^ exponent`.
-/

namespace ClaimRelay

structure Double where
  bits : UInt64
  deriving DecidableEq, Inhabited

namespace Double

def isNegative (x : Double) : Bool := 0x8000000000000000 ≤ x.bits.toNat

def exponentField (x : Double) : Nat := x.bits.toNat / 0x10000000000000 % 0x800

def fraction (x : Double) : Nat := x.bits.toNat % 0x10000000000000

def isFinite (x : Double) : Bool := x.exponentField != 0x7ff

def isNaN (x : Double) : Bool := x.exponentField == 0x7ff && x.fraction != 0

def significand (x : Double) : Nat :=
  if x.exponentField = 0 then x.fraction else 0x10000000000000 + x.fraction

def exponent (x : Double) : Int := if x.exponentField = 0 then -1074 else x.exponentField - 1075

/-- Below the least number of a binade the neighbour is half as far away as above it. -/
def narrowBelow (x : Double) : Bool := x.fraction == 0 && 1 < x.exponentField

def infinite : Nat := 0x7ff0000000000000

/-- The double with the given sign and the magnitude whose bits are `magnitude`. -/
def ofMagnitude (negative : Bool) (magnitude : Nat) : Double :=
  ⟨UInt64.ofNat (if negative then 0x8000000000000000 + magnitude else magnitude)⟩

end Double

end ClaimRelay
