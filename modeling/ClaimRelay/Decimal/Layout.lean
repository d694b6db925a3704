import ClaimRelay.Decimal.Shortest

/-!
# How finite doubles are laid out as decimals
-/

namespace ClaimRelay.Decimal

structure Layout where
  tie : Tie
  /-- Whether a number whose first digit stands at this power of ten is written without an exponent. -/
  positional : Int → Bool
  /-- Whether a whole number written without an exponent ends in a point and a zero. -/
  pointZero : Bool

/-- The digits with the point after, inside or before them. -/
def positionalDigits (pointZero : Bool) (d : Decimal) : List Char :=
  let ds := Nat.toDigits 10 d.digits
  if 0 ≤ d.exponent then
    ds ++ List.replicate d.exponent.toNat '0' ++ if pointZero then ['.', '0'] else []
  else
    let whole := (ds.length + d.exponent).toNat
    if 0 < whole then ds.take whole ++ '.' :: ds.drop whole
    else '0' :: '.' :: List.replicate (-d.exponent - ds.length).toNat '0' ++ ds

/-- One digit, the others after a point, and the signed exponent of the first. -/
def scientificDigits (d : Decimal) : List Char :=
  let ds := Nat.toDigits 10 d.digits
  let e := d.leadingExponent
  ds.take 1 ++ (if ds.length = 1 then [] else '.' :: ds.drop 1)
    ++ 'e' :: (if e < 0 then '-' else '+') :: Nat.toDigits 10 e.natAbs

def Layout.text (l : Layout) (x : Double) : String :=
  let d := if x.significand = 0 then ⟨0, 0⟩ else shortest l.tie x
  let ds := if l.positional d.leadingExponent then positionalDigits l.pointZero d else scientificDigits d
  String.ofList (if x.isNegative then '-' :: ds else ds)

end ClaimRelay.Decimal
