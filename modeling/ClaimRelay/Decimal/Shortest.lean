import ClaimRelay.Decimal
import ClaimRelay.Double

/-!
# The shortest decimal that reads back

A decimal reads back as a finite double when it lies among the reals that round to it: between the two
midpoints to the neighbours, ends included exactly when the significand is even. `shortest` tries the
grids of one digit, two digits and so on, and takes the point nearest to the double on the first grid
that has one that reads back. All comparisons are exact, between naturals.
-/

namespace ClaimRelay.Decimal

/-- Which of two equally near points of a grid is the nearest. -/
inductive Tie
  | toEven
  | awayFromZero
  deriving DecidableEq

/-- Whether the decimal rounds to the magnitude of the finite double. -/
def readsBack (x : Double) (d : Decimal) : Bool :=
  let number := scaled (scaled d.digits 10 d.exponent) 2 (2 - x.exponent)
  let quarters (n : Nat) := scaled (scaled n 2 (x.exponent - 2)) 10 (-d.exponent)
  let low := quarters (4 * x.significand - if x.narrowBelow then 1 else 2)
  let high := quarters (4 * x.significand + 2)
  low < number && number < high || x.significand % 2 == 0 && (number == low || number == high)

/-- The point of the grid `10 ^ g` that reads back, the nearest if both neighbours do. -/
def onGrid? (tie : Tie) (x : Double) (g : Int) : Option Decimal :=
  let num := scaled (scaled x.significand 2 x.exponent) 10 (-g)
  let den := scaled (scaled 1 2 (-x.exponent)) 10 g
  let below := num / den
  let rest := 2 * (num % den)
  let up := den < rest || rest == den && (tie == .awayFromZero || below % 2 == 1)
  let (near, far) := if up then (below + 1, below) else (below, below + 1)
  [near, far].map (⟨·, g⟩) |>.find? (readsBack x)

/-- The least `k` with the magnitude of the nonzero finite double below `10 ^ k`. -/
def scale (x : Double) : Int :=
  digitCount (scaled (scaled x.significand 2 x.exponent) 10 324 / scaled 1 2 (-x.exponent)) - 324

/-- The magnitude of the finite double to its last digit. -/
def exact (x : Double) : Decimal :=
  ⟨scaled (scaled x.significand 2 x.exponent) 5 (-x.exponent), min x.exponent 0⟩

def shortest (tie : Tie) (x : Double) : Decimal :=
  ((List.range 17).findSome? fun (i : Nat) => onGrid? tie x (scale x - 1 - i)).getD (exact x) |>.normalize

end ClaimRelay.Decimal
