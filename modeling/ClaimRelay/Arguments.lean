import ClaimRelay.Decimal.Nearest
import ClaimRelay.Reader
import ClaimRelay.Text.DecimalDigit
import ClaimRelay.Text.Hex

/-!
# Claims given as arguments

An argument is a decimal label, a colon and a value, which is typed by how it is spelled: `true`, `false`,
`null`, decimal integers and fractions, `h'..'` for bytes, `'..'` for text. Any other value is text as it
stands. What looks like a number in the digits of any script is a number, and refused unless its digits are
ASCII and it has a place among the values.
-/

namespace ClaimRelay

inductive ArgumentError
  | invalidClaim (argument : String)
  | invalidHex (argument : String)
  deriving DecidableEq

def ArgumentError.message : ArgumentError → String
  | invalidClaim argument => s!"invalid claim argument {Text.quoted argument}: expected LABEL:VALUE"
  | invalidHex argument => s!"invalid hex in claim argument {Text.quoted argument}"

namespace Argument

/-- The number that ASCII digits stand for; there has to be one. -/
def natural? (cs : List Char) : Option Nat :=
  if cs ≠ [] ∧ cs.all Char.isDigit then
    some (cs.foldl (fun n c => n * 10 + (c.toNat - '0'.toNat)) 0)
  else none

def splitSign : List Char → Bool × List Char
  | '-' :: cs => (true, cs)
  | cs => (false, cs)

def integer? (cs : List Char) : Option Int :=
  let (negative, cs) := splitSign cs
  (natural? cs).map fun n => if negative then -n else n

def isInt64 (v : Int) : Bool := Int64.minValue.toInt ≤ v && v ≤ Int64.maxValue.toInt

def looksInteger (cs : List Char) : Bool :=
  let digits := (splitSign cs).2
  !digits.isEmpty && digits.all Text.isDecimalDigit

def integerValue? (cs : List Char) : Option Value := do
  let v ← integer? cs
  if isInt64 v then return .int (Int64.ofInt v)
  else if 0 ≤ v ∧ v < UInt64.size then return .uint (UInt64.ofNat v.toNat)
  else none

/-- The digits of a fraction: before the point, after it, and those of the exponent with its sign. -/
structure Fraction where
  whole : List Char
  part : List Char
  exponentNegative : Bool
  exponent : List Char

def splitExponent? : List Char → Option (Bool × List Char)
  | [] => some (false, ['0'])
  | c :: cs =>
    let (negative, digits) :=
      match cs with
      | '+' :: rest => (false, rest)
      | cs => splitSign cs
    if (c = 'e' ∨ c = 'E') ∧ !digits.isEmpty ∧ digits.all Text.isDecimalDigit then some (negative, digits)
    else none

/-- The fraction that a value without sign is by its shape: digits with a point before, among or after them,
or none, and an exponent or none. -/
def splitFraction? (cs : List Char) : Option Fraction := do
  let (whole, rest) := cs.span Text.isDecimalDigit
  let (part, rest) :=
    match rest with
    | '.' :: rest => rest.span Text.isDecimalDigit
    | rest => ([], rest)
  if whole.isEmpty && part.isEmpty then none
  let (exponentNegative, exponent) ← splitExponent? rest
  return ⟨whole, part, exponentNegative, exponent⟩

/-- The double nearest to the fraction, if its digits are ASCII. -/
def Fraction.nearest? (negative : Bool) (f : Fraction) : Option Double := do
  let digits ← natural? (f.whole ++ f.part)
  let e ← natural? f.exponent
  return Decimal.nearest negative ⟨digits, (if f.exponentNegative then -(e : Int) else e) - f.part.length⟩

/-- One byte of two digits, of which the first may be a plus sign that stands for nothing. -/
def hexByte? (high low : Char) : Option UInt8 := do
  let low ← Text.hexValue? low
  if high = '+' then return UInt8.ofNat low
  return UInt8.ofNat (16 * (← Text.hexValue? high) + low)

def hexBytes? : List Char → Option (List UInt8)
  | [] => some []
  | [_] => none
  | high :: low :: rest => return (← hexByte? high low) :: (← hexBytes? rest)

def between? (opening : List Char) (cs : List Char) : Option (List Char) :=
  if opening.isPrefixOf cs ∧ opening.length < cs.length ∧ cs.getLast? = some '\'' then
    some (cs.drop opening.length).dropLast
  else none

def value (argument : String) (cs : List Char) : Except ArgumentError Value :=
  let claim? (v : Option Value) : Except ArgumentError Value :=
    match v with
    | some v => pure v
    | none => throw (.invalidClaim argument)
  if cs = "true".toList then pure (.bool true)
  else if cs = "false".toList then pure (.bool false)
  else if cs = "null".toList then pure .null
  else if let some body := between? ['h', '\''] cs then
    match hexBytes? body with
    | some bytes => pure (.bytes bytes)
    | none => throw (.invalidHex argument)
  else if let some body := between? ['\''] cs then pure (.text (String.ofList body))
  else if looksInteger cs then claim? (integerValue? cs)
  else
    let (negative, digits) := splitSign cs
    match splitFraction? digits with
    | some f => claim? ((f.nearest? negative).map .double)
    | none => pure (.text (String.ofList cs))

def claim (argument : String) : Except ArgumentError Claim :=
  match argument.toList.span (· != ':') with
  | (label, _ :: rest) =>
    match integer? label with
    | some l =>
      if isInt64 l then return ⟨Int64.ofInt l, ← value argument rest⟩
      else throw (.invalidClaim argument)
    | none => throw (.invalidClaim argument)
  | (_, []) => throw (.invalidClaim argument)

end Argument

structure Arguments where
  claims : List Claim
  claimsRead : Nat := 0

namespace Arguments

/-- The first argument that is refused refuses all. -/
def parse (arguments : List String) : Except ArgumentError Arguments :=
  return { claims := ← arguments.mapM Argument.claim }

def nextClaim : Step Arguments (Option Claim) := do
  let s ← get
  match s.claims[s.claimsRead]? with
  | some c =>
    set { s with claimsRead := s.claimsRead + 1 }
    return some c
  | none => return none

def reader : Reader Arguments where
  nextClaim := nextClaim
  enter _ := return .noMore
  exit := throw (.structural .argumentsHaveNoSubmodules)
  nestedToken index := throw (.structural (.argumentsHaveNoToken index))
  rewind s := { s with claimsRead := 0 }
  extent s := s.claims.length + 2

end Arguments

end ClaimRelay
