import ClaimRelay.Claim
import ClaimRelay.Decimal.Layout
import ClaimRelay.Text.Hex
import ClaimRelay.Text.Quoted

/-!
# How claims are shown in diagnostics
-/

namespace ClaimRelay

/-- Doubles are shown to their shortest digits and never with an exponent; of two equally near the upper. -/
def Double.spelling (x : Double) : String :=
  if x.isNaN then "NaN"
  else if x.isFinite then Decimal.Layout.text ⟨.awayFromZero, fun _ => true, false⟩ x
  else if x.isNegative then "-inf"
  else "inf"

def Value.spelling : Value → String
  | int v => toString v.toInt
  | uint v => toString v.toNat
  | double v => v.spelling
  | text v => Text.quoted v
  | bytes v => "h'" ++ String.ofList (Text.hex v) ++ "'"
  | bool true => "true"
  | bool false => "false"
  | null => "null"
  | location v => "location(" ++ v.latitude.spelling ++ ", " ++ v.longitude.spelling ++ ")"

def Claim.spelling (c : Claim) : String := toString c.label.toInt ++ ": " ++ c.value.spelling

end ClaimRelay
