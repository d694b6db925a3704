import ClaimRelay.ClaimSet
import ClaimRelay.Decimal.Layout
import ClaimRelay.Text.Base64

/-!
# JSON values
-/

namespace ClaimRelay

inductive Json
  | null
  | bool (v : Bool)
  | int (v : Int)
  | double (v : Double)
  | string (v : String)
  | object (fields : List (String × Json))

namespace Json

/-- A double as a number; JSON has none for NaN and the infinities. -/
def ofDouble (x : Double) : Json := if x.isFinite then double x else null

def ofBytes (bytes : List UInt8) : Json := string (String.ofList (Text.base64 bytes))

def ofLocation (l : Location) : Json :=
  let optional (name : String) (field : Option Double) := (field.map fun v => (name, ofDouble v)).toList
  object <| [("latitude", ofDouble l.latitude), ("longitude", ofDouble l.longitude)]
    ++ optional "altitude" l.altitude ++ optional "accuracy" l.accuracy
    ++ optional "altitude_accuracy" l.altitudeAccuracy ++ optional "heading" l.heading
    ++ optional "speed" l.speed
    ++ (l.timestamp.map fun v => ("timestamp", int v.toInt)).toList
    ++ (l.age.map fun v => ("age", int v.toNat)).toList

def ofValue : Value → Json
  | .int v => int v.toInt
  | .uint v => int v.toNat
  | .double v => ofDouble v
  | .text v => string v
  | .bytes v => ofBytes v
  | .bool v => bool v
  | .null => null
  | .location v => ofLocation v

end Json

end ClaimRelay
