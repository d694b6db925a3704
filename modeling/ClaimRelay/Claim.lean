import ClaimRelay.Double

/-!
# Claims

A claim is one labelled value. Labels are integers that only formats give a meaning to; the one label the
library itself knows is that of the location, the only value with parts.
-/

namespace ClaimRelay

abbrev Label := Int64

structure Location where
  latitude : Double
  longitude : Double
  altitude : Option Double := none
  accuracy : Option Double := none
  altitudeAccuracy : Option Double := none
  heading : Option Double := none
  speed : Option Double := none
  /-- Seconds since the epoch at which the location was measured. -/
  timestamp : Option Int64 := none
  /-- Seconds since the measurement. -/
  age : Option UInt64 := none
  deriving DecidableEq

inductive Value
  | int (v : Int64)
  | uint (v : UInt64)
  | double (v : Double)
  | text (v : String)
  | bytes (v : List UInt8)
  | bool (v : Bool)
  | null
  | location (v : Location)
  deriving DecidableEq

structure Claim where
  label : Label
  value : Value
  deriving DecidableEq

def locationLabel : Label := 264

namespace Value

def kind : Value → String
  | int _ => "int64"
  | uint _ => "uint64"
  | double _ => "double"
  | text _ => "text"
  | bytes _ => "bytes"
  | bool _ => "bool"
  | null => "null"
  | location _ => "location"

/-- The one label a value with parts belongs under; plain values go under any. -/
def ownLabel? : Value → Option Label
  | location _ => some locationLabel
  | _ => none

end Value

end ClaimRelay
