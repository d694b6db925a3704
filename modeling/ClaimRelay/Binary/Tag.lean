/-!
# Tags of the binary format

The first byte of an element says what it is. Its bit `0x20` says whether the body is again a list of
elements.
-/

namespace ClaimRelay.Binary

inductive Tag
  | boolean
  | integer
  | octetString
  | null
  | double
  | utf8String
  | token
  | location
  | unsigned
  | claim
  | sect
  | submodule
  | nested
  | other (byte : UInt8)
  deriving DecidableEq

namespace Tag

def byte : Tag → UInt8
  | boolean => 0x01
  | integer => 0x02
  | octetString => 0x04
  | null => 0x05
  | double => 0x09
  | utf8String => 0x0c
  | token => 0x30
  | location => 0x31
  | unsigned => 0x42
  | claim => 0xa0
  | sect => 0xa1
  | submodule => 0xa2
  | nested => 0xa3
  | other b => b

def known : List Tag :=
  [boolean, integer, octetString, null, double, utf8String, token, location, unsigned, claim, sect,
    submodule, nested]

def ofByte (b : UInt8) : Tag := (known.find? (·.byte == b)).getD (other b)

/-- Whether the body of an element with this first byte is a list of elements. -/
def isConstructed (b : UInt8) : Bool := b &&& 0x20 == 0x20

end Tag

end ClaimRelay.Binary
