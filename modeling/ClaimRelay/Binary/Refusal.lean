import ClaimRelay.Error
import ClaimRelay.Text.Hex

/-!
# Why bytes are no token
-/

namespace ClaimRelay.Binary

inductive Place
  | token
  | tokenBody
  | sect
  | submoduleName
  | nestedToken
  | nestedTokenKind
  | nestedTokenName
  | claim
  | claimLabel
  | claimValue
  deriving DecidableEq

def Place.name : Place → String
  | token => "token"
  | tokenBody => "token body"
  | sect => "submodules section"
  | submoduleName => "submodule name"
  | nestedToken => "nested token"
  | nestedTokenKind => "nested token kind"
  | nestedTokenName => "nested token name"
  | claim => "claim"
  | claimLabel => "claim label"
  | claimValue => "claim value"

inductive Content
  | submodule
  | nestedToken
  | nestedTokenKind
  | claim
  | integer
  | unsigned
  | boolean
  | double
  | null
  | utf8String
  | locationField
  | duplicateLocationField
  | locationWithoutPosition
  deriving DecidableEq

def Content.name : Content → String
  | submodule => "submodule"
  | nestedToken => "nested token"
  | nestedTokenKind => "nested token kind"
  | claim => "claim"
  | integer => "INTEGER"
  | unsigned => "UNSIGNED"
  | boolean => "BOOLEAN"
  | double => "DOUBLE"
  | null => "NULL"
  | utf8String => "UTF8String"
  | locationField => "location field"
  | duplicateLocationField => "duplicate location field"
  | locationWithoutPosition => "location without latitude and longitude"

inductive Refusal
  /-- The bytes end inside a length or a body. -/
  | cutShort
  /-- A length says that it takes no byte, or more than eight. -/
  | lengthTooLarge
  /-- The bytes end before a tag or the first byte of a length. -/
  | incomplete
  | empty
  | trailingBytes (count : Nat)
  | tooDeep (limit : Nat)
  | unexpectedTag (found : UInt8) (place : Place)
  | invalidValue (content : Content)
  /-- A value with parts under a label that takes none. -/
  | unexpectedStructured (label : Label)
  deriving DecidableEq

namespace Refusal

def message : Refusal → String
  | cutShort => "parser error Eof"
  | lengthTooLarge => "parser error TooLarge"
  | incomplete => "parser incomplete: Size(1)"
  | empty => "empty input"
  | trailingBytes count => s!"{count} trailing bytes after the token"
  | tooDeep limit => s!"constructed elements nested deeper than {limit}"
  | unexpectedTag found place =>
    "unexpected tag 0x" ++ String.ofList (Text.hexPair found) ++ " in " ++ place.name
  | invalidValue content => content.name ++ ": invalid encoding"
  | unexpectedStructured label =>
    s!"structured value under label {label}, which carries no structured payload"

def toError : Refusal → Error
  | tooDeep limit => .tooDeep limit
  | refusal => .decoding refusal.message

end Refusal

end ClaimRelay.Binary
