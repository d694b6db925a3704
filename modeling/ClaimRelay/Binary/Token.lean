import ClaimRelay.Binary.Node
import ClaimRelay.ClaimSet.Cursor

/-!
# Reading tokens

A token holds claims, then at most one section:

* token `0x30`: claims, section?
* claim `0xa0`: integer label, value
* section `0xa1`: submodules and nested tokens
* submodule `0xa2`: text name, token
* nested token `0xa3`: text name, integer kind, octet string

The whole token is read and checked before the first claim is served.
-/

namespace ClaimRelay.Binary

namespace Node

def data (expected : Tag) (place : Place) : Node → Except Refusal (List UInt8)
  | leaf tag bytes => if tag = expected then pure bytes else throw (.unexpectedTag tag.byte place)
  | branch tag _ => throw (.unexpectedTag tag.byte place)

def text (place : Place) (node : Node) : Except Refusal String := do
  decodeText (← node.data .utf8String place)

def plainValue : Node → Except Refusal Value
  | branch tag _ => throw (.unexpectedTag tag.byte .claimValue)
  | leaf .boolean bytes =>
    if bytes = [0x00] then pure (.bool false)
    else if bytes = [0xff] then pure (.bool true)
    else throw (.invalidValue .boolean)
  | leaf .integer bytes => .int <$> decodeSigned bytes
  | leaf .unsigned bytes => .uint <$> decodeUnsigned bytes
  | leaf .double bytes => .double <$> decodeDouble bytes
  | leaf .utf8String bytes => .text <$> decodeText bytes
  | leaf .octetString bytes => pure (.bytes bytes)
  | leaf .null bytes => if bytes = [] then pure .null else throw (.invalidValue .null)
  | leaf tag _ => throw (.unexpectedTag tag.byte .claimValue)

end Node

structure PartialLocation where
  latitude : Option Double := none
  longitude : Option Double := none
  altitude : Option Double := none
  accuracy : Option Double := none
  altitudeAccuracy : Option Double := none
  heading : Option Double := none
  speed : Option Double := none
  timestamp : Option Int64 := none
  age : Option UInt64 := none

namespace PartialLocation

/-- Whether the field with this label has been read; fields are labelled 1 to 9. -/
def has? (p : PartialLocation) : Label → Option Bool
  | 1 => some p.latitude.isSome
  | 2 => some p.longitude.isSome
  | 3 => some p.altitude.isSome
  | 4 => some p.accuracy.isSome
  | 5 => some p.altitudeAccuracy.isSome
  | 6 => some p.heading.isSome
  | 7 => some p.speed.isSome
  | 8 => some p.timestamp.isSome
  | 9 => some p.age.isSome
  | _ => none

def put? (p : PartialLocation) : Label → Value → Option PartialLocation
  | 1, .double v => some { p with latitude := some v }
  | 2, .double v => some { p with longitude := some v }
  | 3, .double v => some { p with altitude := some v }
  | 4, .double v => some { p with accuracy := some v }
  | 5, .double v => some { p with altitudeAccuracy := some v }
  | 6, .double v => some { p with heading := some v }
  | 7, .double v => some { p with speed := some v }
  | 8, .int v => some { p with timestamp := some v }
  | 9, .uint v => some { p with age := some v }
  | _, _ => none

def addField (p : PartialLocation) (field : Claim) : Except Refusal PartialLocation :=
  match p.has? field.label with
  | none => throw (.invalidValue .locationField)
  | some true => throw (.invalidValue .duplicateLocationField)
  | some false =>
    match p.put? field.label field.value with
    | none => throw (.invalidValue .locationField)
    | some p => pure p

def complete (p : PartialLocation) : Except Refusal Location :=
  match p.latitude, p.longitude with
  | some latitude, some longitude =>
    pure { latitude, longitude, altitude := p.altitude, accuracy := p.accuracy,
           altitudeAccuracy := p.altitudeAccuracy, heading := p.heading, speed := p.speed,
           timestamp := p.timestamp, age := p.age }
  | _, _ => throw (.invalidValue .locationWithoutPosition)

end PartialLocation

namespace Node

mutual

def claim : Node → Except Refusal Claim
  | branch .claim [label, node] => do
    let label ← decodeSigned (← label.data .integer .claimLabel)
    pure ⟨label, ← value label node⟩
  | branch .claim _ => throw (.invalidValue .claim)
  | branch tag _ | leaf tag _ => throw (.unexpectedTag tag.byte .claim)

/-- The value under a label. Only one label takes a location, and that is looked at first. -/
def value (label : Label) : Node → Except Refusal Value
  | branch .location fields =>
    if label = locationLabel then do
      let p ← addFields {} fields
      .location <$> p.complete
    else throw (.unexpectedStructured label)
  | node => node.plainValue

def addFields (p : PartialLocation) : List Node → Except Refusal PartialLocation
  | [] => pure p
  | node :: rest => do
    let p ← p.addField (← claim node)
    addFields p rest

end

mutual

def claimSet : Node → Except Refusal ClaimSet
  | branch .token parts => do
    let (claims, entries) ← body false parts
    pure ⟨claims, entries⟩
  | branch tag _ | leaf tag _ => throw (.unexpectedTag tag.byte .token)

/-- The claims and entries of a token; nothing follows the section. -/
def body (sectionSeen : Bool) : List Node → Except Refusal (List Claim × List Entry)
  | [] => pure ([], [])
  | node :: rest =>
    match node with
    | branch .claim parts =>
      if sectionSeen then throw (.unexpectedTag Tag.claim.byte .tokenBody)
      else do
        let c ← claim (branch .claim parts)
        let (claims, entries) ← body false rest
        pure (c :: claims, entries)
    | branch .sect nodes =>
      if sectionSeen then throw (.unexpectedTag Tag.sect.byte .tokenBody)
      else do
        let here ← entries nodes
        let (claims, more) ← body true rest
        pure (claims, here ++ more)
    | branch tag _ | leaf tag _ => throw (.unexpectedTag tag.byte .tokenBody)

def entries : List Node → Except Refusal (List Entry)
  | [] => pure []
  | node :: rest => do
    let first ← entry node
    pure (first :: (← entries rest))

def entry : Node → Except Refusal Entry
  | branch .submodule [name, token] => do
    let name ← name.text .submoduleName
    let inner ← claimSet token
    pure (.submodule name inner.claims inner.entries)
  | branch .submodule _ => throw (.invalidValue .submodule)
  | branch .nested [name, kind, bytes] => do
    let kind ← decodeSigned (← kind.data .integer .nestedTokenKind)
    if kind < 0 ∨ UInt32.size ≤ kind.toInt then throw (.invalidValue .nestedTokenKind)
    let name ← name.text .nestedTokenName
    let bytes ← bytes.data .octetString .nestedToken
    pure (.token ⟨.ofCode (UInt32.ofNat kind.toInt.toNat), name, bytes⟩)
  | branch .nested _ => throw (.invalidValue .nestedToken)
  | branch tag _ | leaf tag _ => throw (.unexpectedTag tag.byte .sect)

end

end Node

/-- The claim set that a token holds; the token has to be all there is. -/
def decode (bytes : List UInt8) : Except Refusal ClaimSet := do
  if bytes.isEmpty then throw .empty
  let (node, rest) ← Node.parse bytes
  if rest ≠ [] then throw (.trailingBytes rest.length)
  node.claimSet

def open? (bytes : List UInt8) : Except Refusal Cursor := return { root := ← decode bytes }

end ClaimRelay.Binary
