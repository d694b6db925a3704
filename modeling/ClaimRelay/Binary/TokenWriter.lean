import ClaimRelay.Binary.Element
import ClaimRelay.Render

/-!
# Writing tokens

The length of an element is only known once its body is written, so the header of a body is put in front of
it when it closes. The writer keeps a frame for each body that is still open, with the place where it starts.
A call may take a frame off and then fail; it stays off.
-/

namespace ClaimRelay.Binary

def locationFields (l : Location) : List Claim :=
  [⟨1, .double l.latitude⟩, ⟨2, .double l.longitude⟩]
    ++ [(3, l.altitude), (4, l.accuracy), (5, l.altitudeAccuracy), (6, l.heading), (7, l.speed)].filterMap
      (fun (label, field) => field.map fun v => ⟨label, .double v⟩)
    ++ (l.timestamp.map fun v => (⟨8, .int v⟩ : Claim)).toList
    ++ (l.age.map fun v => (⟨9, .uint v⟩ : Claim)).toList

def encodePlain : Value → List UInt8
  | .int v => element .integer (encodeSigned v)
  | .uint v => element .unsigned (encodeUnsigned v)
  | .double v => element .double (encodeDouble v)
  | .text v => element .utf8String (Text.utf8 v)
  | .bytes v => element .octetString v
  | .bool v => element .boolean [if v then 0xff else 0x00]
  | .null => element .null []
  | .location _ => []

def encodeLabelled (label : Label) (value : List UInt8) : List UInt8 :=
  element .claim (element .integer (encodeSigned label) ++ value)

def encodeLocation (l : Location) : List UInt8 :=
  element .location ((locationFields l).flatMap fun c => encodeLabelled c.label (encodePlain c.value))

/-- The bytes of a claim; a location has its one label. -/
def encodeClaim (c : Claim) : Except Error (List UInt8) :=
  match c.value with
  | .location l =>
    if c.label = locationLabel then pure (encodeLabelled c.label (encodeLocation l))
    else throw (.structural (.locationUnderLabel c.label))
  | value => pure (encodeLabelled c.label (encodePlain value))

def encodeNested (t : NestedToken) : List UInt8 :=
  element .nested (element .utf8String (Text.utf8 t.name)
    ++ element .integer (encodeSigned (Int64.ofNat t.kind.code.toNat)) ++ element .octetString t.bytes)

/-- A body that is still open, with the size of the output before it. -/
inductive Frame
  | token (start : Nat) (status : Section)
  | sect (start entries : Nat)
  | submodule (start : Nat)
  deriving DecidableEq

structure TokenWriter where
  out : Buffer := .emptyMeasuring
  frames : List Frame := []
  submodules : Nat := 0

namespace TokenWriter

def put (bytes : List UInt8) : Step TokenWriter Unit :=
  .update fun s => return { s with out := ← s.out.append bytes }

/-- Puts the header in front of all that was written since `start`. -/
def close (tag : Tag) (start : Nat) : Step TokenWriter Unit :=
  .update fun s => return { s with out := ← s.out.insert start (header tag (s.out.size - start)) }

def push (frame : Frame) : Step TokenWriter Unit := modify fun s => { s with frames := frame :: s.frames }

def pop? : Step TokenWriter (Option Frame) :=
  modifyGet fun s => (s.frames.head?, { s with frames := s.frames.tail })

def claim (c : Claim) : Step TokenWriter Unit := do
  match (← get).frames with
  | .token _ .pending :: _ => put (← Step.ofExcept (encodeClaim c))
  | _ => throw (.structural (.claimOutsideToken c.label))

def startSection : Step TokenWriter Unit := do
  let s ← get
  match s.frames with
  | .token start .pending :: outer =>
    set { s with frames := .sect s.out.size 0 :: .token start .running :: outer }
  | _ => throw (.structural .sectionStartedTwice)

/-- An empty section leaves nothing in the output. -/
def endSection : Step TokenWriter Unit := do
  match ← pop? with
  | some (.sect start entries) =>
    if 0 < entries then close .sect start
    match (← get).frames with
    | .token start .running :: outer => modify fun s => { s with frames := .token start .ended :: outer }
    | _ => throw (.structural .sectionOutsideToken)
  | _ => throw (.structural .noSectionToEnd)

def countEntry : Step TokenWriter Unit := do
  let s ← get
  match s.frames with
  | .sect start entries :: outer => set { s with frames := .sect start (entries + 1) :: outer }
  | _ => throw (.structural .entryOutsideSection)

def openSubmodule (name : String) : Step TokenWriter Nat := do
  countEntry
  push (.submodule (← get).out.size)
  put (element .utf8String (Text.utf8 name))
  push (.token (← get).out.size .pending)
  modify fun s => { s with submodules := s.submodules + 1 }
  return (← get).submodules

def closeSubmodule (handle : Nat) : Step TokenWriter Unit := do
  let s ← get
  if handle ≠ s.submodules ∨ s.submodules = 0 then
    throw (.structural (.closingDepth handle s.submodules))
  match ← pop? with
  | some (.token start status) =>
    if status = .running then throw (.structural .closedWithSectionOpen)
    close .token start
    match ← pop? with
    | some (.submodule start) =>
      close .submodule start
      modify fun s => { s with submodules := s.submodules - 1 }
    | _ => throw (.structural .submoduleFrameMissing)
  | _ => throw (.structural .closedWithSectionOpen)

def token (t : NestedToken) : Step TokenWriter Unit := do
  countEntry
  put (encodeNested t)

def start (out : Buffer) : Step TokenWriter Unit := set { out, frames := [.token 0 .pending] : TokenWriter }

def complete : Step TokenWriter Unit := do
  match (← get).frames with
  | [.token 0 status] =>
    if status = .running then throw (.structural .elementsStillOpen)
    modify fun s => { s with frames := [] }
    close .token 0
  | _ => throw (.structural .elementsStillOpen)

def finish : Step TokenWriter Buffer := do
  complete
  modifyGet fun s => (s.out, { s with out := .emptyMeasuring })

def renderer : Renderer TokenWriter where
  claim := claim
  startSection := startSection
  endSection := endSection
  openSubmodule := openSubmodule
  closeSubmodule := closeSubmodule
  takesTokens s := (true, s)
  token := token
  streaming _ := false
  start := start
  finish := finish

end TokenWriter

/-- What a reader serves, as a token. -/
def render {σ : Type} (limit : Nat) (r : Reader σ) (s : σ) : Except Error (List UInt8) :=
  (Render.run limit r.onFst TokenWriter.renderer.onSnd (s, ({} : TokenWriter))).1

end ClaimRelay.Binary
