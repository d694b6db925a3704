import ClaimRelay.Json.Layout
import ClaimRelay.Render
import ClaimRelay.Text.Utf8

/-!
# Writing JSON

A token becomes an object: its claims under their labels, then, if it has entries, an object of these under
`submods`. A submodule is again such an object, a nested token has its kind and its bytes. No object has a
key twice. The text goes out as it comes, in one pass; what has gone out before a failure stays, and so does
what the writer has noted by then.
-/

namespace ClaimRelay.Json

def entriesKey : String := "submods"

/-- An object that is still open, with its keys so far. -/
inductive Frame
  | token (keys : List String) (status : Section)
  /-- The entries of the token before it; their object is begun with the first of them. -/
  | sect (keys : List String) (begun : Bool)
  deriving DecidableEq

structure TextWriter where
  format : Format
  out : Buffer := .emptyGrowable
  frames : List Frame := []
  submodules : Nat := 0

def TextWriter.ofLayout (layout : Layout) : TextWriter := { format := { layout } }

/-- What is being written when the output has no room for it. -/
inductive Part
  | mark
  | scalar

def Part.failure : Part → Error → Error
  | mark, e => .encoding ("write error: " ++ e.message)
  | scalar, e => .encoding ("serialize error: " ++ e.message)

theorem Part.failure_ne_halted (part : Part) (e : Error) : part.failure e ≠ .halted := by
  cases part <;> exact nofun

namespace TextWriter

def put (part : Part) (piece : List Char) : Step TextWriter Unit :=
  .update fun s =>
    match s.out.append (Text.utf8 (String.ofList piece)) with
    | .ok out => .ok { s with out }
    | .error e => .error (part.failure e)

def putCopies (piece : List Char) : Nat → Step TextWriter Unit
  | 0 => return
  | n + 1 => do put .mark piece; putCopies piece n

def putScalar (v : Json) : Step TextWriter Unit := v.scalarPieces.forM (put .scalar)

def reformat (f : Format → Format) : Step TextWriter Unit := modify fun s => { s with format := f s.format }

/-- The mark, and when lines are broken the indentation of the line that it ends with. -/
def putIndented (mark unit : List Char) : Step TextWriter Unit := do
  put .mark mark
  putCopies unit (← get).format.depth

def beginObject : Step TextWriter Unit := do
  reformat .objectBegun
  put .mark ['\x7b']

def countEnded : Step TextWriter Unit :=
  .update fun s =>
    match s.format.objectEnded? with
    | some format => .ok { s with format }
    | none => .error .halted

theorem countEnded_of_some {s : TextWriter} {format : Format} (h : s.format.objectEnded? = some format) :
    countEnded s = (.ok (), { s with format }) := by
  simp only [countEnded, Step.update, h]

theorem countEnded_of_none {s : TextWriter} (h : s.format.objectEnded? = none) :
    countEnded s = (.error .halted, s) := by
  simp only [countEnded, Step.update, h]

def endObject : Step TextWriter Unit := do
  countEnded
  match (← get).format with
  | ⟨.indented unit, _, true⟩ => putIndented ['\n'] unit
  | _ => pure ()
  put .mark ['\x7d']

def beginField (first : Bool) (key : String) : Step TextWriter Unit := do
  match (← get).format.layout with
  | .compact =>
    unless first do put .mark [',']
    putScalar (.string key)
    put .mark [':']
  | .indented unit =>
    putIndented (if first then ['\n'] else [',', '\n']) unit
    putScalar (.string key)
    put .mark [':', ' ']

def endField : Step TextWriter Unit := reformat .fieldEnded

mutual

def putValue : Json → Step TextWriter Unit
  | .object fields => do
    beginObject
    putFields true fields
    endObject
  | v => putScalar v

def putFields (first : Bool) : List (String × Json) → Step TextWriter Unit
  | [] => return
  | (key, v) :: rest => do
    beginField first key
    putValue v
    endField
    putFields false rest

end

def setTop (frame : Frame) : Step TextWriter Unit := modify fun s => { s with frames := frame :: s.frames.tail }

def pop? : Step TextWriter (Option Frame) :=
  modifyGet fun s => (s.frames.head?, { s with frames := s.frames.tail })

/-- The keys with one more, which must not be among them. -/
def addKey (key : String) (keys : List String) : Step TextWriter (List String) :=
  if key ∈ keys then throw (.structural (.repeatedKey key)) else return key :: keys

def claim (c : Claim) : Step TextWriter Unit := do
  match (← get).frames with
  | .token keys .pending :: _ =>
    let key := toString c.label.toInt
    setTop (.token (← addKey key keys) .pending)
    beginField keys.isEmpty key
    putValue (.ofValue c.value)
    endField
  | _ => throw (.structural (.claimOutsideToken c.label))

def startSection : Step TextWriter Unit := do
  let s ← get
  match s.frames with
  | .token keys .pending :: outer => set { s with frames := .sect [] false :: .token keys .running :: outer }
  | _ => throw (.structural .sectionStartedTwice)

def endSection : Step TextWriter Unit := do
  match ← pop? with
  | some (.sect _ begun) =>
    if begun then
      endObject
      endField
    match (← get).frames with
    | .token keys .running :: _ => setTop (.token keys .ended)
    | _ => throw (.structural .sectionOutsideToken)
  | _ => throw (.structural .noSectionToEnd)

/-- Begins the object of the entries, which goes into the token around them. -/
def beginEntries : Step TextWriter Unit := do
  let s ← get
  match s.frames with
  | inner :: .token keys status :: outer =>
    let more ← addKey entriesKey keys
    set { s with frames := inner :: .token more status :: outer }
    beginField keys.isEmpty entriesKey
    beginObject
  | _ => throw (.structural .unnestedSection)

def beginEntry (name : String) : Step TextWriter Unit := do
  match (← get).frames with
  | .sect keys begun :: _ =>
    setTop (.sect keys true)
    unless begun do beginEntries
    setTop (.sect (← addKey name keys) true)
    beginField keys.isEmpty name
  | _ => throw (.structural (.namedEntryOutsideSection name))

def openSubmodule (name : String) : Step TextWriter Nat := do
  beginEntry name
  beginObject
  modify fun s => { s with frames := .token [] .pending :: s.frames, submodules := s.submodules + 1 }
  return (← get).submodules

def closeSubmodule (handle : Nat) : Step TextWriter Unit := do
  let s ← get
  if handle ≠ s.submodules ∨ s.submodules = 0 then
    throw (.structural (.closingDepth handle s.submodules))
  match ← pop? with
  | some (.token _ status) =>
    if status = .running then throw (.structural .closedWithSectionOpen)
    endObject
    endField
    modify fun s => { s with submodules := s.submodules - 1 }
  | _ => throw (.structural .closedWithSectionOpen)

def token (t : NestedToken) : Step TextWriter Unit := do
  beginEntry t.name
  putValue (.object [("kind", .int t.kind.code.toNat), ("token", .ofBytes t.bytes)])
  endField

/-- Begins a new object; the format goes on from where it was. -/
def start (out : Buffer) : Step TextWriter Unit := do
  modify fun s => { s with out, frames := [.token [] .pending], submodules := 0 }
  beginObject

def finish : Step TextWriter Buffer := do
  match (← get).frames with
  | [.token _ status] =>
    if status = .running then throw (.structural .objectsStillOpen)
    modify fun s => { s with frames := [] }
    endObject
    modifyGet fun s => (s.out, { s with out := .emptyGrowable })
  | _ => throw (.structural .objectsStillOpen)

def renderer : Renderer TextWriter where
  claim := claim
  startSection := startSection
  endSection := endSection
  openSubmodule := openSubmodule
  closeSubmodule := closeSubmodule
  takesTokens s := (true, s)
  token := token
  streaming _ := true
  start := start
  finish := finish

end TextWriter

/-- What a reader serves, as JSON text. -/
def render {σ : Type} (layout : Layout) (limit : Nat) (r : Reader σ) (s : σ) : Except Error (List UInt8) :=
  (Render.run limit r.onFst TextWriter.renderer.onSnd (s, TextWriter.ofLayout layout)).1

end ClaimRelay.Json
