import ClaimRelay.Writer

/-!
# Building a claim set

The writer that puts a claim set together again from the calls, and checks their order on the way.
-/

namespace ClaimRelay

structure OpenLevel where
  name : String := ""
  claims : List Claim := []
  entries : List Entry := []
  status : Section := .pending

/-- The levels being built: there is always an innermost one. -/
structure Builder where
  top : OpenLevel := {}
  /-- The levels around it, the innermost first. -/
  outer : List OpenLevel := []

namespace Builder

/-- The innermost level, whose section has to be running. -/
def runningTop : Step Builder OpenLevel := do
  let top := (← get).top
  if top.status = .running then return top else throw (.structural .noSectionOpen)

def setTop (top : OpenLevel) : Step Builder Unit := modify fun s => { s with top }

def claim (c : Claim) : Step Builder Unit := do
  let top := (← get).top
  if top.status ≠ .pending then throw (.structural (.claimAfterSection c.label))
  setTop { top with claims := top.claims ++ [c] }

def startSection : Step Builder Unit := do
  let top := (← get).top
  if top.status ≠ .pending then throw (.structural .sectionAlreadyStarted)
  setTop { top with status := .running }

def endSection : Step Builder Unit := do
  let top ← runningTop
  setTop { top with status := .ended }

def putEntry (entry : Entry) : Step Builder Unit := do
  let top ← runningTop
  setTop { top with entries := top.entries ++ [entry] }

def openSubmodule (name : String) : Step Builder Nat := do
  let _ ← runningTop
  modify fun s => ⟨{ name }, s.top :: s.outer⟩
  return (← get).outer.length

/-- Closing takes the level off before it looks at its section. -/
def closeSubmodule (handle : Nat) : Step Builder Unit := do
  let s ← get
  match s.outer with
  | [] => throw (.structural (.closesOtherDepth handle 0))
  | above :: outer =>
    if handle ≠ s.outer.length then throw (.structural (.closesOtherDepth handle s.outer.length))
    set (⟨above, outer⟩ : Builder)
    if s.top.status = .running then throw (.structural (.closedWithNamedSectionOpen s.top.name))
    putEntry (.submodule s.top.name s.top.claims s.top.entries)

def writer : Writer Builder where
  claim := claim
  startSection := startSection
  endSection := endSection
  openSubmodule := openSubmodule
  closeSubmodule := closeSubmodule
  takesTokens s := (true, s)
  token t := putEntry (.token t)

def finish (s : Builder) : Except Error ClaimSet :=
  if s.outer.length ≠ 0 then throw (.structural (.submodulesStillOpen s.outer.length))
  else if s.top.status = .running then throw (.structural .sectionStillOpen)
  else pure ⟨s.top.claims, s.top.entries⟩

end Builder

end ClaimRelay
