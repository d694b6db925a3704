import ClaimRelay.Reader

/-!
# Reading a claim set

A cursor stands in one claim set of a tree, before one of its claims. It is kept as the path of indexes from
the root, so that rewinding and reading again is exact.
-/

namespace ClaimRelay

/-- A submodule gone down into, and how many claims had been read above it. -/
structure Descent where
  index : Nat
  claimsRead : Nat
  deriving DecidableEq

structure Cursor where
  root : ClaimSet
  /-- The descents, the innermost first. -/
  path : List Descent := []
  claimsRead : Nat := 0

namespace Cursor

def depth (s : Cursor) : Nat := s.path.length

/-- The claim set that a path leads to. -/
def follow (root : ClaimSet) : List Descent → Except Error ClaimSet
  | [] => pure root
  | step :: above => do
    match (← follow root above).entries[step.index]? with
    | some (.submodule _ claims entries) => pure ⟨claims, entries⟩
    | _ => throw (.structural (.lostPath step.index))

def current : Step Cursor ClaimSet := fun s => (follow s.root s.path, s)

def nextClaim : Step Cursor (Option Claim) := do
  let here ← current
  match here.claims[(← get).claimsRead]? with
  | some c =>
    modify fun s => { s with claimsRead := s.claimsRead + 1 }
    return some c
  | none => return none

def enter (index : Nat) : Step Cursor Slot := do
  let here ← current
  match here.entries[index]? with
  | none => return .noMore
  | some (.token t) => return .nested t.name
  | some (.submodule name _ _) =>
    modify fun s => { s with path := ⟨index, s.claimsRead⟩ :: s.path, claimsRead := 0 }
    return .entered name

def exit : Step Cursor Unit := do
  match (← get).path with
  | [] => throw (.structural .exitAtTop)
  | step :: above => modify fun s => { s with path := above, claimsRead := step.claimsRead }

def nestedToken (index : Nat) : Step Cursor NestedToken := do
  let here ← current
  match here.entries[index]? with
  | some (.token t) => return t
  | some (.submodule name _ _) => throw (.structural (.notAToken index name))
  | none => throw (.structural (.noEntry index))

def rewind (s : Cursor) : Cursor := { s with path := [], claimsRead := 0 }

def reader : Reader Cursor where
  nextClaim := nextClaim
  enter := enter
  exit := exit
  nestedToken := nestedToken
  rewind := rewind
  extent s := s.root.extent

end Cursor

end ClaimRelay
