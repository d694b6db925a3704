import ClaimRelay.Reader
import ClaimRelay.Writer

/-!
# Walks

A walk carries everything a reader serves over to a writer, in the reader's order: the claims of a level,
then its entries by index, each submodule before the entry after it. The outermost level always has a
section; an inner one only when it has an entry. The walk keeps its own stack of levels, at most as many as
the limit allows, and the first failure ends it.
-/

namespace ClaimRelay

/-- A level whose entries are being visited. -/
structure Level where
  next : Nat
  sectionOpen : Bool
  /-- What opening the level answered; the outermost level was not opened. -/
  handle : Option Nat
  deriving DecidableEq

/-- The level after its entry at `next`, whose section is open from there on. -/
def Level.afterEntry (level : Level) : Level := ⟨level.next + 1, true, level.handle⟩

/-- Where a walk stands, with the levels further out, the innermost of them first. -/
inductive Walk
  /-- Among the claims of a level, which was opened with the handle. -/
  | claims (handle : Option Nat) (outer : List Level)
  | entries (level : Level) (outer : List Level)
  | finished
  deriving DecidableEq

namespace Walk

variable {ς : Type}

def beginning : Walk := .claims none []

def openSection (w : Writer ς) (level : Level) : Step ς Unit :=
  if level.sectionOpen then pure () else w.startSection

/-- Where a walk goes on once a level is done: in the level around it, if there is one. -/
def resume : List Level → Walk
  | [] => .finished
  | above :: further => .entries above further

def goUp (r : Reader ς) (w : Writer ς) : Option Nat → Step ς Unit
  | some handle => do
    r.exit
    w.closeSubmodule handle
  | none => return

def leave (r : Reader ς) (w : Writer ς) (level : Level) : Step ς Unit := do
  if level.sectionOpen then w.endSection
  goUp r w level.handle

/-- Carries the nested token at an index over. A writer that takes none is asked before the token is read. -/
def carryToken (r : Reader ς) (w : Writer ς) (index : Nat) : Step ς Unit := do
  let taken ← modifyGet w.takesTokens
  unless taken do throw (.unsupported .nestedToken)
  let token ← r.nestedToken index
  w.token token

/-- Carries one item over: a claim, the end of the claims, an entry or the end of the entries. -/
def advance (limit : Nat) (r : Reader ς) (w : Writer ς) : Walk → Step ς Walk
  | .claims handle outer => do
    match ← r.nextClaim with
    | some c =>
      w.claim c
      return .claims handle outer
    | none =>
      if handle.isNone then w.startSection
      return .entries ⟨0, handle.isNone, handle⟩ outer
  | .entries level outer => do
    match ← r.enter level.next with
    | .noMore =>
      leave r w level
      return resume outer
    | .entered name =>
      openSection w level
      if limit ≤ outer.length then throw (.tooDeep limit)
      let handle ← w.openSubmodule name
      return .claims (some handle) (level.afterEntry :: outer)
    | .nested _ =>
      openSection w level
      carryToken r w level.next
      return .entries level.afterEntry outer
  | .finished => return .finished

/-- Goes on from where the walk stands, for at most so many items. -/
def proceed (limit : Nat) (r : Reader ς) (w : Writer ς) : Nat → Walk → Step ς Unit
  | _, .finished => return
  | 0, _ => throw (.structural .overrun)
  | n + 1, walk => do proceed limit r w n (← advance limit r w walk)

def defaultLimit : Nat := 16

/-- Carries the level the reader stands in, from its next claim on, over to the writer. -/
def run (limit : Nat) (r : Reader ς) (w : Writer ς) : Step ς Unit := do
  proceed limit r w (r.extent (← get)) beginning

end Walk

end ClaimRelay
