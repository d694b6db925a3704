import ClaimRelay.Buffer
import ClaimRelay.ClaimSet
import ClaimRelay.Step

/-!
# Writers

A writer takes the claims of a level, then at most one section, inside which submodules are opened and closed
and nested tokens are put. Opening a submodule answers with its depth, which closing it has to give back.
-/

namespace ClaimRelay

/-- How far the one section of a level has come. -/
inductive Section
  | pending
  | running
  | ended
  deriving DecidableEq

structure Writer (ς : Type) where
  claim : Claim → Step ς Unit
  startSection : Step ς Unit
  endSection : Step ς Unit
  openSubmodule : String → Step ς Nat
  closeSubmodule : Nat → Step ς Unit
  /-- Whether nested tokens can be put at all. -/
  takesTokens : ς → Bool × ς
  token : NestedToken → Step ς Unit

/-- A writer whose output goes into a buffer. -/
structure Renderer (ς : Type) extends Writer ς where
  /-- Whether one pass into a growing buffer is enough. -/
  streaming : ς → Bool
  /-- Begins a new token in the buffer. -/
  start : Buffer → Step ς Unit
  finish : Step ς Buffer

variable {σ τ : Type}

/-- The writer beside another state. -/
def Writer.onSnd (w : Writer τ) : Writer (σ × τ) where
  claim c := (w.claim c).onSnd
  startSection := w.startSection.onSnd
  endSection := w.endSection.onSnd
  openSubmodule name := (w.openSubmodule name).onSnd
  closeSubmodule depth := (w.closeSubmodule depth).onSnd
  takesTokens s := let (b, t) := w.takesTokens s.2; (b, (s.1, t))
  token t := (w.token t).onSnd

def Renderer.onSnd (w : Renderer τ) : Renderer (σ × τ) where
  toWriter := w.toWriter.onSnd
  streaming s := w.streaming s.2
  start b := (w.start b).onSnd
  finish := w.finish.onSnd

end ClaimRelay
