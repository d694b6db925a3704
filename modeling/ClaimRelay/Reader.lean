import ClaimRelay.ClaimSet
import ClaimRelay.Step

/-!
# Readers

A reader serves one claim set at a time: its claims one after the other, its entries by index. It is given
by what each call does to a state, and nothing else is asked of it.
-/

namespace ClaimRelay

inductive Slot
  /-- A submodule, which the reader has gone down into. -/
  | entered (name : String)
  /-- A nested token; the reader stays where it is. -/
  | nested (name : String)
  | noMore
  deriving DecidableEq

structure Reader (ς : Type) where
  /-- The next claim at this level, `none` once there are no more. -/
  nextClaim : Step ς (Option Claim)
  enter : Nat → Step ς Slot
  exit : Step ς Unit
  nestedToken : Nat → Step ς NestedToken
  /-- Goes back to the first claim of the outermost level. -/
  rewind : ς → ς
  /-- How many items a walk from here may meet before the reader has come to its end. -/
  extent : ς → Nat

variable {σ τ : Type}

/-- The reader beside another state. -/
def Reader.onFst (r : Reader σ) : Reader (σ × τ) where
  nextClaim := r.nextClaim.onFst
  enter i := (r.enter i).onFst
  exit := r.exit.onFst
  nestedToken i := (r.nestedToken i).onFst
  rewind s := (r.rewind s.1, s.2)
  extent s := r.extent s.1

end ClaimRelay
