import ClaimRelay.Walk

/-!
# Delivery

What a walk does to its writer, said by recursion on the claim set instead of by a stack of levels.
-/

namespace ClaimRelay.Writer

variable {τ : Type}

def offer (w : Writer τ) (t : NestedToken) : Step τ Unit := do
  let taken ← modifyGet w.takesTokens
  unless taken do throw (.unsupported .nestedToken)
  w.token t

def claims (w : Writer τ) : List Claim → Step τ Unit
  | [] => return
  | first :: rest => do
    w.claim first
    w.claims rest

mutual

def entry (limit : Nat) (w : Writer τ) : Nat → Entry → Step τ Unit
  | depth, .submodule name claims entries => do
    if limit ≤ depth then throw (.tooDeep limit)
    let handle ← w.openSubmodule name
    w.claims claims
    w.bracket limit (depth + 1) entries
    w.closeSubmodule handle
  | _, .token t => w.offer t

/-- Puts the section of a submodule, which has one when there is an entry. -/
def bracket (limit : Nat) (w : Writer τ) : Nat → List Entry → Step τ Unit
  | _, [] => return
  | depth, first :: rest => do
    w.startSection
    w.entry limit depth first
    w.entries limit depth rest
    w.endSection

def entries (limit : Nat) (w : Writer τ) : Nat → List Entry → Step τ Unit
  | _, [] => return
  | depth, first :: rest => do
    w.entry limit depth first
    w.entries limit depth rest

end

/-- Puts a whole claim set; the outermost level always has a section. -/
def deliver (limit : Nat) (w : Writer τ) (m : ClaimSet) : Step τ Unit := do
  w.claims m.claims
  w.startSection
  w.entries limit 0 m.entries
  w.endSection

end ClaimRelay.Writer
