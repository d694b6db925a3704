import ClaimRelay.Claim

/-!
# Claim sets

A claim set is what a token holds: its claims, then its entries in order. An entry is a submodule, which is
again a claim set under a name, or a nested token, which is carried as it is and never looked into. Labels
and names may repeat.
-/

namespace ClaimRelay

/-- The format of a nested token, known to the parties by its code. -/
inductive TokenKind
  | claimSet
  | json
  | other (code : UInt32)
  deriving DecidableEq

namespace TokenKind

def code : TokenKind → UInt32
  | claimSet => 1
  | json => 2
  | other n => n

def ofCode (n : UInt32) : TokenKind :=
  if n = 1 then claimSet else if n = 2 then json else other n

end TokenKind

structure NestedToken where
  kind : TokenKind
  name : String
  bytes : List UInt8
  deriving DecidableEq

inductive Entry
  | submodule (name : String) (claims : List Claim) (entries : List Entry)
  | token (token : NestedToken)

structure ClaimSet where
  claims : List Claim := []
  entries : List Entry := []

mutual

/-- How many submodules an entry nests, itself included. -/
def Entry.depth : Entry → Nat
  | .submodule _ _ entries => deepest entries + 1
  | .token _ => 0

def Entry.deepest : List Entry → Nat
  | [] => 0
  | entry :: rest => max entry.depth (Entry.deepest rest)

end

namespace ClaimSet

def depth (m : ClaimSet) : Nat := Entry.deepest m.entries

end ClaimSet

mutual

/-- How many items there are to look at in an entry: itself, its claims, its entries, and the end of each
of these lists. -/
def Entry.extent : Entry → Nat
  | .submodule _ claims entries => claims.length + Entry.totalExtent entries + 3
  | .token _ => 1

def Entry.totalExtent : List Entry → Nat
  | [] => 0
  | entry :: rest => entry.extent + Entry.totalExtent rest

end

def ClaimSet.extent (m : ClaimSet) : Nat := m.claims.length + Entry.totalExtent m.entries + 2

end ClaimRelay
