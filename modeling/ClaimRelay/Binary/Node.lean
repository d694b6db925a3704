import ClaimRelay.Binary.Element

/-!
# Trees of elements

Bytes are read into a tree before anything is known of tokens: a constructed element becomes a branch, any
other a leaf. Branches nest 64 deep and no deeper.
-/

namespace ClaimRelay.Binary

inductive Node
  | leaf (tag : Tag) (data : List UInt8)
  | branch (tag : Tag) (children : List Node)

def Node.tag : Node → Tag
  | leaf tag _ | branch tag _ => tag

/-- How deep branches may nest. -/
def maxNesting : Nat := 64

/-- The tree of an element, in which branches may still nest so deep. What is malformed is found in the
order of the bytes. -/
def Node.ofElement : Nat → Element → Except Refusal Node
  | nesting, x =>
    if Tag.isConstructed x.tag then
      match nesting with
      | 0 => throw (.tooDeep maxNesting)
      | nesting + 1 => do
        let (parts, refusal) := splitAll x.body
        let children ← parts.mapM (ofElement nesting)
        match refusal with
        | none => pure (branch (.ofByte x.tag) children)
        | some refusal => throw refusal
    else pure (leaf (.ofByte x.tag) x.body)

def Node.parse (bytes : List UInt8) : Except Refusal (Node × List UInt8) := do
  let (x, rest) ← splitElement bytes
  pure (← ofElement maxNesting x, rest)

end ClaimRelay.Binary
