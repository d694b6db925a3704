import ClaimRelay.Walk

/-!
# Rendering

A renderer that has to know the size of its output first is run twice: into a buffer that counts, and after
a rewind into one that holds just what was counted. A second pass that does not land on that size is an
error, and there is no third.
-/

namespace ClaimRelay.Render

variable {ς : Type}

def pass (limit : Nat) (r : Reader ς) (w : Renderer ς) (b : Buffer) : Step ς Buffer := do
  w.start b
  Walk.run limit r w.toWriter
  w.finish

def content (b : Buffer) : Step ς (List UInt8) :=
  match b.bytes? with
  | some bytes => return bytes
  | none => throw (.structural .measuringBufferReturned)

/-- The second pass, where running out of room means that the first one counted less. -/
def secondPass (limit : Nat) (r : Reader ς) (w : Renderer ς) (measured : Nat) : Step ς Buffer :=
  tryCatch (pass limit r w (.emptyFixed measured)) fun
    | .overflow needed _ => throw (.sizeMismatch measured needed)
    | e => throw e

def run (limit : Nat) (r : Reader ς) (w : Renderer ς) : Step ς (List UInt8) := do
  if w.streaming (← get) then
    content (← pass limit r w .emptyGrowable)
  else
    let measured := (← pass limit r w .emptyMeasuring).size
    modify r.rewind
    let out ← secondPass limit r w measured
    if out.size ≠ measured then throw (.sizeMismatch measured out.size)
    content out

end ClaimRelay.Render
