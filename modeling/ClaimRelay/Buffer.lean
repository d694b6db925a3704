import ClaimRelay.Error

/-!
# Output buffers

A buffer only counts what is written, holds up to a fixed number of bytes, or grows. The calls are the same
on all three, which is what makes a counting pass exact. A refused call leaves the buffer as it was.
-/

namespace ClaimRelay

inductive Buffer
  | measuring (count : Nat)
  | fixed (capacity : Nat) (content : List UInt8)
  | growable (content : List UInt8)
  deriving DecidableEq

namespace Buffer

def emptyMeasuring : Buffer := .measuring 0

def emptyFixed (capacity : Nat) : Buffer := .fixed capacity []

def emptyGrowable : Buffer := .growable []

def size : Buffer → Nat
  | measuring count => count
  | fixed _ content | growable content => content.length

def isMeasuring : Buffer → Bool
  | measuring _ => true
  | _ => false

def capacity? : Buffer → Option Nat
  | fixed capacity _ => some capacity
  | _ => none

/-- The bytes written, `none` from a buffer that only counts. -/
def bytes? : Buffer → Option (List UInt8)
  | measuring _ => none
  | fixed _ content | growable content => some content

/-- Changes the content to one of `n` bytes more, if there is room for it. -/
def grow (n : Nat) (change : List UInt8 → List UInt8) : Buffer → Except Error Buffer
  | measuring count => pure (measuring (count + n))
  | fixed capacity content =>
    if capacity < content.length + n then throw (.overflow (content.length + n) capacity)
    else pure (fixed capacity (change content))
  | growable content => pure (growable (change content))

/-- Puts `data` before the byte at `offset`. An offset past the end is refused before the capacity counts. -/
def insert (offset : Nat) (data : List UInt8) (b : Buffer) : Except Error Buffer :=
  if b.size < offset then throw (.structural (.insertPastEnd offset b.size))
  else b.grow data.length fun content => content.take offset ++ data ++ content.drop offset

def append (data : List UInt8) (b : Buffer) : Except Error Buffer := b.grow data.length (· ++ data)

/-- The error of a stream of bytes, with the refusal in it that it comes from. -/
structure StreamError where
  cause : Error
  deriving DecidableEq

def StreamError.message (e : StreamError) : String := e.cause.message

/-- Takes bytes as a stream does, all of them or none, and answers with their number. -/
def write (data : List UInt8) (b : Buffer) : Except StreamError (Nat × Buffer) :=
  match b.append data with
  | .ok b => pure (data.length, b)
  | .error e => throw ⟨e⟩

theorem append_eq_insert (data : List UInt8) (b : Buffer) : b.append data = b.insert b.size data := by
  cases b <;> simp [append, insert, grow, size]

end Buffer

end ClaimRelay
