import ClaimRelay.Buffer
import ClaimRelay.Step

/-!
# Sinks

The record behind a buffer: the bytes that are stored and, apart from them, the number of those taken. Every check
looks at the number, and a sink that only counts has nothing else. Only the calls keep the two in step.
-/

namespace ClaimRelay

inductive Buffer.Mode
  | measuring
  | growable
  | fixed (capacity : Nat)
  deriving DecidableEq

structure Sink where
  mode : Buffer.Mode
  bytes : List UInt8 := []
  /-- How many bytes were taken, stored or only counted. -/
  len : Nat := 0
  deriving DecidableEq

namespace Sink

def isMeasuring (s : Sink) : Bool := s.mode = .measuring

def isEmpty (s : Sink) : Bool := s.len = 0

def capacity? (s : Sink) : Option Nat :=
  match s.mode with
  | .fixed capacity => some capacity
  | _ => none

def intoBytes? (s : Sink) : Option (List UInt8) :=
  match s.mode with
  | .measuring => none
  | _ => some s.bytes

/-- Splices `data` into the stored bytes, which have to reach to the offset. -/
def store (offset : Nat) (data : List UInt8) : Step Sink Unit := do
  let bytes := (← get).bytes
  if bytes.length < offset then throw .halted
  modify fun s => { s with bytes := bytes.take offset ++ data ++ bytes.drop offset }

/-- Puts `data` before the byte at `offset`. An offset past the end is refused before the capacity counts. -/
def insert (offset : Nat) (data : List UInt8) : Step Sink Unit := do
  let s ← get
  if s.len < offset then throw (.structural (.insertPastEnd offset s.len))
  let needed := s.len + data.length
  match s.mode with
  | .measuring => pure ()
  | .fixed capacity =>
    if capacity < needed then throw (.overflow needed capacity)
    store offset data
  | .growable => store offset data
  modify fun s => { s with len := needed }

def append (data : List UInt8) : Step Sink Unit := do insert (← get).len data

/-- Takes bytes as a stream does, all of them or none, and answers with their number. -/
def write (data : List UInt8) (s : Sink) : Except Buffer.StreamError Nat × Sink :=
  match append data s with
  | (.ok (), s) => (.ok data.length, s)
  | (.error e, s) => (.error ⟨e⟩, s)

end Sink

end ClaimRelay
