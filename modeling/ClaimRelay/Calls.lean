import ClaimRelay.Reader
import ClaimRelay.Writer

/-!
# Calls, logged and made to fail

What a walk does is seen in the calls it makes. Here a reader and a writer over one state are wrapped so that
they log their calls in one list, and so that the call of a given number fails without being made. The
recorder is the writer that takes everything.
-/

namespace ClaimRelay

inductive Call
  | nextClaim (answer : Except Error (Option Claim))
  | enter (index : Nat) (answer : Except Error Slot)
  | exit (answer : Except Error Unit)
  | nestedToken (index : Nat) (answer : Except Error NestedToken)
  | rewind
  | claim (c : Claim) (answer : Except Error Unit)
  | startSection (answer : Except Error Unit)
  | endSection (answer : Except Error Unit)
  | openSubmodule (name : String) (answer : Except Error Nat)
  | closeSubmodule (handle : Nat) (answer : Except Error Unit)
  | takesTokens (answer : Bool)
  | token (t : NestedToken) (answer : Except Error Unit)

variable {ς α : Type}

/-- The step, which logs its call once the answer is known. -/
def Step.logged (call : Except Error α → Call) (x : Step ς α) : Step (ς × List Call) α :=
  fun (s, log) => let (a, s) := x s; (a, (s, log ++ [call a]))

def Reader.logged (r : Reader ς) : Reader (ς × List Call) where
  nextClaim := r.nextClaim.logged .nextClaim
  enter i := (r.enter i).logged (.enter i)
  exit := r.exit.logged .exit
  nestedToken i := (r.nestedToken i).logged (.nestedToken i)
  rewind s := (r.rewind s.1, s.2 ++ [.rewind])
  extent s := r.extent s.1

def Writer.logged (w : Writer ς) : Writer (ς × List Call) where
  claim c := (w.claim c).logged (.claim c)
  startSection := w.startSection.logged .startSection
  endSection := w.endSection.logged .endSection
  openSubmodule name := (w.openSubmodule name).logged (.openSubmodule name)
  closeSubmodule handle := (w.closeSubmodule handle).logged (.closeSubmodule handle)
  takesTokens s := let (b, t) := w.takesTokens s.1; (b, (t, s.2 ++ [.takesTokens b]))
  token t := (w.token t).logged (.token t)

/-- A state with the numbers of calls, that can fail, made on its reader and on its writer. -/
structure Counted (ς : Type) where
  state : ς
  readerCalls : Nat := 0
  writerCalls : Nat := 0

/-- An error in place of the call of a number; the calls are numbered from zero. -/
structure Fault where
  number : Nat
  error : Error

def Fault.at? (fault : Option Fault) (number : Nat) : Option Error :=
  fault.bind fun f => if f.number = number then some f.error else none

def Step.countedRead (fault : Option Fault) (x : Step ς α) : Step (Counted ς) α := fun s =>
  let t := { s with readerCalls := s.readerCalls + 1 }
  match Fault.at? fault s.readerCalls with
  | some e => (.error e, t)
  | none => let (a, inner) := x s.state; (a, { t with state := inner })

def Step.countedWrite (fault : Option Fault) (x : Step ς α) : Step (Counted ς) α := fun s =>
  let t := { s with writerCalls := s.writerCalls + 1 }
  match Fault.at? fault s.writerCalls with
  | some e => (.error e, t)
  | none => let (a, inner) := x s.state; (a, { t with state := inner })

def Reader.counted (fault : Option Fault) (r : Reader ς) : Reader (Counted ς) where
  nextClaim := r.nextClaim.countedRead fault
  enter i := (r.enter i).countedRead fault
  exit := r.exit.countedRead fault
  nestedToken i := (r.nestedToken i).countedRead fault
  rewind s := { s with state := r.rewind s.state }
  extent s := r.extent s.state

def Writer.counted (fault : Option Fault) (w : Writer ς) : Writer (Counted ς) where
  claim c := (w.claim c).countedWrite fault
  startSection := w.startSection.countedWrite fault
  endSection := w.endSection.countedWrite fault
  openSubmodule name := (w.openSubmodule name).countedWrite fault
  closeSubmodule handle := (w.closeSubmodule handle).countedWrite fault
  takesTokens s := let (b, inner) := w.takesTokens s.state; (b, { s with state := inner })
  token t := (w.token t).countedWrite fault

/-- The writer that takes everything and only counts the submodules that are open. -/
def recorder (takesTokens : Bool) : Writer Nat where
  claim _ := pure ()
  startSection := pure ()
  endSection := pure ()
  openSubmodule _ := modifyGet fun depth => (depth + 1, depth + 1)
  closeSubmodule _ := modify (· - 1)
  takesTokens s := (takesTokens, s)
  token _ := pure ()

end ClaimRelay
