import ClaimRelay.Proofs.Writer.Requests

/-!
# Calls on a renderer

A renderer is used from start to finish, and perhaps again, whatever it answers on the way. Here its calls are data as
those of a writer are, and what is seen of each is its answer and the output. A call in which the program stops is the
last.
-/

namespace ClaimRelay

variable {ς : Type}

/-- Where in its state a renderer has its output. -/
structure Outlet (ς : Type) where
  out : ς → Buffer
  withOut : Buffer → ς → ς
  out_withOut (b : Buffer) (s : ς) : out (withOut b s) = b
  withOut_withOut (b c : Buffer) (s : ς) : withOut b (withOut c s) = withOut b s

namespace Renderer

inductive Call
  | start (out : Buffer)
  | request (r : Writer.Request)
  | finish

/-- What a call answers, and the output after it, which is what a finish hands back. -/
structure Outcome where
  answer : Except Error (Option Nat)
  out : Buffer

/-- Whether the program has stopped in the call. -/
def Outcome.halts (x : Outcome) : Bool :=
  match x.answer with
  | .error .halted => true
  | _ => false

def Outcome.ofFinish (out : Buffer) : Except Error Buffer → Outcome
  | .ok handed => ⟨.ok none, handed⟩
  | .error e => ⟨.error e, out⟩

def perform (w : Renderer ς) (o : Outlet ς) : Call → ς → Outcome × ς
  | .start out, s => let (a, s) := w.start out s; (⟨a.map fun _ => none, o.out s⟩, s)
  | .request r, s => let (a, s) := w.answer r s; (⟨a, o.out s⟩, s)
  | .finish, s => let (a, s) := w.finish s; (.ofFinish (o.out s) a, s)

/-- What the calls come to, each made in the state that the one before it left, refused or not. -/
def outcomes (w : Renderer ς) (o : Outlet ς) : List Call → ς → List Outcome × ς
  | [], s => ([], s)
  | call :: rest, s =>
    let (first, s) := w.perform o call s
    let (more, s) := if first.halts then ([], s) else w.outcomes o rest s
    (first :: more, s)

/-- What comes of the calls after one that came to `first`. -/
def further (w : Renderer ς) (o : Outlet ς) (first : Outcome) (calls : List Call) (s : ς) : List Outcome × ς :=
  if first.halts then ([], s) else w.outcomes o calls s

theorem outcomes_cons (w : Renderer ς) (o : Outlet ς) (call : Call) (rest : List Call) (s : ς) :
    let p := w.perform o call s
    w.outcomes o (call :: rest) s = (p.1 :: (w.further o p.1 rest p.2).1, (w.further o p.1 rest p.2).2) := rfl

theorem outcomes_single (w : Renderer ς) (o : Outlet ς) (call : Call) (s : ς) :
    w.outcomes o [call] s = ([(w.perform o call s).1], (w.perform o call s).2) := by
  rw [outcomes_cons, further]
  split <;> rfl

section
variable {w : Renderer ς} {o : Outlet ς} {first : Outcome}

theorem Outcome.halts_iff : first.halts = true ↔ first.answer = .error .halted := by
  unfold halts
  split <;> simp_all

theorem further_of_halts (h : first.halts = true) (calls : List Call) (s : ς) :
    w.further o first calls s = ([], s) := if_pos h

theorem further_of_not_halts (h : first.halts = false) (calls : List Call) (s : ς) :
    w.further o first calls s = w.outcomes o calls s := if_neg (by rw [h]; exact Bool.false_ne_true)

end

/-- The calls on one token. -/
def Call.token (out : Buffer) (requests : List Writer.Request) : List Call :=
  .start out :: (requests.map .request ++ [.finish])

end Renderer

end ClaimRelay
