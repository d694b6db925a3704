import ClaimRelay.Proofs.Writer.Requests

/-!
# Writers that follow a builder

A writer follows a builder when its state is a function of what has been built: it takes the requests that are in
order, but for those it has reasons of its own to refuse, and goes over to the image of what the builder comes to.
A refusal leaves the state alone, unless it is one of two that take something off first.
-/

namespace ClaimRelay

variable {ς : Type}

/-- The refusals that come too late: what they find amiss is off the stack already. -/
def Error.Drops (e : Error) : Prop := e = .structural .noSectionToEnd ∨ e = .structural .closedWithSectionOpen

instance (e : Error) : Decidable e.Drops :=
  inferInstanceAs (Decidable (e = .structural .noSectionToEnd ∨ e = .structural .closedWithSectionOpen))

def Entry.name : Entry → String
  | .submodule name _ _ => name
  | .token t => t.name

namespace Writer

/-- Why a writer refuses what is in order: for a claim, given those before it at its level, and for the name of an
entry, given those before it. -/
structure Reasons where
  claim : List Claim → Claim → Option Error
  name : List String → String → Option Error

def Reasons.refusal (q : Reasons) (b : Builder) : Request → Option Error
  | .claim c => q.claim b.top.claims c
  | .openSubmodule name => q.name (b.top.entries.map Entry.name) name
  | .token t => q.name (b.top.entries.map Entry.name) t.name
  | _ => none

/-- What a writer does with requests that are in order. -/
structure Tracks (w : Writer ς) (image : Builder → ς) (q : Reasons) : Prop where
  takes {b : Builder} {r : Request} (hb : b.Sound) (h : b.InOrder r) (hr : q.refusal b r = none) :
    w.answer r (image b) = (.ok (b.reply r), image (b.next r))
  refuses {b : Builder} {r : Request} {e : Error} (hb : b.Sound) (h : b.InOrder r) (hr : q.refusal b r = some e) :
    w.answer r (image b) = (.error e, image b)

structure Follows (w : Writer ς) (image : Builder → ς) (q : Reasons) : Prop extends w.Tracks image q where
  rejects {b : Builder} {r : Request} (hb : b.Sound) (h : ¬b.InOrder r) :
    ∃ e s, w.answer r (image b) = (.error e, s) ∧ (e.Drops ∨ s = image b)

namespace Follows

variable {w : Writer ς} {image : Builder → ς} {q : Reasons} {b : Builder} {r : Request} {a : Option Nat} {s : ς}

theorem answer_ok_iff (hw : w.Follows image q) (hb : b.Sound) :
    (w.answer r (image b)).1 = .ok a ↔ (Builder.writer.answer r b).1 = .ok a ∧ q.refusal b r = none := by
  by_cases h : b.InOrder r
  · rw [Builder.answer_of_inOrder hb h]
    cases hr : q.refusal b r with
    | none => simp [hw.takes hb h hr]
    | some e => simp [hw.refuses hb h hr]
  · obtain ⟨e, b', he⟩ := Builder.answer_of_not_inOrder h
    obtain ⟨e', s, he', -⟩ := hw.rejects hb h
    simp [he, he']

theorem answer_ok (hw : w.Follows image q) (hb : b.Sound) (h : w.answer r (image b) = (.ok a, s)) :
    b.InOrder r ∧ q.refusal b r = none ∧ a = b.reply r ∧ s = image (b.next r) := by
  by_cases ho : b.InOrder r
  · cases hr : q.refusal b r with
    | none =>
      rw [hw.takes hb ho hr] at h
      cases h
      exact ⟨ho, rfl, rfl, rfl⟩
    | some e =>
      rw [hw.refuses hb ho hr] at h
      cases h
  · obtain ⟨e, s', he, -⟩ := hw.rejects hb ho
    rw [he] at h
    cases h

theorem answer_error {e : Error} (hw : w.Follows image q) (hb : b.Sound) (h : w.answer r (image b) = (.error e, s))
    (he : ¬e.Drops) : s = image b := by
  by_cases ho : b.InOrder r
  · cases hr : q.refusal b r with
    | none =>
      rw [hw.takes hb ho hr] at h
      cases h
    | some e' =>
      rw [hw.refuses hb ho hr] at h
      cases h
      rfl
  · obtain ⟨e', s', he', hs⟩ := hw.rejects hb ho
    rw [he'] at h
    cases h
    exact hs.resolve_left he

end Follows

end Writer

/-- A renderer that follows a builder from its start on, and whose output is that of the claim set built. -/
structure Renderer.Follows (w : Renderer ς) (s : ς) (image : Builder → ς) (q : Writer.Reasons)
    (output : ClaimSet → List UInt8) : Prop extends w.toWriter.Follows image q where
  starts : w.start .emptyGrowable s = (.ok (), image {})
  finishes {b : Builder} {m : ClaimSet} (hb : b.Sound) (h : b.finish = .ok m) :
    (w.finish (image b)).1 = .ok (.growable (output m))
  goesOn {b : Builder} {e : Error} (hb : b.Sound) (h : b.finish = .error e) :
    ∃ e', (w.finish (image b)).1 = .error e'

theorem Renderer.Follows.started {w : Renderer ς} {s : ς} {image : Builder → ς} {q : Writer.Reasons}
    {output : ClaimSet → List UInt8} (hw : w.Follows s image q output) : w.started s = image {} := by
  rw [Renderer.started, hw.starts]

end ClaimRelay
