import ClaimRelay.ClaimSet.Builder
import ClaimRelay.Proofs.Walk.Alike
import ClaimRelay.Proofs.Walk.Delivery

/-!
# Requests

The calls on a writer as data, so that a sequence of them is a list. The builder is the measure of which are in
order: `Builder.after?` is all that a call can do to it.
-/

namespace ClaimRelay

variable {ς : Type}

inductive Writer.Request
  | claim (c : Claim)
  | startSection
  | endSection
  | openSubmodule (name : String)
  | closeSubmodule (handle : Nat)
  | token (t : NestedToken)
  deriving DecidableEq

namespace Writer

/-- What a writer answers to a request: a handle when a submodule is opened. -/
def answer (w : Writer ς) : Request → Step ς (Option Nat)
  | .claim c => do w.claim c; return none
  | .startSection => do w.startSection; return none
  | .endSection => do w.endSection; return none
  | .openSubmodule name => do return some (← w.openSubmodule name)
  | .closeSubmodule handle => do w.closeSubmodule handle; return none
  | .token t => do w.offer t; return none

theorem answer_alike {σ τ : Type} {P : ∀ ⦃α : Type⦄, Step σ α → Step τ α → Prop} {w : Writer σ} {w' : Writer τ}
    (hP : Step.Congruence P) (hw : Writer.Alike P w w') (r : Request) : P (w.answer r) (w'.answer r) := by
  cases r with
  | claim c => exact hP.bind (hw.claim c) fun _ => hP.answer none
  | startSection => exact hP.bind hw.startSection fun _ => hP.answer none
  | endSection => exact hP.bind hw.endSection fun _ => hP.answer none
  | openSubmodule name => exact hP.bind (hw.openSubmodule name) fun handle => hP.answer (some handle)
  | closeSubmodule handle => exact hP.bind (hw.closeSubmodule handle) fun _ => hP.answer none
  | token t =>
    refine hP.bind (hP.bind hw.takesTokens fun taken => ?_) fun _ => hP.answer none
    cases taken with
    | true => exact hw.token t
    | false => exact hP.bind (hP.refuse _) fun _ => hw.token t

/-- The answers to requests up to the first that is refused. -/
def answers (w : Writer ς) (requests : List Request) : Step ς (List (Option Nat)) := requests.mapM w.answer

/-- The answers to all of the requests, each made in the state that the one before it left, refused or not. -/
def session (w : Writer ς) : List Request → ς → List (Except Error (Option Nat)) × ς
  | [], s => ([], s)
  | request :: rest, s =>
    let (a, s) := w.answer request s
    let (as, s) := w.session rest s
    (a :: as, s)

theorem session_cons (w : Writer ς) (r : Request) (rest : List Request) (s : ς) :
    w.session (r :: rest) s = ((w.answer r s).1 :: (w.session rest (w.answer r s).2).1,
      (w.session rest (w.answer r s).2).2) := rfl

end Writer

/-- A renderer that is newly started on a buffer that grows. -/
def Renderer.started (w : Renderer ς) (s : ς) : ς := (w.start .emptyGrowable s).2

namespace Builder

/-! ## Requests that are in order -/

def InOrder (b : Builder) : Writer.Request → Prop
  | .claim _ | .startSection => b.top.status = .pending
  | .endSection | .openSubmodule _ | .token _ => b.top.status = .running
  | .closeSubmodule handle => b.outer ≠ [] ∧ handle = b.outer.length ∧ b.top.status ≠ .running

instance (b : Builder) : DecidablePred b.InOrder
  | .claim _ | .startSection => inferInstanceAs (Decidable (b.top.status = .pending))
  | .endSection | .openSubmodule _ | .token _ => inferInstanceAs (Decidable (b.top.status = .running))
  | .closeSubmodule handle =>
    have : Decidable (b.outer ≠ []) := decidable_of_iff (b.outer.isEmpty = false) (by simp)
    inferInstanceAs (Decidable (b.outer ≠ [] ∧ handle = b.outer.length ∧ b.top.status ≠ .running))

def reply (b : Builder) : Writer.Request → Option Nat
  | .openSubmodule _ => some (b.outer.length + 1)
  | _ => none

def withEntry (level : OpenLevel) (entry : Entry) : OpenLevel := { level with entries := level.entries ++ [entry] }

def next (b : Builder) : Writer.Request → Builder
  | .claim c => { b with top := { b.top with claims := b.top.claims ++ [c] } }
  | .startSection => { b with top := { b.top with status := .running } }
  | .endSection => { b with top := { b.top with status := .ended } }
  | .openSubmodule name => ⟨{ name }, b.top :: b.outer⟩
  | .closeSubmodule _ =>
    match b.outer with
    | [] => b
    | above :: outer => ⟨withEntry above (.submodule b.top.name b.top.claims b.top.entries), outer⟩
  | .token t => { b with top := withEntry b.top (.token t) }

/-- What calls keep, from a new builder on: a level around another has its section running, and there is no
entry before the section. -/
structure Sound (b : Builder) : Prop where
  running : ∀ level ∈ b.outer, level.status = .running
  pending : b.top.status = .pending → b.top.entries = []

theorem sound_empty : Sound {} := ⟨nofun, fun _ => rfl⟩

variable {b : Builder} {request : Writer.Request}

theorem Sound.next (hb : b.Sound) (h : b.InOrder request) : (b.next request).Sound := by
  obtain ⟨hrunning, hpending⟩ := hb
  cases request with
  | claim c => exact ⟨hrunning, hpending⟩
  | startSection => exact ⟨hrunning, nofun⟩
  | endSection => exact ⟨hrunning, nofun⟩
  | openSubmodule name => exact ⟨List.forall_mem_cons.mpr ⟨h, hrunning⟩, fun _ => rfl⟩
  | closeSubmodule handle =>
    obtain ⟨top, outer⟩ := b
    cases outer with
    | nil => exact ⟨hrunning, hpending⟩
    | cons above outer =>
      obtain ⟨habove, houter⟩ := List.forall_mem_cons.mp hrunning
      exact ⟨houter, fun hp => by cases habove.symm.trans hp⟩
  | token t => exact ⟨hrunning, fun hp => by cases (show b.top.status = .running from h).symm.trans hp⟩

/-- What is amiss with closing: there is no submodule of that depth to close, or its section is running. -/
theorem closing_not_inOrder {handle : Nat} (h : ¬b.InOrder (.closeSubmodule handle)) :
    (handle ≠ b.outer.length ∨ b.outer.length = 0) ∨
      handle = b.outer.length ∧ b.outer.length ≠ 0 ∧ b.top.status = .running := by
  by_cases hdepth : handle ≠ b.outer.length ∨ b.outer.length = 0
  · exact .inl hdepth
  · obtain ⟨hh, houter⟩ := not_or.mp hdepth
    have hs : b.top.status = .running := by
      apply Classical.byContradiction
      intro hs
      exact h ⟨fun he => houter (List.length_eq_zero_iff.mpr he), Classical.not_not.mp hh, hs⟩
    exact .inr ⟨Classical.not_not.mp hh, houter, hs⟩

theorem close_eq (top above : OpenLevel) (outer : List OpenLevel) (handle : Nat) :
    closeSubmodule handle ⟨top, above :: outer⟩ =
      if handle = outer.length + 1 then
        if top.status = .running then
          (.error (.structural (.closedWithNamedSectionOpen top.name)), ⟨above, outer⟩)
        else putEntry (.submodule top.name top.claims top.entries) ⟨above, outer⟩
      else (.error (.structural (.closesOtherDepth handle (outer.length + 1))), ⟨top, above :: outer⟩) := by
  unfold closeSubmodule
  rw [Step.bind_of_ok (Step.get_apply _)]
  simp only [List.length_cons]
  by_cases hh : handle = outer.length + 1
  · simp only [hh, ne_eq, not_true_eq_false, ite_false, ite_true]
    by_cases hs : top.status = .running
    · simp only [hs, ite_true]
      rfl
    · simp only [hs, ite_false]
      rfl
  · simp only [hh, ne_eq, not_false_eq_true, ite_true, ite_false]
    rfl

theorem answer_of_inOrder (hb : b.Sound) (h : b.InOrder request) :
    writer.answer request b = (.ok (b.reply request), b.next request) := by
  obtain ⟨⟨name, claims, entries, status⟩, outer⟩ := b
  cases request with
  | claim c => cases h; rfl
  | startSection => cases h; rfl
  | endSection => cases h; rfl
  | openSubmodule name => cases h; rfl
  | token t => cases h; rfl
  | closeSubmodule handle =>
    cases outer with
    | nil => exact absurd rfl h.1
    | cons above outer =>
      obtain ⟨-, hh, hs⟩ : _ ∧ handle = outer.length + 1 ∧ status ≠ .running := h
      obtain ⟨n, cs, es, st⟩ := above
      obtain rfl : st = .running := hb.running _ (.head _)
      have hclose := close_eq ⟨name, claims, entries, status⟩ ⟨n, cs, es, .running⟩ outer handle
      rw [if_pos hh, if_neg hs] at hclose
      exact Step.bind_of_ok hclose

theorem answer_of_not_inOrder (h : ¬b.InOrder request) :
    ∃ e b', writer.answer request b = (.error e, b') := by
  obtain ⟨⟨name, claims, entries, status⟩, outer⟩ := b
  cases request with
  | claim c => cases status <;> first | exact absurd rfl h | exact ⟨_, _, rfl⟩
  | startSection => cases status <;> first | exact absurd rfl h | exact ⟨_, _, rfl⟩
  | endSection => cases status <;> first | exact absurd rfl h | exact ⟨_, _, rfl⟩
  | openSubmodule name => cases status <;> first | exact absurd rfl h | exact ⟨_, _, rfl⟩
  | token t => cases status <;> first | exact absurd rfl h | exact ⟨_, _, rfl⟩
  | closeSubmodule handle =>
    cases outer with
    | nil => exact ⟨_, _, rfl⟩
    | cons above outer =>
      have hclose := close_eq ⟨name, claims, entries, status⟩ above outer handle
      by_cases hh : handle = outer.length + 1
      · by_cases hs : status = .running
        · rw [if_pos hh, if_pos hs] at hclose
          exact ⟨_, _, Step.bind_of_error hclose⟩
        · exact absurd ⟨nofun, hh, hs⟩ h
      · rw [if_neg hh] at hclose
        exact ⟨_, _, Step.bind_of_error hclose⟩

theorem finish_eq_ok {m : ClaimSet} :
    b.finish = .ok m ↔ (b.outer = [] ∧ b.top.status ≠ .running) ∧ m = ⟨b.top.claims, b.top.entries⟩ := by
  unfold finish
  by_cases ho : b.outer.length = 0
  · have hnil := List.length_eq_zero_iff.mp ho
    by_cases hs : b.top.status = .running
    · simp [ho, hs, throw, throwThe, MonadExceptOf.throw]
    · simp [hnil, hs, pure, Except.pure, eq_comm]
  · have hne : b.outer ≠ [] := fun he => ho (List.length_eq_zero_iff.mpr he)
    simp [ho, hne, throw, throwThe, MonadExceptOf.throw]

theorem not_whole_of_finish {e : Error} (h : b.finish = .error e) : ¬(b.outer = [] ∧ b.top.status ≠ .running) := by
  intro hwhole
  rw [finish_eq_ok.mpr ⟨hwhole, rfl⟩] at h
  cases h

end Builder

end ClaimRelay
