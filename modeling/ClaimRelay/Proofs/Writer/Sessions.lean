import ClaimRelay.Proofs.Writer.Delivering

/-!
# Sessions

Requests one after the other. As long as all are taken, a writer that follows a builder stays its image. Where a
session goes on after refusals, it comes to what the requests that were taken come to alone, unless a refusal has
dropped something.
-/

namespace ClaimRelay

variable {ς : Type}

theorem ok_of_toOption {ε α : Type} {x : Except ε α} {a : α} (h : x.toOption = some a) : x = .ok a := by
  cases x <;> cases h
  rfl

theorem error_of_toOption {ε α : Type} {x : Except ε α} (h : x.toOption.isNone = true) : ∃ e, x = .error e := by
  cases x with
  | error e => exact ⟨e, rfl⟩
  | ok a => cases h

theorem error_of_match {ε α : Type} {x : Except ε α} {e : ε}
    (h : (match x with | .error e => some e | .ok _ => none) = some e) : x = .error e := by
  cases x <;> cases h
  rfl

namespace Writer

variable {w : Writer ς} {r : Request} {requests : List Request} {s t : ς}

theorem answers_cons_ok {as : List (Option Nat)} : w.answers (r :: requests) s = (.ok as, t) ↔
    ∃ a u rest, w.answer r s = (.ok a, u) ∧ w.answers requests u = (.ok rest, t) ∧ as = a :: rest := by
  unfold answers
  rw [List.mapM_cons]
  constructor
  · intro h
    rw [Step.bind_apply] at h
    rcases hr : w.answer r s with ⟨e | a, u⟩
    · rw [hr] at h
      cases h
    · rw [hr] at h
      obtain ⟨rest, hrest, rfl⟩ := Step.ok_of_answer h
      exact ⟨a, u, rest, rfl, hrest, rfl⟩
  · rintro ⟨a, u, rest, hr, hrest, rfl⟩
    rw [Step.bind_of_ok hr, Step.bind_of_ok hrest]
    rfl

/-- The requests that were answered. -/
def accepted : List Request → List (Except Error (Option Nat)) → List Request
  | r :: requests, .ok _ :: answers => r :: accepted requests answers
  | _ :: requests, .error _ :: answers => accepted requests answers
  | _, _ => []

namespace Follows

variable {image : Builder → ς} {q : Reasons} {b : Builder}

theorem answers_ok {as : List (Option Nat)} (hw : w.Follows image q) (hb : b.Sound) (hc : q.Clean b.top b.outer)
    (h : w.answers requests (image b) = (.ok as, s)) :
    ∃ b', Builder.writer.answers requests b = (.ok as, b') ∧ b'.Sound ∧ q.Clean b'.top b'.outer ∧ s = image b' := by
  induction requests generalizing b as with
  | nil =>
    cases h
    exact ⟨b, rfl, hb, hc, rfl⟩
  | cons r rest ih =>
    obtain ⟨a, u, as, hr, hrest, rfl⟩ := answers_cons_ok.mp h
    obtain ⟨ho, hq, rfl, rfl⟩ := hw.answer_ok hb hr
    obtain ⟨b', hbuilt, hsound, hclean, hs⟩ := ih (hb.next ho) (hc.next ho hq) hrest
    exact ⟨b', answers_cons_ok.mpr ⟨_, _, _, Builder.answer_of_inOrder hb ho, hbuilt, rfl⟩, hsound, hclean, hs⟩

theorem session_accepted (hw : w.Follows image q) (hb : b.Sound)
    (hd : ∀ e, .error e ∈ (w.session requests (image b)).1 → ¬e.Drops) :
    ∃ as, w.answers (accepted requests (w.session requests (image b)).1) (image b) =
      (.ok as, (w.session requests (image b)).2) := by
  induction requests generalizing b with
  | nil => exact ⟨[], rfl⟩
  | cons r rest ih =>
    rcases hr : w.answer r (image b) with ⟨e | a, u⟩
    · -- the writer is where it was, so the rest of the session is as if nothing had been asked
      simp only [session, hr] at hd ⊢
      obtain rfl := hw.answer_error hb hr (hd e (.head _))
      exact ih hb fun e he => hd e (.tail _ he)
    · simp only [session, hr] at hd ⊢
      obtain ⟨ho, -, rfl, rfl⟩ := hw.answer_ok hb hr
      obtain ⟨as, has⟩ := ih (hb.next ho) fun e he => hd e (.tail _ he)
      exact ⟨_, answers_cons_ok.mpr ⟨_, _, _, hr, has, rfl⟩⟩

end Follows

end Writer

/-! ## The end of a session -/

theorem Writer.Reasons.Clean.allows {q : Writer.Reasons} {b : Builder} {m : ClaimSet} (hc : q.Clean b.top b.outer)
    (h : b.finish = .ok m) : q.Allows m := by
  obtain ⟨-, rfl⟩ := Builder.finish_eq_ok.mp h
  exact hc.top

theorem Renderer.Follows.finish_ok {w : Renderer ς} {s : ς} {image : Builder → ς} {q : Writer.Reasons}
    {output : ClaimSet → List UInt8} {b : Builder} {out : Buffer} (hw : w.Follows s image q output) (hb : b.Sound) :
    (w.finish (image b)).1 = .ok out ↔ ∃ m, b.finish = .ok m ∧ out = .growable (output m) := by
  cases h : b.finish with
  | ok m =>
    rw [hw.finishes hb h]
    constructor
    · rintro ⟨⟩
      exact ⟨m, rfl, rfl⟩
    · rintro ⟨m', hm, rfl⟩
      cases hm
      rfl
  | error e =>
    obtain ⟨e', he⟩ := hw.goesOn hb h
    rw [he]
    exact iff_of_false nofun (fun ⟨_, hm, _⟩ => nomatch hm)

theorem Renderer.Follows.finishes_iff {w : Renderer ς} {s : ς} {image : Builder → ς} {q : Writer.Reasons}
    {output : ClaimSet → List UInt8} {b : Builder} (hw : w.Follows s image q output) (hb : b.Sound) :
    (∃ out, (w.finish (image b)).1 = .ok out) ↔ ∃ m, b.finish = .ok m := by
  constructor
  · rintro ⟨out, h⟩
    obtain ⟨m, hm, -⟩ := (hw.finish_ok hb).mp h
    exact ⟨m, hm⟩
  · rintro ⟨m, hm⟩
    exact ⟨_, hw.finishes hb hm⟩

end ClaimRelay
