import ClaimRelay.Step

/-!
# What steps come to

A step leaves a state whether it answers or fails, and later calls see both. So what is said of a step is said of two
ends, and a sequence of steps has the ends of its parts.
-/

namespace ClaimRelay.Step

variable {ς α β : Type}

/-- The ends of a step from `s`: what holds of its answer and the state after it, and what of its error. -/
structure Yields (x : Step ς α) (s : ς) (done : α → ς → Prop) (failed : Error → ς → Prop) : Prop where
  answers (a : α) (t : ς) (h : x s = (.ok a, t)) : done a t
  fails (e : Error) (t : ς) (h : x s = (.error e, t)) : failed e t

namespace Yields

variable {x : Step ς α} {f : α → Step ς β} {s t : ς} {a : α} {e : Error}
variable {done : α → ς → Prop} {last : β → ς → Prop} {failed : Error → ς → Prop}

theorem of_ok (h : x s = (.ok a, t)) (hd : done a t) : x.Yields s done failed where
  answers b u hb := by
    rw [h] at hb
    cases hb
    exact hd
  fails e u he := by
    rw [h] at he
    cases he

theorem of_error (h : x s = (.error e, t)) (hf : failed e t) : x.Yields s done failed where
  answers b u hb := by
    rw [h] at hb
    cases hb
  fails e u he := by
    rw [h] at he
    cases he
    exact hf

theorem answer (h : done a s) : (pure a : Step ς α).Yields s done failed := of_ok rfl h

theorem refuse (h : failed e s) : (throw e : Step ς α).Yields s done failed := of_error rfl h

theorem refuse_bind (h : failed e s) : ((throw e : Step ς α) >>= f).Yields s last failed := of_error rfl h

theorem bind (hx : x.Yields s done failed) (hf : ∀ a t, done a t → (f a).Yields t last failed) :
    (x >>= f).Yields s last failed := by
  rcases h : x s with ⟨e | a, t⟩
  · exact of_error (bind_of_error h) (hx.fails e t h)
  · have ha := hf a t (hx.answers a t h)
    refine ⟨fun b u hb => ha.answers b u ?_, fun e u he => ha.fails e u ?_⟩
    · rwa [bind_of_ok h] at hb
    · rwa [bind_of_ok h] at he

theorem congr {y : Step ς α} {u : ς} (h : x s = y u) (hy : y.Yields u done failed) : x.Yields s done failed :=
  ⟨fun a t ha => hy.answers a t (h ▸ ha), fun e t he => hy.fails e t (h ▸ he)⟩

/-- The state after a step that leaves the same either way. -/
theorem after {P : ς → Prop} (h : x.Yields s (fun _ => P) fun _ => P) : P (x s).2 := by
  rcases hx : x s with ⟨e | a, t⟩
  · exact h.fails e t hx
  · exact h.answers a t hx

/-- Looking at the state. -/
theorem look {g : ς → Step ς α} (h : (g s).Yields s done failed) : (get >>= g).Yields s done failed :=
  ⟨h.answers, h.fails⟩

theorem imp {done' : α → ς → Prop} {failed' : Error → ς → Prop} (h : x.Yields s done failed)
    (hd : ∀ a t, done a t → done' a t) (hf : ∀ e t, failed e t → failed' e t) : x.Yields s done' failed' :=
  ⟨fun a t ha => hd a t (h.answers a t ha), fun e t he => hf e t (h.fails e t he)⟩

theorem mono {done' : α → ς → Prop} (h : x.Yields s done failed) (hd : ∀ a t, done a t → done' a t) :
    x.Yields s done' failed := h.imp hd fun _ _ => id

theorem mono_error {failed' : Error → ς → Prop} (h : x.Yields s done failed) (hf : ∀ e t, failed e t → failed' e t) :
    x.Yields s done failed' := h.imp (fun _ _ => id) hf

/-- Beside another state, which stays. -/
theorem onFst {τ : Type} {u : τ} (h : x.Yields s done failed) : (x.onFst : Step (ς × τ) α).Yields (s, u)
    (fun a t => t.2 = u ∧ done a t.1) fun e t => t.2 = u ∧ failed e t.1 := by
  have hx : x.onFst (s, u) = ((x s).1, ((x s).2, u)) := rfl
  rcases hs : x s with ⟨e | a, t⟩ <;> rw [hs] at hx
  · exact of_error hx ⟨rfl, h.fails e t hs⟩
  · exact of_ok hx ⟨rfl, h.answers a t hs⟩

end Yields

end ClaimRelay.Step
