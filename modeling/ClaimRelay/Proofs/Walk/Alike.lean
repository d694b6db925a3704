import ClaimRelay.Calls
import ClaimRelay.Walk

/-!
# Walks alike

A walk is put together from the calls on its reader and its writer by answering, refusing and going on with an
answer. A relation between steps that these three keep holds between two walks once it holds between the calls
they are made of (`Walk.proceed_alike`). Taking notes of the calls is a first example: it changes nothing.
-/

namespace ClaimRelay

variable {ς σ τ κ ν : Type}

/-! ## Relations that walks keep -/

section
variable (P : ∀ ⦃α : Type⦄, Step σ α → Step τ α → Prop)

/-- What a relation between steps has to keep. -/
structure Step.Congruence : Prop where
  answer {α : Type} (a : α) : P (pure a) (pure a)
  refuse {α : Type} (e : Error) : P (throw e : Step σ α) (throw e)
  bind {α β : Type} {x : Step σ α} {y : Step τ α} {f : α → Step σ β} {g : α → Step τ β} (h : P x y)
    (hf : ∀ a, P (f a) (g a)) : P (x >>= f) (y >>= g)

structure Reader.Alike (r : Reader σ) (r' : Reader τ) : Prop where
  nextClaim : P r.nextClaim r'.nextClaim
  enter (i : Nat) : P (r.enter i) (r'.enter i)
  exit : P r.exit r'.exit
  nestedToken (i : Nat) : P (r.nestedToken i) (r'.nestedToken i)

structure Writer.Alike (w : Writer σ) (w' : Writer τ) : Prop where
  claim (c : Claim) : P (w.claim c) (w'.claim c)
  startSection : P w.startSection w'.startSection
  endSection : P w.endSection w'.endSection
  openSubmodule (name : String) : P (w.openSubmodule name) (w'.openSubmodule name)
  closeSubmodule (handle : Nat) : P (w.closeSubmodule handle) (w'.closeSubmodule handle)
  takesTokens : P (modifyGet w.takesTokens) (modifyGet w'.takesTokens)
  token (t : NestedToken) : P (w.token t) (w'.token t)

end

namespace Walk

variable {P : ∀ ⦃α : Type⦄, Step σ α → Step τ α → Prop}
variable {r : Reader σ} {r' : Reader τ} {w : Writer σ} {w' : Writer τ}

theorem openSection_alike (hP : Step.Congruence P) (hw : Writer.Alike P w w') (level : Level) :
    P (openSection w level) (openSection w' level) := by
  unfold openSection
  cases level.sectionOpen with
  | true => exact hP.answer ()
  | false => exact hw.startSection

theorem goUp_alike (hP : Step.Congruence P) (hr : Reader.Alike P r r') (hw : Writer.Alike P w w')
    (handle : Option Nat) : P (goUp r w handle) (goUp r' w' handle) := by
  cases handle with
  | none => exact hP.answer ()
  | some handle => exact hP.bind hr.exit fun _ => hw.closeSubmodule handle

theorem leave_alike (hP : Step.Congruence P) (hr : Reader.Alike P r r') (hw : Writer.Alike P w w')
    (level : Level) : P (leave r w level) (leave r' w' level) := by
  unfold leave
  cases level.sectionOpen with
  | true => exact hP.bind hw.endSection fun _ => goUp_alike hP hr hw level.handle
  | false => exact goUp_alike hP hr hw level.handle

theorem carryToken_alike (hP : Step.Congruence P) (hr : Reader.Alike P r r') (hw : Writer.Alike P w w') (i : Nat) :
    P (carryToken r w i) (carryToken r' w' i) := by
  refine hP.bind hw.takesTokens fun taken => ?_
  cases taken with
  | true => exact hP.bind (hr.nestedToken i) hw.token
  | false => exact hP.bind (hP.refuse _) fun _ => hP.bind (hr.nestedToken i) hw.token

theorem advance_alike (hP : Step.Congruence P) (hr : Reader.Alike P r r') (hw : Writer.Alike P w w') (limit : Nat)
    (walk : Walk) : P (advance limit r w walk) (advance limit r' w' walk) := by
  cases walk with
  | finished => exact hP.answer _
  | claims handle outer =>
    refine hP.bind hr.nextClaim fun answer => ?_
    cases answer with
    | some c => exact hP.bind (hw.claim c) fun _ => hP.answer _
    | none => cases handle with
      | none => exact hP.bind hw.startSection fun _ => hP.answer _
      | some handle => exact hP.answer _
  | entries level outer =>
    refine hP.bind (hr.enter level.next) fun slot => ?_
    cases slot with
    | noMore => exact hP.bind (leave_alike hP hr hw level) fun _ => hP.answer _
    | nested name =>
      refine hP.bind (openSection_alike hP hw level) fun _ => ?_
      exact hP.bind (carryToken_alike hP hr hw level.next) fun _ => hP.answer _
    | entered name =>
      refine hP.bind (openSection_alike hP hw level) fun _ => ?_
      by_cases hl : limit ≤ outer.length
      · simp only [hl, ite_true]
        exact hP.refuse _
      · simp only [hl, ite_false]
        exact hP.bind (hw.openSubmodule name) fun _ => hP.answer _

theorem proceed_alike (hP : Step.Congruence P) (hr : Reader.Alike P r r') (hw : Writer.Alike P w w') (limit n : Nat)
    (walk : Walk) : P (proceed limit r w n walk) (proceed limit r' w' n walk) := by
  induction n generalizing walk with
  | zero => cases walk with
    | finished => exact hP.answer _
    | claims handle outer => exact hP.refuse _
    | entries level outer => exact hP.refuse _
  | succ n ih => cases walk with
    | finished => exact hP.answer _
    | claims handle outer => exact hP.bind (advance_alike hP hr hw limit _) ih
    | entries level outer => exact hP.bind (advance_alike hP hr hw limit _) ih

end Walk

/-! ## One walk as the image of another -/

/-- Whether `y` does to the image of a state what `x` does to the state. -/
def Step.Image (π : σ → τ) ⦃α : Type⦄ (x : Step σ α) (y : Step τ α) : Prop :=
  ∀ s, y (π s) = ((x s).1, π (x s).2)

theorem Step.Image.congruence (π : σ → τ) : Step.Congruence (Step.Image π) where
  answer _ _ := rfl
  refuse _ _ := rfl
  bind {_ _ x y f g} h hf s := by
    have hs := h s
    rw [Step.bind_apply, Step.bind_apply]
    rcases hx : x s with ⟨e | a, t⟩ <;> rw [hx] at hs <;> rw [hs]
    exact hf a t

theorem Step.Image.tryCatch {α : Type} {π : σ → τ} {x : Step σ α} {y : Step τ α} {f : Error → Step σ α}
    {g : Error → Step τ α} (h : Step.Image π x y) (hf : ∀ e, Step.Image π (f e) (g e)) :
    Step.Image π (tryCatch x f) (tryCatch y g) := by
  intro s
  have hs := h s
  rcases hx : x s with ⟨e | a, t⟩ <;> rw [hx] at hs
  · rw [Step.tryCatch_of_error hx, Step.tryCatch_of_error hs]
    exact hf e t
  · rw [Step.tryCatch_of_ok hx, Step.tryCatch_of_ok hs]

theorem Walk.run_image {π : σ → τ} {r : Reader σ} {r' : Reader τ} {w : Writer σ} {w' : Writer τ} {limit : Nat}
    (hr : Reader.Alike (Step.Image π) r r') (hw : Writer.Alike (Step.Image π) w w')
    (he : ∀ s, r'.extent (π s) = r.extent s) : Step.Image π (run limit r w) (run limit r' w') := by
  intro s
  have hrun : run limit r' w' (π s) = proceed limit r' w' (r'.extent (π s)) beginning (π s) := rfl
  rw [hrun, he]
  exact proceed_alike (Step.Image.congruence π) hr hw limit (r.extent s) beginning s

/-! ## Taking notes -/

/-- The step, which leaves a note on the state it found and on its answer. -/
def Step.noting {α : Type} (note : ς → Except Error α → κ) (x : Step ς α) : Step (ς × List κ) α :=
  fun (s, notes) => let (a, t) := x s; (a, (t, notes ++ [note s a]))

/-- The reader, with a note for each call and on the state it found. Where the note is the call, it is `logged`. -/
def Reader.noting (note : ς → Call → κ) (r : Reader ς) : Reader (ς × List κ) where
  nextClaim := r.nextClaim.noting fun s a => note s (.nextClaim a)
  enter i := (r.enter i).noting fun s a => note s (.enter i a)
  exit := r.exit.noting fun s a => note s (.exit a)
  nestedToken i := (r.nestedToken i).noting fun s a => note s (.nestedToken i a)
  rewind s := (r.rewind s.1, s.2 ++ [note s.1 .rewind])
  extent s := r.extent s.1

def Writer.noting (note : ς → Call → κ) (w : Writer ς) : Writer (ς × List κ) where
  claim c := (w.claim c).noting fun s a => note s (.claim c a)
  startSection := w.startSection.noting fun s a => note s (.startSection a)
  endSection := w.endSection.noting fun s a => note s (.endSection a)
  openSubmodule name := (w.openSubmodule name).noting fun s a => note s (.openSubmodule name a)
  closeSubmodule handle := (w.closeSubmodule handle).noting fun s a => note s (.closeSubmodule handle a)
  takesTokens s := let (b, t) := w.takesTokens s.1; (b, (t, s.2 ++ [note s.1 (.takesTokens b)]))
  token t := (w.token t).noting fun s a => note s (.token t a)

theorem Writer.takesTokens_noting (note : ς → Call → κ) (w : Writer ς) :
    (modifyGet (w.noting note).takesTokens : Step (ς × List κ) Bool) =
      (modifyGet w.takesTokens : Step ς Bool).noting fun s a => note s (.takesTokens (a.toOption.getD false)) := rfl

/-- Notes can be dropped. -/
theorem Reader.noting_dropped (note : ς → Call → κ) (r : Reader ς) :
    Reader.Alike (Step.Image Prod.fst) (r.noting note) r :=
  ⟨fun _ => rfl, fun _ _ => rfl, fun _ => rfl, fun _ _ => rfl⟩

theorem Writer.noting_dropped (note : ς → Call → κ) (w : Writer ς) :
    Writer.Alike (Step.Image Prod.fst) (w.noting note) w :=
  ⟨fun _ _ => rfl, fun _ => rfl, fun _ => rfl, fun _ _ => rfl, fun _ _ => rfl, fun _ => rfl, fun _ _ => rfl⟩

section
variable (note : ς → Call → κ) (f : κ → ν) (log : List ν)

/-- Notes can be put down in other words and behind other notes. -/
theorem Step.noting_copied {α : Type} (call : Except Error α → Call) (x : Step ς α) :
    Step.Image (fun s => (s.1, log ++ s.2.map f)) (x.noting fun s a => note s (call a))
      (x.noting fun s a => f (note s (call a))) := by
  intro s
  simp [Step.noting]

theorem Reader.noting_copied (r : Reader ς) : Reader.Alike (Step.Image fun s => (s.1, log ++ s.2.map f))
    (r.noting note) (r.noting fun s call => f (note s call)) where
  nextClaim := Step.noting_copied note f log .nextClaim _
  enter i := Step.noting_copied note f log (.enter i) _
  exit := Step.noting_copied note f log .exit _
  nestedToken i := Step.noting_copied note f log (.nestedToken i) _

theorem Writer.noting_copied (w : Writer ς) : Writer.Alike (Step.Image fun s => (s.1, log ++ s.2.map f))
    (w.noting note) (w.noting fun s call => f (note s call)) where
  claim c := Step.noting_copied note f log (.claim c) _
  startSection := Step.noting_copied note f log .startSection _
  endSection := Step.noting_copied note f log .endSection _
  openSubmodule name := Step.noting_copied note f log (.openSubmodule name) _
  closeSubmodule handle := Step.noting_copied note f log (.closeSubmodule handle) _
  takesTokens := Step.noting_copied note f log (fun a => .takesTokens (a.toOption.getD false)) (modifyGet w.takesTokens)
  token t := Step.noting_copied note f log (.token t) _

end

end ClaimRelay
