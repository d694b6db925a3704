import ClaimRelay.Error

/-!
# Calls on things with a state

A `Step` is one call: it answers or fails, and in both cases leaves a state that later calls see. A sequence
of steps stops at the first failure, in the state which that call left.
-/

namespace ClaimRelay

def Step (ς α : Type) : Type := ς → Except Error α × ς

namespace Step

variable {ς σ τ α β : Type}

instance : Monad (Step ς) where
  pure a s := (.ok a, s)
  bind x f s :=
    match x s with
    | (.ok a, s) => f a s
    | (.error e, s) => (.error e, s)

theorem bind_apply (x : Step ς α) (f : α → Step ς β) (s : ς) :
    (x >>= f) s = match x s with
      | (.ok a, t) => f a t
      | (.error e, t) => (.error e, t) := rfl

theorem bind_of_ok {x : Step ς α} {f : α → Step ς β} {a : α} {s t : ς} (h : x s = (.ok a, t)) :
    (x >>= f) s = f a t := by
  simp only [bind, h]

theorem bind_of_error {x : Step ς α} {f : α → Step ς β} {e : Error} {s t : ς} (h : x s = (.error e, t)) :
    (x >>= f) s = (.error e, t) := by
  simp only [bind, h]

instance : LawfulMonad (Step ς) :=
  .mk' (Step ς)
    (fun x => by funext s; simp only [Functor.map]; rcases x s with ⟨_ | _, _⟩ <;> rfl)
    (fun _ _ => rfl)
    (fun x f g => by funext s; simp only [bind]; rcases x s with ⟨_ | _, _⟩ <;> rfl)

instance : MonadStateOf ς (Step ς) where
  get s := (.ok s, s)
  set s _ := (.ok (), s)
  modifyGet f s := let (a, s) := f s; (.ok a, s)

instance : MonadExceptOf Error (Step ς) where
  throw e s := (.error e, s)
  tryCatch x handle s :=
    match x s with
    | (.ok a, s) => (.ok a, s)
    | (.error e, s) => handle e s

theorem tryCatch_of_ok {x : Step ς α} {handle : Error → Step ς α} {a : α} {s t : ς} (h : x s = (.ok a, t)) :
    (tryCatch x handle) s = (.ok a, t) := by
  simp only [tryCatch, tryCatchThe, MonadExceptOf.tryCatch, h]

theorem tryCatch_of_error {x : Step ς α} {handle : Error → Step ς α} {e : Error} {s t : ς}
    (h : x s = (.error e, t)) : (tryCatch x handle) s = handle e t := by
  simp only [tryCatch, tryCatchThe, MonadExceptOf.tryCatch, h]

theorem get_apply (s : ς) : (get : Step ς ς) s = (.ok s, s) := rfl

/-- A step that looks at no state. -/
def ofExcept (x : Except Error α) : Step ς α := fun s => (x, s)

/-- A step that moves to the state `f` gives, or stays where it is when `f` fails. -/
def update (f : ς → Except Error ς) : Step ς Unit := fun s =>
  match f s with
  | .ok s => (.ok (), s)
  | .error e => (.error e, s)

def onFst (x : Step σ α) : Step (σ × τ) α := fun (s, t) => let (a, s) := x s; (a, (s, t))

def onSnd (x : Step τ α) : Step (σ × τ) α := fun (s, t) => let (a, t) := x t; (a, (s, t))

end Step

end ClaimRelay
