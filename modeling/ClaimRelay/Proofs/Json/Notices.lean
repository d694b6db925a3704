import ClaimRelay.Proofs.Json.Modes
import ClaimRelay.Proofs.Walk.Alike

/-!
# Notices of objects

A format is told of each object that begins and of each that ends, often in the middle of a call that may fail further
on. The noted writer is the JSON writer with a list of what the format has been told. The list changes nothing
(`outcomes_noted`).
-/

namespace ClaimRelay.Json

/-! ## Calls in parts

Between the objects that a call begins and ends.
-/

namespace TextWriter

def putClaimKey (c : Claim) : Step TextWriter Unit := do
  match (← get).frames with
  | .token keys .pending :: _ =>
    let key := toString c.label.toInt
    setTop (.token (← addKey key keys) .pending)
    beginField keys.isEmpty key
  | _ => throw (.structural (.claimOutsideToken c.label))

theorem claim_eq (c : Claim) : claim c = (do putClaimKey c; putValue (.ofValue c.value); endField) := by
  unfold claim putClaimKey
  rw [bind_assoc]
  congr 1
  funext s
  rcases s.frames with _ | ⟨⟨keys, _ | _ | _⟩ | ⟨keys, begun⟩, outer⟩ <;> simp only [bind_assoc] <;> rfl

/-- Takes the section off, and answers whether its object has been begun. -/
def popSection : Step TextWriter Bool := do
  match ← pop? with
  | some (.sect _ begun) => return begun
  | _ => throw (.structural .noSectionToEnd)

def settleSection : Step TextWriter Unit := do
  match (← get).frames with
  | .token keys .running :: _ => setTop (.token keys .ended)
  | _ => throw (.structural .sectionOutsideToken)

theorem endSection_eq : endSection = (do
    let begun ← popSection
    if begun then
      endObject
      endField
    settleSection) := by
  unfold endSection popSection
  rw [bind_assoc]
  congr 1
  funext top
  rcases top with _ | ⟨keys, status⟩ | ⟨keys, begun⟩ <;> rfl

def putEntriesKey : Step TextWriter Unit := do
  let s ← get
  match s.frames with
  | inner :: .token keys status :: outer =>
    let more ← addKey entriesKey keys
    set { s with frames := inner :: .token more status :: outer }
    beginField keys.isEmpty entriesKey
  | _ => throw (.structural .unnestedSection)

theorem beginEntries_eq : beginEntries = (do putEntriesKey; beginObject) := by
  unfold beginEntries putEntriesKey
  rw [bind_assoc]
  congr 1
  funext s
  rcases s.frames with _ | ⟨inner, _ | ⟨⟨keys, status⟩ | ⟨keys, begun⟩, outer⟩⟩ <;> simp only [bind_assoc] <;> rfl

/-- The keys of the section at hand, and whether its object has been begun. From here on it counts as begun. -/
def enterSection (name : String) : Step TextWriter (List String × Bool) := do
  match (← get).frames with
  | .sect keys begun :: _ =>
    setTop (.sect keys true)
    return (keys, begun)
  | _ => throw (.structural (.namedEntryOutsideSection name))

def putEntryKey (name : String) (keys : List String) : Step TextWriter Unit := do
  setTop (.sect (← addKey name keys) true)
  beginField keys.isEmpty name

theorem beginEntry_eq (name : String) : beginEntry name = (do
    let (keys, begun) ← enterSection name
    unless begun do beginEntries
    putEntryKey name keys) := by
  unfold beginEntry enterSection
  rw [bind_assoc]
  congr 1
  funext s
  rcases s.frames with _ | ⟨⟨keys, status⟩ | ⟨keys, begun⟩, outer⟩ <;> simp only [bind_assoc] <;> rfl

def pushSubmodule : Step TextWriter Nat := do
  modify fun s => { s with frames := .token [] .pending :: s.frames, submodules := s.submodules + 1 }
  return (← get).submodules

def popSubmodule (handle : Nat) : Step TextWriter Unit := do
  let s ← get
  if handle ≠ s.submodules ∨ s.submodules = 0 then
    throw (.structural (.closingDepth handle s.submodules))
  match ← pop? with
  | some (.token _ status) => if status = .running then throw (.structural .closedWithSectionOpen)
  | _ => throw (.structural .closedWithSectionOpen)

def countClosed : Step TextWriter Unit := modify fun s => { s with submodules := s.submodules - 1 }

theorem closeSubmodule_eq (handle : Nat) :
    closeSubmodule handle = (do popSubmodule handle; endObject; endField; countClosed) := by
  unfold closeSubmodule popSubmodule
  rw [bind_assoc]
  congr 1
  funext s
  by_cases h : handle ≠ s.submodules ∨ s.submodules = 0
  · simp only [h, ite_true]
    rfl
  · simp only [h, ite_false, bind_assoc]
    congr 1
    funext top
    rcases top with _ | ⟨keys, _ | _ | _⟩ | ⟨keys, begun⟩ <;> rfl

def restart (out : Buffer) : Step TextWriter Unit :=
  modify fun s => { s with out, frames := [.token [] .pending], submodules := 0 }

/-- Takes the frame of the token off, which has to be the only one. -/
def popLast : Step TextWriter Unit := do
  match (← get).frames with
  | [.token _ status] =>
    if status = .running then throw (.structural .objectsStillOpen)
    modify fun s => { s with frames := [] }
  | _ => throw (.structural .objectsStillOpen)

def handBack : Step TextWriter Buffer := modifyGet fun s => (s.out, { s with out := .emptyGrowable })

theorem finish_eq_parts : finish = (do popLast; endObject; handBack) := by
  unfold finish popLast
  rw [bind_assoc]
  congr 1
  funext s
  rcases s.frames with _ | ⟨⟨keys, _ | _ | _⟩ | ⟨keys, begun⟩, _ | ⟨frame, outer⟩⟩ <;> rfl

end TextWriter

/-! ## Notices -/

/-- What a format is told of an object, before the brace is written. -/
inductive Notice
  | begun
  | ended
  deriving DecidableEq

/-- A writer with all that its format has been told, in order. -/
abbrev NotedWriter := TextWriter × List Notice

namespace NotedWriter

open TextWriter

def note (notice : Notice) : Step NotedWriter Unit := modify fun (s, notices) => (s, notices ++ [notice])

def noteBegun : Step NotedWriter Unit := do
  note .begun
  beginObject.onFst

def noteEnded : Step NotedWriter Unit := do
  note .ended
  endObject.onFst

mutual

def noteValue : Json → Step NotedWriter Unit
  | .object fields => do
    noteBegun
    noteFields true fields
    noteEnded
  | v => (putScalar v).onFst

def noteFields (first : Bool) : List (String × Json) → Step NotedWriter Unit
  | [] => return
  | (key, v) :: rest => do
    (beginField first key).onFst
    noteValue v
    endField.onFst
    noteFields false rest

end

def noteEntry (name : String) : Step NotedWriter Unit := do
  let (keys, begun) ← (enterSection name).onFst
  unless begun do
    putEntriesKey.onFst
    noteBegun
  (putEntryKey name keys).onFst

def renderer : Renderer NotedWriter where
  claim c := do
    (putClaimKey c).onFst
    noteValue (.ofValue c.value)
    endField.onFst
  startSection := startSection.onFst
  endSection := do
    if ← popSection.onFst then
      noteEnded
      endField.onFst
    settleSection.onFst
  openSubmodule name := do
    noteEntry name
    noteBegun
    pushSubmodule.onFst
  closeSubmodule handle := do
    (popSubmodule handle).onFst
    noteEnded
    endField.onFst
    countClosed.onFst
  takesTokens s := (true, s)
  token t := do
    noteEntry t.name
    noteValue (.object [("kind", .int t.kind.code.toNat), ("token", .ofBytes t.bytes)])
    endField.onFst
  streaming _ := true
  start out := do
    (restart out).onFst
    noteBegun
  finish := do
    popLast.onFst
    noteEnded
    handBack.onFst

def outlet : Outlet NotedWriter where
  out s := s.1.out
  withOut out s := ({ s.1 with out }, s.2)
  out_withOut _ _ := rfl
  withOut_withOut _ _ _ := rfl

/-! ## Without the notices -/

theorem congruence : Step.Congruence (Step.Image (Prod.fst : NotedWriter → TextWriter)) :=
  Step.Image.congruence _

theorem onFst_image {α : Type} (x : Step TextWriter α) : Step.Image Prod.fst (x.onFst : Step NotedWriter α) x :=
  fun _ => rfl

theorem noteBegun_image : Step.Image Prod.fst noteBegun beginObject := fun _ => rfl

theorem noteEnded_image : Step.Image Prod.fst noteEnded endObject := fun _ => rfl

mutual

theorem noteValue_image : ∀ v : Json, Step.Image Prod.fst (noteValue v) (putValue v)
  | .object fields => by
    rw [noteValue, putValue]
    refine congruence.bind noteBegun_image fun _ => ?_
    exact congruence.bind (noteFields_image true fields) fun _ => noteEnded_image
  | .null => onFst_image (putScalar .null)
  | .bool b => onFst_image (putScalar (.bool b))
  | .int v => onFst_image (putScalar (.int v))
  | .double v => onFst_image (putScalar (.double v))
  | .string v => onFst_image (putScalar (.string v))

theorem noteFields_image (first : Bool) : ∀ fields : List (String × Json),
    Step.Image Prod.fst (noteFields first fields) (putFields first fields)
  | [] => congruence.answer ()
  | (key, v) :: rest => by
    rw [noteFields, putFields]
    refine congruence.bind (onFst_image _) fun _ => congruence.bind (noteValue_image v) fun _ => ?_
    exact congruence.bind (onFst_image _) fun _ => noteFields_image false rest

end

theorem noteEntry_image (name : String) : Step.Image Prod.fst (noteEntry name) (beginEntry name) := by
  rw [beginEntry_eq]
  refine congruence.bind (onFst_image _) fun (keys, begun) => ?_
  cases begun with
  | true => exact onFst_image _
  | false =>
    show Step.Image _ _ (do beginEntries; putEntryKey name keys)
    rw [beginEntries_eq, bind_assoc]
    exact congruence.bind (onFst_image _) fun _ => congruence.bind noteBegun_image fun _ => onFst_image _

theorem writer_image : Writer.Alike (Step.Image Prod.fst) renderer.toWriter TextWriter.renderer.toWriter where
  claim c := by
    show Step.Image _ _ (claim c)
    rw [claim_eq]
    refine congruence.bind (onFst_image _) fun _ => ?_
    exact congruence.bind (noteValue_image _) fun _ => onFst_image _
  startSection := onFst_image _
  endSection := by
    show Step.Image _ _ endSection
    rw [endSection_eq]
    refine congruence.bind (onFst_image _) fun begun => ?_
    cases begun with
    | true => exact congruence.bind noteEnded_image fun _ => congruence.bind (onFst_image _) fun _ => onFst_image _
    | false => exact onFst_image _
  openSubmodule name :=
    congruence.bind (noteEntry_image name) fun _ => congruence.bind noteBegun_image fun _ => onFst_image pushSubmodule
  closeSubmodule handle := by
    show Step.Image _ _ (closeSubmodule handle)
    rw [closeSubmodule_eq]
    refine congruence.bind (onFst_image _) fun _ => congruence.bind noteEnded_image fun _ => ?_
    exact congruence.bind (onFst_image _) fun _ => onFst_image _
  takesTokens _ := rfl
  token t :=
    congruence.bind (noteEntry_image t.name) fun _ => congruence.bind (noteValue_image _) fun _ => onFst_image _

theorem start_image (out : Buffer) : Step.Image Prod.fst (renderer.start out) (TextWriter.renderer.start out) :=
  congruence.bind (onFst_image (restart out)) fun _ => noteBegun_image

theorem finish_image : Step.Image Prod.fst renderer.finish TextWriter.renderer.finish := by
  show Step.Image _ _ finish
  rw [finish_eq_parts]
  exact congruence.bind (onFst_image _) fun _ => congruence.bind noteEnded_image fun _ => onFst_image _

theorem perform_image (call : Renderer.Call) (s : NotedWriter) :
    TextWriter.renderer.perform TextWriter.outlet call s.1 =
      ((renderer.perform outlet call s).1, (renderer.perform outlet call s).2.1) := by
  cases call with
  | start out =>
    have h := start_image out s
    simp only [Renderer.perform, h]
    rfl
  | request r =>
    have h := Writer.answer_alike congruence writer_image r s
    simp only [Renderer.perform, h]
    rfl
  | finish =>
    have h := finish_image s
    simp only [Renderer.perform, h]
    rfl

/-- Whatever is called, the noted writer answers and writes as the writer does. -/
theorem outcomes_noted (calls : List Renderer.Call) (s : NotedWriter) :
    TextWriter.renderer.outcomes TextWriter.outlet calls s.1 =
      ((renderer.outcomes outlet calls s).1, (renderer.outcomes outlet calls s).2.1) := by
  induction calls generalizing s with
  | nil => rfl
  | cons call rest ih =>
    rw [Renderer.outcomes_cons, Renderer.outcomes_cons, perform_image]
    unfold Renderer.further
    split
    · rfl
    · rw [ih]

end NotedWriter

end ClaimRelay.Json
