import ClaimRelay.Proofs.Writer.Requests

/-!
# The levels as one stack

A builder keeps its innermost level apart from those around it. Here the levels are one stack, which could be empty
and is looked at before each call. The two do the same: the stack is never empty, and what a call or the finish
would report of an empty one is never reported.
-/

namespace ClaimRelay

namespace LevelStack

def innermost : Step (List OpenLevel) OpenLevel := do
  match ← get with
  | [] => throw (.structural .alreadyFinished)
  | level :: _ => return level

def running : Step (List OpenLevel) OpenLevel := do
  let level ← innermost
  if level.status = .running then return level else throw (.structural .noSectionOpen)

def replace (level : OpenLevel) : Step (List OpenLevel) Unit := modify fun levels => level :: levels.tail

def claim (c : Claim) : Step (List OpenLevel) Unit := do
  let level ← innermost
  if level.status ≠ .pending then throw (.structural (.claimAfterSection c.label))
  replace { level with claims := level.claims ++ [c] }

def startSection : Step (List OpenLevel) Unit := do
  let level ← innermost
  if level.status ≠ .pending then throw (.structural .sectionAlreadyStarted)
  replace { level with status := .running }

def endSection : Step (List OpenLevel) Unit := do
  let level ← running
  replace { level with status := .ended }

def putEntry (entry : Entry) : Step (List OpenLevel) Unit := do
  let level ← running
  replace { level with entries := level.entries ++ [entry] }

def openSubmodule (name : String) : Step (List OpenLevel) Nat := do
  let _ ← running
  modify fun levels => { name } :: levels
  return (← get).length - 1

def closeSubmodule (handle : Nat) : Step (List OpenLevel) Unit := do
  let depth := (← get).length - 1
  if depth = 0 ∨ handle ≠ depth then throw (.structural (.closesOtherDepth handle depth))
  match ← get with
  | [] => throw (.structural .noOpenSubmodule)
  | level :: outer =>
    set outer
    if level.status = .running then throw (.structural (.closedWithNamedSectionOpen level.name))
    putEntry (.submodule level.name level.claims level.entries)

def writer : Writer (List OpenLevel) where
  claim := claim
  startSection := startSection
  endSection := endSection
  openSubmodule := openSubmodule
  closeSubmodule := closeSubmodule
  takesTokens s := (true, s)
  token t := putEntry (.token t)

def finish (levels : List OpenLevel) : Except Error ClaimSet :=
  if levels.length ≠ 1 then throw (.structural (.submodulesStillOpen (levels.length - 1)))
  else match levels with
    | [] => throw (.structural .noRootLevel)
    | root :: _ =>
      if root.status = .running then throw (.structural .sectionStillOpen)
      else pure ⟨root.claims, root.entries⟩

/-- What is only reported of a stack without levels. -/
def ofEmpty : List Misuse := [.alreadyFinished, .noRootLevel, .noOpenSubmodule]

end LevelStack

namespace Builder

def levels (b : Builder) : List OpenLevel := b.top :: b.outer

/-! ## The stack of a builder -/

theorem running_image : Step.Image levels runningTop LevelStack.running := by
  intro b
  obtain ⟨⟨name, cs, es, status⟩, outer⟩ := b
  cases status <;> rfl

theorem putEntry_image (entry : Entry) : Step.Image levels (putEntry entry) (LevelStack.putEntry entry) :=
  (Step.Image.congruence levels).bind running_image fun _ _ => rfl

theorem closeSubmodule_image (handle : Nat) :
    Step.Image levels (closeSubmodule handle) (LevelStack.closeSubmodule handle) := by
  intro b
  obtain ⟨⟨name, cs, es, status⟩, outer⟩ := b
  cases outer with
  | nil => rfl
  | cons above outer =>
    rw [close_eq]
    unfold LevelStack.closeSubmodule
    rw [Step.bind_of_ok (Step.get_apply _)]
    simp only [levels, List.length_cons, Nat.add_sub_cancel, Nat.add_eq_zero_iff, Nat.one_ne_zero, and_false, false_or]
    by_cases hh : handle = outer.length + 1
    · rw [if_pos hh, if_neg (Classical.not_not.mpr hh)]
      by_cases hs : status = .running
      · subst hs
        rfl
      · rw [if_neg hs]
        have hput := putEntry_image (.submodule name cs es) ⟨above, outer⟩
        cases status with
        | running => exact absurd rfl hs
        | pending => exact hput
        | ended => exact hput
    · rw [if_neg hh, if_pos hh]
      rfl

theorem writer_image : Writer.Alike (Step.Image levels) writer LevelStack.writer where
  claim c := by
    intro b
    obtain ⟨⟨name, cs, es, status⟩, outer⟩ := b
    cases status <;> rfl
  startSection := by
    intro b
    obtain ⟨⟨name, cs, es, status⟩, outer⟩ := b
    cases status <;> rfl
  endSection := (Step.Image.congruence levels).bind running_image fun _ _ => rfl
  openSubmodule _ := (Step.Image.congruence levels).bind running_image fun _ _ => rfl
  closeSubmodule := closeSubmodule_image
  takesTokens _ := rfl
  token t := putEntry_image (.token t)

theorem session_levels (requests : List Writer.Request) (b : Builder) :
    LevelStack.writer.session requests b.levels =
      ((writer.session requests b).1, (writer.session requests b).2.levels) := by
  induction requests generalizing b with
  | nil => rfl
  | cons r rest ih =>
    have hr := Writer.answer_alike (Step.Image.congruence levels) writer_image r b
    simp only [Writer.session, hr, ih]

theorem finish_levels (b : Builder) : LevelStack.finish b.levels = b.finish := by
  obtain ⟨top, outer⟩ := b
  cases outer <;> rfl

end Builder

end ClaimRelay
