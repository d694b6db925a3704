import ClaimRelay.Json.TextWriter
import ClaimRelay.Proofs.Writer.Modes

/-!
# The JSON writer on every kind of buffer

Text goes out piece by piece, and what goes out next hangs on keys, frames and layout alone.
-/

namespace ClaimRelay.Json.TextWriter

def outlet : Outlet TextWriter where
  out := TextWriter.out
  withOut out s := { s with out }
  out_withOut _ _ := rfl
  withOut_withOut _ _ _ := rfl

theorem outlet_out (s : TextWriter) : outlet.out s = s.out := rfl

section
variable {mode : Buffer.Mode}

theorem frames_inMode (s : TextWriter) : (outlet.inMode mode s).frames = s.frames := rfl

theorem size_out_inMode (s : TextWriter) : (outlet.inMode mode s).out.size = s.out.size :=
  Buffer.size_inMode mode s.out

theorem put_paced (part : Part) (piece : List Char) : Step.Paced outlet mode (put part piece) (put part piece) := by
  refine .update (fun s => s.out.size) (fun _ => Text.utf8 (String.ofList piece)) part.failure (fun s => ?_)
    size_out_inMode fun _ => rfl
  rw [Buffer.append_eq_insert, outlet_out]
  cases s.out.insert s.out.size (Text.utf8 (String.ofList piece)) <;> rfl

theorem putCopies_paced (piece : List Char) (count : Nat) :
    Step.Paced outlet mode (putCopies piece count) (putCopies piece count) := by
  have hP := Step.Paced.congruence outlet mode
  induction count with
  | zero => exact hP.answer ()
  | succ count ih => exact hP.bind (put_paced .mark piece) fun _ => ih

theorem putScalar_paced (v : Json) : Step.Paced outlet mode (putScalar v) (putScalar v) := by
  have hP := Step.Paced.congruence outlet mode
  unfold putScalar
  induction v.scalarPieces with
  | nil => exact hP.answer ()
  | cons piece rest ih => exact hP.bind (put_paced .scalar piece) fun _ => ih

theorem reformat_paced (f : Format → Format) : Step.Paced outlet mode (reformat f) (reformat f) :=
  .modifyGet (fun _ => rfl) fun _ => rfl

theorem countEnded_paced : Step.Paced outlet mode countEnded countEnded := by
  intro s
  cases h : s.format.objectEnded? with
  | none => exact .quiet (countEnded_of_none h) (countEnded_of_none (s := outlet.inMode mode s) h) rfl
  | some format => exact .quiet (countEnded_of_some h) (countEnded_of_some (s := outlet.inMode mode s) h) rfl

theorem putIndented_paced (mark unit : List Char) :
    Step.Paced outlet mode (putIndented mark unit) (putIndented mark unit) := by
  have hP := Step.Paced.congruence outlet mode
  refine hP.bind (put_paced .mark mark) fun _ => ?_
  exact .look (fun _ => rfl) fun s => putCopies_paced unit s.format.depth

theorem beginObject_paced : Step.Paced outlet mode beginObject beginObject :=
  (Step.Paced.congruence outlet mode).bind (reformat_paced .objectBegun) fun _ => put_paced .mark _

theorem endObject_paced : Step.Paced outlet mode endObject endObject := by
  have hP := Step.Paced.congruence outlet mode
  refine hP.bind countEnded_paced fun _ => ?_
  refine .look (fun _ => rfl) fun s => ?_
  split
  · exact hP.bind (putIndented_paced _ _) fun _ => put_paced .mark _
  · exact hP.bind (hP.answer _) fun _ => put_paced .mark _

theorem beginField_paced (first : Bool) (key : String) :
    Step.Paced outlet mode (beginField first key) (beginField first key) := by
  have hP := Step.Paced.congruence outlet mode
  have hkey (mark : List Char) : Step.Paced outlet mode (do putScalar (.string key); put .mark mark) _ :=
    hP.bind (putScalar_paced (.string key)) fun _ => put_paced .mark mark
  refine .look (fun _ => rfl) fun s => ?_
  split
  · cases first with
    | true => exact hkey [':']
    | false => exact hP.bind (put_paced .mark [',']) fun _ => hkey [':']
  · exact hP.bind (putIndented_paced _ _) fun _ => hkey [':', ' ']

theorem endField_paced : Step.Paced outlet mode endField endField := reformat_paced .fieldEnded

mutual

theorem putValue_paced : ∀ (v : Json), Step.Paced outlet mode (putValue v) (putValue v)
  | .object fields => by
    have hP := Step.Paced.congruence outlet mode
    rw [putValue]
    exact hP.bind beginObject_paced fun _ => hP.bind (putFields_paced true fields) fun _ => endObject_paced
  | .null => putScalar_paced .null
  | .bool b => putScalar_paced (.bool b)
  | .int v => putScalar_paced (.int v)
  | .double v => putScalar_paced (.double v)
  | .string v => putScalar_paced (.string v)

theorem putFields_paced (first : Bool) : ∀ (fields : List (String × Json)),
    Step.Paced outlet mode (putFields first fields) (putFields first fields)
  | [] => (Step.Paced.congruence outlet mode).answer ()
  | (key, v) :: rest => by
    have hP := Step.Paced.congruence outlet mode
    rw [putFields]
    refine hP.bind (beginField_paced first key) fun _ => ?_
    refine hP.bind (putValue_paced v) fun _ => ?_
    exact hP.bind endField_paced fun _ => putFields_paced false rest

end

theorem setTop_paced (frame : Frame) : Step.Paced outlet mode (setTop frame) (setTop frame) :=
  .modifyGet (fun _ => rfl) fun _ => rfl

theorem pop_paced : Step.Paced outlet mode pop? pop? := .modifyGet (fun _ => rfl) fun _ => rfl

theorem addKey_paced (key : String) (keys : List String) :
    Step.Paced outlet mode (addKey key keys) (addKey key keys) := by
  unfold addKey
  split
  · exact (Step.Paced.congruence outlet mode).refuse _
  · exact (Step.Paced.congruence outlet mode).answer _

/-- Frames that are set together with all that stays. -/
theorem setFrames_paced (s : TextWriter) (frames : List Frame) :
    Step.PacedAt outlet mode (set (⟨s.format, s.out, frames, s.submodules⟩ : TextWriter))
      (set (⟨s.format, (outlet.inMode mode s).out, frames, s.submodules⟩ : TextWriter)) s := .quiet rfl rfl rfl

theorem claim_paced (c : Claim) : Step.Paced outlet mode (claim c) (claim c) := by
  have hP := Step.Paced.congruence outlet mode
  refine .look (fun _ => rfl) fun s => ?_
  split
  · refine hP.bind (addKey_paced _ _) fun more => ?_
    refine hP.bind (setTop_paced _) fun _ => ?_
    refine hP.bind (beginField_paced _ _) fun _ => ?_
    exact hP.bind (putValue_paced _) fun _ => endField_paced
  · exact hP.refuse _

theorem startSection_paced : Step.Paced outlet mode startSection startSection := by
  intro s
  apply Step.PacedAt.look
  rw [frames_inMode]
  split
  · exact setFrames_paced s _
  · exact .quiet rfl rfl rfl

theorem endSection_paced : Step.Paced outlet mode endSection endSection := by
  have hP := Step.Paced.congruence outlet mode
  refine hP.bind pop_paced fun frame => ?_
  split
  · refine .optional (fun h => hP.bind endObject_paced fun _ => hP.bind endField_paced fun _ => h) ?_
    refine .look (fun _ => rfl) fun s => ?_
    split
    · exact setTop_paced _
    · exact hP.refuse _
  · exact hP.refuse _

theorem beginEntries_paced : Step.Paced outlet mode beginEntries beginEntries := by
  have hP := Step.Paced.congruence outlet mode
  intro s
  apply Step.PacedAt.look
  rw [frames_inMode]
  split
  · refine .bind (addKey_paced _ _ s) fun more t hmore => ?_
    obtain rfl : t = s := by
      unfold addKey at hmore
      split at hmore <;> cases hmore
      rfl
    refine .bind (setFrames_paced t _) fun _ u _ => ?_
    exact hP.bind (beginField_paced _ _) (fun _ => beginObject_paced) u
  · exact .quiet rfl rfl rfl

theorem beginEntry_paced (name : String) : Step.Paced outlet mode (beginEntry name) (beginEntry name) := by
  have hP := Step.Paced.congruence outlet mode
  refine .look (fun _ => rfl) fun s => ?_
  split
  · rename_i keys begun outer _
    refine hP.bind (setTop_paced _) fun _ => ?_
    have hentry : Step.Paced outlet mode
        (do setTop (.sect (← addKey name keys) true); beginField keys.isEmpty name) _ :=
      hP.bind (addKey_paced name keys) fun more => hP.bind (setTop_paced (.sect more true)) fun _ =>
        beginField_paced keys.isEmpty name
    cases begun with
    | true => exact hentry
    | false => exact hP.bind beginEntries_paced fun _ => hentry
  · exact hP.refuse _

theorem openSubmodule_paced (name : String) : Step.Paced outlet mode (openSubmodule name) (openSubmodule name) := by
  have hP := Step.Paced.congruence outlet mode
  refine hP.bind (beginEntry_paced name) fun _ => ?_
  refine hP.bind beginObject_paced fun _ => ?_
  refine hP.bind (.modifyGet (fun _ => rfl) fun _ => rfl) fun _ => ?_
  exact .look (fun _ => rfl) fun s => hP.answer s.submodules

theorem closeSubmodule_paced (handle : Nat) :
    Step.Paced outlet mode (closeSubmodule handle) (closeSubmodule handle) := by
  have hP := Step.Paced.congruence outlet mode
  refine .look (fun _ => rfl) fun s => ?_
  refine .optional (hP.bind (hP.refuse _) fun _ => ·) ?_
  refine hP.bind pop_paced fun inner => ?_
  split
  · refine .optional (hP.bind (hP.refuse _) fun _ => ·) ?_
    refine hP.bind endObject_paced fun _ => ?_
    exact hP.bind endField_paced fun _ => .modifyGet (fun _ => rfl) fun _ => rfl
  · exact hP.refuse _

theorem token_paced (t : NestedToken) : Step.Paced outlet mode (token t) (token t) := by
  have hP := Step.Paced.congruence outlet mode
  refine hP.bind (beginEntry_paced t.name) fun _ => ?_
  exact hP.bind (putValue_paced _) fun _ => endField_paced

end

/-- Ends the object of the token, which is the only one that may still be open. -/
def complete : Step TextWriter Unit := do
  match (← get).frames with
  | [.token _ status] =>
    if status = .running then throw (.structural .objectsStillOpen)
    modify fun s => { s with frames := [] }
    endObject
  | _ => throw (.structural .objectsStillOpen)

theorem finish_eq : finish = (do complete; modifyGet fun s => (s.out, { s with out := .emptyGrowable })) := by
  unfold finish complete
  rw [bind_assoc]
  congr 1
  funext s
  cases s.frames with
  | nil => rfl
  | cons inner outer => cases inner with
    | sect keys begun => cases outer <;> rfl
    | token keys status => cases outer with
      | nil => cases status <;> rfl
      | cons frame rest => rfl

theorem complete_paced {mode : Buffer.Mode} : Step.Paced outlet mode complete complete := by
  have hP := Step.Paced.congruence outlet mode
  refine .look (fun _ => rfl) fun s => ?_
  split
  · refine .optional (hP.bind (hP.refuse _) fun _ => ·) ?_
    exact hP.bind (.modifyGet (fun _ => rfl) fun _ => rfl) fun _ => endObject_paced
  · exact hP.refuse _

theorem renderer_even (mode : Buffer.Mode) : renderer.Even outlet mode where
  claim := claim_paced
  startSection := startSection_paced
  endSection := endSection_paced
  openSubmodule := openSubmodule_paced
  closeSubmodule := closeSubmodule_paced
  takesTokens := .modifyGet (fun _ => rfl) fun _ => rfl
  token := token_paced
  fresh _ _ _ := rfl
  starts s := ⟨beginObject, ⟨s.format, .growable [], [.token [] .pending], 0⟩, beginObject_paced, rfl, rfl, rfl⟩
  finishes := ⟨complete, fun s => { s with out := .emptyGrowable }, complete_paced, fun _ _ => rfl, finish_eq⟩

end ClaimRelay.Json.TextWriter
