import ClaimRelay.Binary.TokenWriter
import ClaimRelay.Proofs.Writer.Modes

/-!
# The token writer on every kind of buffer

Headers are put in front of bodies by their size, which a buffer that only counts knows as well.
-/

namespace ClaimRelay.Binary.TokenWriter

def outlet : Outlet TokenWriter where
  out := TokenWriter.out
  withOut out s := { s with out }
  out_withOut _ _ := rfl
  withOut_withOut _ _ _ := rfl

theorem outlet_out (s : TokenWriter) : outlet.out s = s.out := rfl

section
variable {mode : Buffer.Mode}

theorem size_out_inMode (s : TokenWriter) : (outlet.inMode mode s).out.size = s.out.size :=
  Buffer.size_inMode mode s.out

theorem frames_inMode (s : TokenWriter) : (outlet.inMode mode s).frames = s.frames := rfl

theorem put_paced (bytes : List UInt8) : Step.Paced outlet mode (put bytes) (put bytes) := by
  refine .update (fun s => s.out.size) (fun _ => bytes) id (fun s => ?_) size_out_inMode fun _ => rfl
  rw [Buffer.append_eq_insert, outlet_out]
  cases s.out.insert s.out.size bytes <;> rfl

theorem close_paced (tag : Tag) (start : Nat) : Step.Paced outlet mode (close tag start) (close tag start) := by
  refine .update (fun _ => start) (fun s => header tag (s.out.size - start)) id (fun s => ?_) (fun _ => rfl) fun s => ?_
  · rw [outlet_out]
    cases s.out.insert start (header tag (s.out.size - start)) <;> rfl
  · rw [size_out_inMode]

theorem push_paced (frame : Frame) : Step.Paced outlet mode (push frame) (push frame) :=
  .modifyGet (fun _ => rfl) fun _ => rfl

theorem pop_paced : Step.Paced outlet mode pop? pop? := .modifyGet (fun _ => rfl) fun _ => rfl

theorem claim_paced (c : Claim) : Step.Paced outlet mode (claim c) (claim c) := by
  have hP := Step.Paced.congruence outlet mode
  refine .look (fun _ => rfl) fun s => ?_
  split
  · refine hP.bind ?_ put_paced
    cases encodeClaim c with
    | ok bytes => exact hP.answer bytes
    | error e => exact hP.refuse e
  · exact hP.refuse _

/-- Frames that the size of the output may go into. -/
theorem setFrames_paced (s : TokenWriter) (frames : Nat → List Frame) :
    Step.PacedAt outlet mode (set (⟨s.out, frames s.out.size, s.submodules⟩ : TokenWriter))
      (set (⟨(outlet.inMode mode s).out, frames (outlet.inMode mode s).out.size, s.submodules⟩ : TokenWriter)) s := by
  rw [size_out_inMode]
  exact .quiet rfl rfl rfl

theorem startSection_paced : Step.Paced outlet mode startSection startSection := by
  intro s
  apply Step.PacedAt.look
  rw [frames_inMode]
  split
  · exact setFrames_paced s fun size => .sect size 0 :: .token _ .running :: _
  · exact .quiet rfl rfl rfl

theorem countEntry_paced : Step.Paced outlet mode countEntry countEntry := by
  intro s
  apply Step.PacedAt.look
  rw [frames_inMode]
  split
  · exact setFrames_paced s fun _ => .sect _ (_ + 1) :: _
  · exact .quiet rfl rfl rfl

theorem endSection_paced : Step.Paced outlet mode endSection endSection := by
  have hP := Step.Paced.congruence outlet mode
  refine hP.bind pop_paced fun frame => ?_
  split
  · refine .optional (hP.bind (close_paced .sect _) fun _ => ·) ?_
    refine .look (fun _ => rfl) fun s => ?_
    split
    · exact .modifyGet (fun _ => rfl) fun _ => rfl
    · exact hP.refuse _
  · exact hP.refuse _

theorem openSubmodule_paced (name : String) : Step.Paced outlet mode (openSubmodule name) (openSubmodule name) := by
  have hP := Step.Paced.congruence outlet mode
  refine hP.bind countEntry_paced fun _ => ?_
  refine .look (fun s => by simp only [size_out_inMode]) fun s => ?_
  refine hP.bind (push_paced _) fun _ => ?_
  refine hP.bind (put_paced _) fun _ => ?_
  refine .look (fun s => by simp only [size_out_inMode]) fun s => ?_
  refine hP.bind (push_paced _) fun _ => ?_
  refine hP.bind (.modifyGet (fun _ => rfl) fun _ => rfl) fun _ => ?_
  exact .look (fun _ => rfl) fun s => hP.answer s.submodules

theorem closeSubmodule_paced (handle : Nat) :
    Step.Paced outlet mode (closeSubmodule handle) (closeSubmodule handle) := by
  have hP := Step.Paced.congruence outlet mode
  refine .look (fun _ => rfl) fun s => ?_
  refine .optional (hP.bind (hP.refuse _) fun _ => ·) ?_
  refine hP.bind pop_paced fun inner => ?_
  split
  · refine .optional (hP.bind (hP.refuse _) fun _ => ·) ?_
    refine hP.bind (close_paced .token _) fun _ => ?_
    refine hP.bind pop_paced fun around => ?_
    split
    · exact hP.bind (close_paced .submodule _) fun _ => .modifyGet (fun _ => rfl) fun _ => rfl
    · exact hP.refuse _
  · exact hP.refuse _

theorem token_paced (t : NestedToken) : Step.Paced outlet mode (token t) (token t) :=
  (Step.Paced.congruence outlet mode).bind countEntry_paced fun _ => put_paced _

theorem complete_paced : Step.Paced outlet mode complete complete := by
  have hP := Step.Paced.congruence outlet mode
  refine .look (fun _ => rfl) fun s => ?_
  split
  · refine .optional (hP.bind (hP.refuse _) fun _ => ·) ?_
    exact hP.bind (.modifyGet (fun _ => rfl) fun _ => rfl) fun _ => close_paced .token 0
  · exact hP.refuse _

end

theorem renderer_even (mode : Buffer.Mode) : renderer.Even outlet mode where
  claim := claim_paced
  startSection := startSection_paced
  endSection := endSection_paced
  openSubmodule := openSubmodule_paced
  closeSubmodule := closeSubmodule_paced
  takesTokens := .modifyGet (fun _ => rfl) fun _ => rfl
  token := token_paced
  fresh _ _ _ := rfl
  starts _ :=
    ⟨pure (), ⟨.growable [], [.token 0 .pending], 0⟩, (Step.Paced.congruence outlet mode).answer (), rfl, rfl, rfl⟩
  finishes := ⟨complete, fun s => { s with out := .emptyMeasuring }, complete_paced, fun _ _ => rfl, rfl⟩

end ClaimRelay.Binary.TokenWriter
