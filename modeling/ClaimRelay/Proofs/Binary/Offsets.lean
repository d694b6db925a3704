import ClaimRelay.Proofs.Binary.Modes
import ClaimRelay.Proofs.Step

/-!
# Where bodies start

A header goes in front of a body that is complete, and how long that is follows from where it starts. The places are
kept in the frames, while the output grows behind them, headers of inner bodies included. Whatever is called and
however it ends, each body starts no earlier than the one around it and within the output, so that no header is put
anywhere else.
-/

namespace ClaimRelay

/-! ## Buffers that grow -/

section
variable {b c : Buffer} {offset : Nat} {data : List UInt8} {e : Error}

/-- The refusal of bytes that lie past the end. -/
def Error.IsMisplaced (e : Error) : Prop := ∃ offset size, e = .structural (.insertPastEnd offset size)

theorem Error.overflow_not_misplaced (needed capacity : Nat) : ¬(Error.overflow needed capacity).IsMisplaced :=
  nofun

theorem Buffer.size_of_insert (h : b.insert offset data = .ok c) : c.size = b.size + data.length := by
  by_cases hle : offset ≤ b.size
  · rw [Buffer.insert_within hle] at h
    cases b with
    | measuring count =>
      cases h
      rfl
    | growable content =>
      cases h
      exact Buffer.length_inserted hle
    | fixed capacity content =>
      simp only [Buffer.grow] at h
      split at h
      · cases h
      · cases h
        exact Buffer.length_inserted hle
  · rw [Buffer.insert_past (Nat.lt_of_not_le hle)] at h
    cases h

theorem Buffer.misplaced_of_insert (h : b.insert offset data = .error e) : e.IsMisplaced ↔ b.size < offset := by
  by_cases hle : offset ≤ b.size
  · refine iff_of_false ?_ (Nat.not_lt.mpr hle)
    rw [Buffer.insert_within hle] at h
    cases b with
    | measuring count => cases h
    | growable content => cases h
    | fixed capacity content =>
      simp only [Buffer.grow] at h
      split at h
      · cases h
        exact Error.overflow_not_misplaced _ _
      · cases h
  · have hpast := Nat.lt_of_not_le hle
    refine iff_of_true ?_ hpast
    rw [Buffer.insert_past hpast] at h
    cases h
    exact ⟨offset, b.size, rfl⟩

end

namespace Binary

def Frame.start : Frame → Nat
  | token start _ | sect start _ | submodule start => start

/-- Whether bodies start one inside the other, the innermost no later than at `bound`. -/
def Frame.Ordered : List Frame → Nat → Prop
  | [], _ => True
  | frame :: outer, bound => frame.start ≤ bound ∧ Ordered outer frame.start

theorem Frame.Ordered.mono {frames : List Frame} {m n : Nat} (h : Ordered frames m) (hmn : m ≤ n) :
    Ordered frames n := by
  cases frames with
  | nil => trivial
  | cons frame outer => exact ⟨Nat.le_trans h.1 hmn, h.2⟩

theorem Frame.ordered_iff {frames : List Frame} {n : Nat} : Ordered frames n ↔
    (∀ frame ∈ frames, frame.start ≤ n) ∧ frames.Pairwise fun inner outer => outer.start ≤ inner.start := by
  induction frames generalizing n with
  | nil => exact iff_of_true trivial ⟨List.forall_mem_nil _, .nil⟩
  | cons frame outer ih =>
    rw [Ordered, ih, List.forall_mem_cons, List.pairwise_cons]
    constructor
    · rintro ⟨hframe, houter, hpair⟩
      exact ⟨⟨hframe, fun o ho => Nat.le_trans (houter o ho) hframe⟩, houter, hpair⟩
    · rintro ⟨⟨hframe, -⟩, houter, hpair⟩
      exact ⟨hframe, houter, hpair⟩

namespace TokenWriter

/-- What holds of a writer with `n` submodules open, whatever has been called on it. -/
structure Kept (n : Nat) (s : TokenWriter) : Prop where
  ordered : Frame.Ordered s.frames s.out.size
  counted : s.submodules = n

/-- A refusal that leaves the writer in order, and is not one of a header out of place. -/
def Refused (n : Nat) (e : Error) (s : TokenWriter) : Prop := Kept n s ∧ ¬e.IsMisplaced

/-- The writer with more in its output and the same frames. -/
def Grown (n : Nat) (frames : List Frame) (s : TokenWriter) : Prop := Kept n s ∧ s.frames = frames

section
variable {n : Nat} {s : TokenWriter} {frame : Frame} {frames outer : List Frame}

/-! ## Parts of calls -/

theorem insert_yields {x : Step TokenWriter Unit} {offset : Nat} (bytes : List UInt8) (h : Kept n s)
    (hle : offset ≤ s.out.size) (hok : ∀ out, s.out.insert offset bytes = .ok out → x s = (.ok (), { s with out }))
    (herror : ∀ e, s.out.insert offset bytes = .error e → x s = (.error e, s)) :
    x.Yields s (fun _ => Grown n s.frames) (Refused n) := by
  cases hi : s.out.insert offset bytes with
  | ok out =>
    have hsize := Buffer.size_of_insert hi
    have hgrown : s.out.size ≤ out.size := by omega
    exact .of_ok (hok out hi) ⟨⟨h.ordered.mono hgrown, h.counted⟩, rfl⟩
  | error e =>
    have hplace : ¬e.IsMisplaced := fun hm => Nat.not_lt.mpr hle ((Buffer.misplaced_of_insert hi).mp hm)
    exact .of_error (herror e hi) ⟨h, hplace⟩

theorem put_yields (bytes : List UInt8) (h : Kept n s) :
    (put bytes).Yields s (fun _ => Grown n s.frames) (Refused n) := by
  refine insert_yields bytes h (Nat.le_refl _) (fun out hi => ?_) fun e hi => ?_
  · rw [← Buffer.append_eq_insert] at hi
    simp only [put, Step.update, hi]
    rfl
  · rw [← Buffer.append_eq_insert] at hi
    simp only [put, Step.update, hi]
    rfl

theorem close_of_ok {tag : Tag} {start : Nat} {out : Buffer}
    (h : s.out.insert start (header tag (s.out.size - start)) = .ok out) :
    close tag start s = (.ok (), { s with out }) := by
  simp only [close, Step.update, h]
  rfl

theorem close_of_error {tag : Tag} {start : Nat} {e : Error}
    (h : s.out.insert start (header tag (s.out.size - start)) = .error e) : close tag start s = (.error e, s) := by
  simp only [close, Step.update, h]
  rfl

theorem close_yields (tag : Tag) {start : Nat} (h : Kept n s) (hs : start ≤ s.out.size) :
    (close tag start).Yields s (fun _ => Grown n s.frames) (Refused n) :=
  insert_yields _ h hs (fun _ => close_of_ok) fun _ => close_of_error

/-- A header that would fall past the end is refused as such, and no other is. -/
theorem close_misplaced (tag : Tag) (start : Nat) (s : TokenWriter) :
    (∃ e, (close tag start s).1 = .error e ∧ e.IsMisplaced) ↔ s.out.size < start := by
  cases hi : s.out.insert start (header tag (s.out.size - start)) with
  | ok out =>
    have hplace : ¬s.out.size < start := by
      intro hpast
      rw [Buffer.insert_past hpast] at hi
      cases hi
    rw [close_of_ok hi]
    exact iff_of_false nofun hplace
  | error e =>
    rw [close_of_error hi, ← Buffer.misplaced_of_insert hi]
    exact ⟨fun ⟨_, he, hm⟩ => Except.error.inj he ▸ hm, fun hm => ⟨e, rfl, hm⟩⟩

theorem pop_yields {failed : Error → TokenWriter → Prop} (h : Kept n s) :
    pop?.Yields s (fun top t => t.frames = s.frames.tail ∧ Kept n t ∧
      ∀ frame, top = some frame → frame.start ≤ t.out.size) failed := by
  obtain ⟨out, frames, m⟩ := s
  obtain ⟨hordered, rfl⟩ := h
  refine .of_ok (t := ⟨out, frames.tail, m⟩) rfl ⟨rfl, ?_, ?_⟩
  · cases frames with
    | nil => exact ⟨trivial, rfl⟩
    | cons frame outer => exact ⟨hordered.2.mono hordered.1, rfl⟩
  · cases frames with
    | nil => exact nofun
    | cons frame outer =>
      rintro _ ⟨⟩
      exact hordered.1

/-- The frame on top may become one of the same body. -/
theorem Kept.top {frame' : Frame} (h : Kept n s) (hf : s.frames = frame :: outer) (hs : frame'.start = frame.start) :
    Kept n { s with frames := frame' :: outer } := by
  obtain ⟨hordered, hcounted⟩ := h
  rw [hf] at hordered
  exact ⟨⟨hs ▸ hordered.1, hs ▸ hordered.2⟩, hcounted⟩

/-- A body that starts where the output ends. -/
theorem Kept.push (h : Kept n s) (hs : frame.start = s.out.size) (m : Nat) :
    Kept m ⟨s.out, frame :: s.frames, m⟩ :=
  ⟨⟨Nat.le_of_eq hs, hs ▸ h.ordered⟩, rfl⟩

theorem misuse_refused {misuse : Misuse} (h : Kept n s) (hm : ∀ offset size, misuse ≠ .insertPastEnd offset size) :
    Refused n (.structural misuse) s :=
  ⟨h, fun ⟨offset, size, he⟩ => hm offset size (Error.structural.inj he)⟩

/-! ## Calls -/

theorem encodeClaim_placed {c : Claim} {e : Error} (h : encodeClaim c = .error e) : ¬e.IsMisplaced := by
  unfold encodeClaim at h
  split at h
  · split at h
    · cases h
    · cases h
      exact nofun
  · cases h

theorem claim_yields (c : Claim) (h : Kept n s) : (claim c).Yields s (fun _ => Kept n) (Refused n) := by
  refine .look ?_
  split
  · cases hc : encodeClaim c with
    | ok bytes => exact (put_yields bytes h).mono fun _ _ hg => hg.1
    | error e => exact .refuse ⟨h, encodeClaim_placed hc⟩
  · exact .refuse (misuse_refused h nofun)

theorem startSection_yields (h : Kept n s) : startSection.Yields s (fun _ => Kept n) (Refused n) := by
  refine .look ?_
  split
  · rename_i start outer hf
    have htop : Kept n { s with frames := .token start .running :: outer } := h.top hf rfl
    exact .of_ok rfl (htop.counted ▸ htop.push rfl _)
  · exact .refuse (misuse_refused h nofun)

/-- The token around a section that is done. -/
theorem ended_yields (h : Kept n s) : Step.Yields (do
    match (← get).frames with
    | .token start .running :: outer => modify fun s => { s with frames := .token start .ended :: outer }
    | _ => throw (.structural .sectionOutsideToken)) s (fun _ => Kept n) (Refused n) := by
  refine .look ?_
  split
  · rename_i hf
    exact .of_ok rfl (h.top hf rfl)
  · exact .refuse (misuse_refused h nofun)

theorem endSection_yields (h : Kept n s) : endSection.Yields s (fun _ => Kept n) (Refused n) := by
  refine (pop_yields h).bind fun top t ⟨_, ht, hplace⟩ => ?_
  split
  · split
    · exact (close_yields .sect ht (hplace _ rfl)).bind fun _ u hu => ended_yields hu.1
    · exact ended_yields ht
  · exact .refuse (misuse_refused ht nofun)

theorem countEntry_yields (h : Kept n s) : countEntry.Yields s (fun _ => Kept n) (Refused n) := by
  refine .look ?_
  split
  · rename_i hf
    exact .of_ok rfl (h.top hf rfl)
  · exact .refuse (misuse_refused h nofun)

theorem push_yields {failed : Error → TokenWriter → Prop} (h : Kept n s) (hs : frame.start = s.out.size) :
    (push frame).Yields s (fun _ => Kept n) failed := .of_ok rfl (h.counted ▸ h.push hs _)

theorem openSubmodule_yields (name : String) (h : Kept n s) :
    (openSubmodule name).Yields s (fun handle t => handle = n + 1 ∧ Kept (n + 1) t) (Refused n) := by
  refine (countEntry_yields h).bind fun _ t ht => .look ?_
  refine (push_yields ht rfl).bind fun _ u hu => ?_
  refine (put_yields _ hu).bind fun _ v ⟨hv, _⟩ => .look ?_
  have hcounted : v.submodules + 1 = n + 1 := congrArg (· + 1) hv.counted
  exact .of_ok rfl ⟨hcounted, hcounted ▸ hv.push rfl _⟩

theorem closeSubmodule_yields (handle : Nat) (h : Kept n s) : (closeSubmodule handle).Yields s
    (fun _ t => n = t.submodules + 1 ∧ Kept t.submodules t) (Refused n) := by
  refine .look ?_
  split
  · exact .refuse_bind (misuse_refused h nofun)
  · rename_i hguard
    have hopen : n ≠ 0 := fun hn => hguard (.inr (h.counted.trans hn))
    refine (pop_yields h).bind fun top t ⟨_, ht, hplace⟩ => ?_
    split
    · split
      · exact .refuse_bind (misuse_refused ht nofun)
      · refine (close_yields .token ht (hplace _ rfl)).bind fun _ u ⟨hu, _⟩ => ?_
        refine (pop_yields hu).bind fun around v ⟨_, hv, hplace⟩ => ?_
        split
        · refine (close_yields .submodule hv (hplace _ rfl)).bind fun _ w ⟨hw, _⟩ => ?_
          have hcounted : n = w.submodules - 1 + 1 := by
            have := hw.counted
            omega
          exact .of_ok rfl ⟨hcounted, hw.ordered, rfl⟩
        · exact .refuse (misuse_refused hv nofun)
    · exact .refuse (misuse_refused ht nofun)

theorem token_yields (t : NestedToken) (h : Kept n s) : (token t).Yields s (fun _ => Kept n) (Refused n) :=
  (countEntry_yields h).bind fun _ _ ht => (put_yields _ ht).mono fun _ _ hg => hg.1

/-- The outermost body starts where the output does, whatever has been in the buffer before. -/
theorem start_kept (out : Buffer) : Kept 0 ⟨out, [.token 0 .pending], 0⟩ := ⟨⟨Nat.zero_le _, trivial⟩, rfl⟩

theorem complete_yields (h : Kept n s) :
    complete.Yields s (fun _ t => t.frames = [] ∧ Kept n t) (Refused n) := by
  refine .look ?_
  split
  · split
    · exact .refuse_bind (misuse_refused h nofun)
    · have hnone : Kept n { s with frames := [] } := ⟨trivial, h.counted⟩
      have hclosed := close_yields .token hnone (Nat.zero_le _)
      exact ⟨fun a t h => (hclosed.answers a t h).symm, hclosed.fails⟩
  · exact .refuse (misuse_refused h nofun)

/-- There is no frame left that would stand in the buffer that is handed back. -/
theorem finish_yields (h : Kept n s) : finish.Yields s (fun _ => Kept n) (Refused n) := by
  refine (complete_yields h).bind fun _ t ⟨hnone, ht⟩ => .of_ok rfl ⟨?_, ht.counted⟩
  show Frame.Ordered t.frames _
  rw [hnone]
  trivial

end

/-! ## Histories -/

/-- How many submodules are open after a call, of `n` before it. -/
def Counts (n : Nat) : Renderer.Call → Except Error (Option Nat) → Nat → Prop
  | .start _, _, m => m = 0
  | .request (.openSubmodule _), .ok handle, m => handle = some (n + 1) ∧ m = n + 1
  | .request (.closeSubmodule _), .ok _, m => n = m + 1
  | _, _, m => m = n

section
variable {s : TokenWriter}

/-- A writer that has answered a request with `n` submodules open. -/
def Answered (n : Nat) (r : Writer.Request) (handle : Option Nat) (s : TokenWriter) : Prop :=
  Kept s.submodules s ∧ Counts n (.request r) (.ok handle) s.submodules

theorem counts_of_error (n : Nat) (r : Writer.Request) (e : Error) : Counts n (.request r) (.error e) n := by
  cases r <;> rfl

theorem answer_yields (r : Writer.Request) (h : Kept s.submodules s) :
    (renderer.answer r).Yields s (Answered s.submodules r) (Refused s.submodules) := by
  have hquiet {r : Writer.Request} {t : TokenWriter} (hr : Counts s.submodules (.request r) (.ok none) s.submodules)
      (ht : Kept s.submodules t) : Answered s.submodules r none t := by
    obtain ⟨hordered, hcounted⟩ := ht
    exact ⟨⟨hordered, rfl⟩, hcounted ▸ hr⟩
  cases r with
  | claim c => exact (claim_yields c h).bind fun _ _ ht => .answer (hquiet rfl ht)
  | startSection => exact (startSection_yields h).bind fun _ _ ht => .answer (hquiet rfl ht)
  | endSection => exact (endSection_yields h).bind fun _ _ ht => .answer (hquiet rfl ht)
  | openSubmodule name =>
    refine (openSubmodule_yields name h).bind fun handle t ⟨hhandle, ht⟩ => .answer ?_
    exact ⟨⟨ht.ordered, rfl⟩, congrArg some hhandle, ht.counted⟩
  | closeSubmodule handle =>
    exact (closeSubmodule_yields handle h).bind fun _ t ⟨hn, ht⟩ => .answer ⟨ht, hn⟩
  | token nested => exact (token_yields nested h).bind fun _ _ ht => .answer (hquiet rfl ht)

/-- What a call comes to where all bodies are in order. -/
structure Performed (s : TokenWriter) (call : Renderer.Call) (p : Renderer.Outcome × TokenWriter) : Prop where
  ordered : Frame.Ordered p.2.frames p.2.out.size
  placed (e : Error) (h : p.1.answer = .error e) : ¬e.IsMisplaced
  counts : Counts s.submodules call p.1.answer p.2.submodules

theorem performed (call : Renderer.Call) (h : Frame.Ordered s.frames s.out.size) :
    Performed s call (renderer.perform outlet call s) := by
  have hs : Kept s.submodules s := ⟨h, rfl⟩
  have hanswered (a : Option Nat) (e : Error) (he : Except.ok a = .error e) : ¬e.IsMisplaced := by cases he
  cases call with
  | start out => exact ⟨(start_kept out).ordered, hanswered none, rfl⟩
  | request r =>
    have hr := answer_yields r hs
    simp only [Renderer.perform]
    rcases ha : renderer.answer r s with ⟨e | handle, t⟩
    · obtain ⟨ht, hplaced⟩ := hr.fails e t ha
      exact ⟨ht.ordered, fun _ he => Except.error.inj he ▸ hplaced, ht.counted ▸ counts_of_error _ r e⟩
    · obtain ⟨ht, hcounts⟩ := hr.answers handle t ha
      exact ⟨ht.ordered, hanswered handle, hcounts⟩
  | finish =>
    have hf := finish_yields hs
    show Performed s .finish (.ofFinish (finish s).2.out (finish s).1, (finish s).2)
    rcases ha : finish s with ⟨e | out, t⟩
    · obtain ⟨ht, hplaced⟩ := hf.fails e t ha
      exact ⟨ht.ordered, fun _ he => Except.error.inj he ▸ hplaced, ht.counted⟩
    · have ht := hf.answers out t ha
      exact ⟨ht.ordered, hanswered none, ht.counted⟩

theorem ordered_outcomes (history : List Renderer.Call) (h : Frame.Ordered s.frames s.out.size) :
    let t := (renderer.outcomes outlet history s).2
    Frame.Ordered t.frames t.out.size := by
  induction history generalizing s with
  | nil => exact h
  | cons call rest ih =>
    have hfirst := (performed call h).ordered
    rw [Renderer.outcomes_cons, Renderer.further]
    split
    · exact hfirst
    · exact ih hfirst

end

/-- **Bodies in order.** After any calls on a new writer, taken or refused, and for any call that comes next. -/
theorem bodies_in_order (history : List Renderer.Call) :
    let s := (renderer.outcomes outlet history {}).2
    (∀ frame ∈ s.frames, frame.start ≤ s.out.size) ∧
    (s.frames.Pairwise fun inner outer => outer.start ≤ inner.start) ∧
    (∀ call, Performed s call (renderer.perform outlet call s)) ∧
    ∀ (tag : Tag) (start : Nat) (t : TokenWriter),
      (∃ e, (close tag start t).1 = .error e ∧ e.IsMisplaced) ↔ t.out.size < start := by
  intro s
  have hordered : Frame.Ordered s.frames s.out.size := ordered_outcomes history trivial
  obtain ⟨hwithin, hpairs⟩ := Frame.ordered_iff.mp hordered
  exact ⟨hwithin, hpairs, fun call => performed call hordered, close_misplaced⟩

/-- There is room for the claim and not for the name of the submodule, whose frame stays. -/
example : (renderer.outcomes outlet
    [.start (.emptyFixed 10), .request (.claim ⟨1, .text "x"⟩), .request .startSection, .request (.openSubmodule "abc")]
    {}).2.frames = [.submodule 8, .sect 8 1, .token 0 .running] := rfl

end TokenWriter

end Binary

end ClaimRelay
