import ClaimRelay.ClaimSet.Cursor
import ClaimRelay.Proofs.Walk.Alike

/-!
# Walks that a fault cuts off

A call is refused instead of being made. Up to there the walk is the one without the fault, and there it ends: it
answers the refusal, makes no call after it and leaves everything as the refused call found it (`run_cut_off`). So no
error is retried, swallowed or cleaned up after, wherever in the walk it comes from.
-/

namespace ClaimRelay

/-! ## Calls by the side they are made on -/

/-- What a walk makes its calls on. -/
inductive Side
  | reader
  | writer
  deriving DecidableEq

namespace Side

variable {ς : Type}

/-- Whether the call is made on this side and can fail. -/
def owns : Side → Call → Bool
  | reader, .nextClaim _ | reader, .enter .. | reader, .exit _ | reader, .nestedToken ..
  | writer, .claim .. | writer, .startSection _ | writer, .endSection _ | writer, .openSubmodule ..
  | writer, .closeSubmodule .. | writer, .token .. => true
  | _, _ => false

def made : Side → Counted ς → Nat
  | reader, s => s.readerCalls
  | writer, s => s.writerCalls

/-- One call more on this side, of which the reader and the writer see nothing. -/
def count : Side → Counted ς → Counted ς
  | reader, s => { s with readerCalls := s.readerCalls + 1 }
  | writer, s => { s with writerCalls := s.writerCalls + 1 }

/-- How many of the noted calls this side owns. -/
def calls (side : Side) (notes : List (Counted ς × Call)) : Nat := notes.countP fun note => side.owns note.2

/-- The fault on this side and none on the other. -/
def faulty (side : Side) (fault : Fault) (other : Side) : Option Fault := if other = side then some fault else none

theorem calls_append (side : Side) (notes more : List (Counted ς × Call)) :
    side.calls (notes ++ more) = side.calls notes + side.calls more := List.countP_append

theorem count_state (side : Side) (s : Counted ς) : (side.count s).state = s.state := by
  cases side <;> rfl

end Side

/-- The same call, refused. -/
def Call.refused (e : Error) : Call → Call
  | .nextClaim _ => .nextClaim (.error e)
  | .enter index _ => .enter index (.error e)
  | .exit _ => .exit (.error e)
  | .nestedToken index _ => .nestedToken index (.error e)
  | .rewind => .rewind
  | .claim c _ => .claim c (.error e)
  | .startSection _ => .startSection (.error e)
  | .endSection _ => .endSection (.error e)
  | .openSubmodule name _ => .openSubmodule name (.error e)
  | .closeSubmodule handle _ => .closeSubmodule handle (.error e)
  | .takesTokens b => .takesTokens b
  | .token t _ => .token t (.error e)

variable {ς α β : Type}

/-- A counted state and the calls that were noted, each with the state it found. -/
abbrev Watched (ς : Type) : Type := Counted ς × List (Counted ς × Call)

def noFaults (_ : Side) : Option Fault := none

/-- The reader with its fault, its calls counted and noted. -/
def Reader.watched (faults : Side → Option Fault) (r : Reader ς) : Reader (Watched ς) :=
  (r.counted (faults .reader)).noting Prod.mk

def Writer.watched (faults : Side → Option Fault) (w : Writer ς) : Writer (Watched ς) :=
  (w.counted (faults .writer)).noting Prod.mk

/-- The step as a call on a side. -/
def Step.countedOn : Side → Option Fault → Step ς α → Step (Counted ς) α
  | .reader => Step.countedRead
  | .writer => Step.countedWrite

theorem Step.made_countedOn (x : Step ς α) (owner side : Side) (s : Counted ς) :
    side.made (x.countedOn owner none s).2 = if owner = side then side.made s + 1 else side.made s := by
  cases owner <;> cases side <;> rfl

theorem Step.countedOn_fault (x : Step ς α) (owner : Side) {n : Nat} {e : Error} (s : Counted ς) :
    x.countedOn owner (some ⟨n, e⟩) s =
      if owner.made s = n then (.error e, owner.count s) else x.countedOn owner none s := by
  cases owner with
  | reader =>
    show x.countedRead (some ⟨n, e⟩) s = if s.readerCalls = n then _ else x.countedRead none s
    by_cases h : s.readerCalls = n
    · simp [countedRead, Side.count, Fault.at?, h]
    · simp [countedRead, Fault.at?, h, Ne.symm h]
  | writer =>
    show x.countedWrite (some ⟨n, e⟩) s = if s.writerCalls = n then _ else x.countedWrite none s
    by_cases h : s.writerCalls = n
    · simp [countedWrite, Side.count, Fault.at?, h]
    · simp [countedWrite, Fault.at?, h, Ne.symm h]

/-! ## Steps that a fault cuts off -/

namespace Walk

variable {side : Side} {n : Nat} {e : Error}

/-- Whether `y` is `x` with the call numbered `n` on a side refused: it ends at that call if `x` comes to it, and does
the same as `x` if it does not. What `x` notes, its counters count. -/
def Cut (side : Side) (n : Nat) (e : Error) ⦃α : Type⦄ (x y : Step (Watched ς) α) : Prop :=
  ∀ s, ∃ notes, (x s).2.2 = s.2 ++ notes ∧ side.made (x s).2.1 = side.made s.1 + side.calls notes ∧
    (side.made s.1 ≤ n →
      side.made (x s).2.1 ≤ n ∧ y s = x s ∨
      ∃ before found call after, notes = before ++ (found, call) :: after ∧ side.owns call = true ∧
        side.made s.1 + side.calls before = n ∧
        y s = (.error e, side.count found, s.2 ++ before ++ [(found, call.refused e)]))

theorem Cut.congruence : Step.Congruence (fun _ => @Cut ς side n e _) where
  answer _ s := ⟨[], (List.append_nil _).symm, rfl, fun h => Or.inl ⟨h, rfl⟩⟩
  refuse _ s := ⟨[], (List.append_nil _).symm, rfl, fun h => Or.inl ⟨h, rfl⟩⟩
  bind {_ _ x y f g} hx hf s := by
    obtain ⟨notes, hlog, hmade, hcut⟩ := hx s
    rcases hxs : x s with ⟨error | a, t⟩ <;> rw [hxs] at hlog hmade hcut <;> dsimp only at hlog hmade hcut
    · rw [Step.bind_of_error hxs]
      refine ⟨notes, hlog, hmade, fun h => ?_⟩
      rcases hcut h with ⟨hle, hy⟩ | ⟨before, found, call, after, hnotes, howns, hn, hy⟩
      · exact Or.inl ⟨hle, Step.bind_of_error hy⟩
      · exact Or.inr ⟨before, found, call, after, hnotes, howns, hn, Step.bind_of_error hy⟩
    · rw [Step.bind_of_ok hxs]
      obtain ⟨more, hlog', hmade', hcut'⟩ := hf a t
      refine ⟨notes ++ more, ?_, ?_, fun h => ?_⟩
      · rw [hlog', hlog, List.append_assoc]
      · rw [hmade', hmade, Side.calls_append, Nat.add_assoc]
      rcases hcut h with ⟨hle, hy⟩ | ⟨before, found, call, after, rfl, howns, hn, hy⟩
      · rw [Step.bind_of_ok hy]
        rcases hcut' hle with hsame | ⟨before, found, call, after, rfl, howns, hn, hy'⟩
        · exact Or.inl hsame
        · refine Or.inr ⟨notes ++ before, found, call, after, (List.append_assoc ..).symm, howns, ?_, ?_⟩
          · rw [Side.calls_append, ← Nat.add_assoc, ← hmade, hn]
          · rw [hy', hlog, List.append_assoc s.2]
      · exact Or.inr ⟨before, found, call, after ++ more, by simp, howns, hn, Step.bind_of_error hy⟩

/-! ## One call -/

section
variable {call : Except Error α → Call}

theorem Cut.struck {x y : Step (Counted ς) α} (ho : ∀ a, side.owns (call a) = true)
    (hr : ∀ a, (call a).refused e = call (.error e)) (hm : ∀ s, side.made (x s).2 = side.made s + 1)
    (hy : ∀ s, y s = if side.made s = n then (.error e, side.count s) else x s) :
    Cut side n e (x.noting fun s a => (s, call a)) (y.noting fun s a => (s, call a)) := by
  intro (s, log)
  have hone : side.calls [(s, call (x s).1)] = 1 := by simp [Side.calls, ho]
  refine ⟨[(s, call (x s).1)], rfl, (hm s).trans (by rw [hone]), fun h => ?_⟩
  by_cases hn : side.made s = n
  · refine Or.inr ⟨[], s, call (x s).1, [], rfl, ho _, hn, ?_⟩
    simp only [Step.noting, hy, hn, ite_true, hr, List.append_nil]
  · refine Or.inl ⟨?_, by simp only [Step.noting, hy, hn, ite_false]⟩
    have hlt : side.made s < n := Nat.lt_of_le_of_ne h hn
    exact Nat.le_trans (Nat.le_of_eq (hm s)) hlt

theorem Cut.spared {x : Step (Counted ς) α} (ho : ∀ a, side.owns (call a) = false)
    (hm : ∀ s, side.made (x s).2 = side.made s) :
    Cut side n e (x.noting fun s a => (s, call a)) (x.noting fun s a => (s, call a)) := by
  intro (s, log)
  have hnone : side.calls [(s, call (x s).1)] = 0 := by simp [Side.calls, ho]
  refine ⟨[(s, call (x s).1)], rfl, (hm s).trans (by rw [hnone]; rfl), fun h => Or.inl ⟨?_, rfl⟩⟩
  exact Nat.le_trans (Nat.le_of_eq (hm s)) h

theorem Cut.made (owner : Side) (x : Step ς α) (ho : ∀ a side, Side.owns side (call a) = decide (owner = side))
    (hr : ∀ a, (call a).refused e = call (.error e)) :
    Cut side n e ((x.countedOn owner (noFaults owner)).noting fun s a => (s, call a))
      ((x.countedOn owner (side.faulty ⟨n, e⟩ owner)).noting fun s a => (s, call a)) := by
  by_cases h : owner = side
  · subst h
    refine .struck (fun a => (ho a _).trans (decide_eq_true rfl)) hr (fun s => ?_) fun s => ?_
    · exact (x.made_countedOn owner owner s).trans (if_pos rfl)
    · rw [Side.faulty, if_pos rfl]
      exact x.countedOn_fault owner s
  · rw [Side.faulty, if_neg h]
    refine .spared (fun a => (ho a _).trans (decide_eq_false h)) fun s => ?_
    exact (x.made_countedOn owner side s).trans (if_neg h)

end

theorem reader_cut (r : Reader ς) :
    Reader.Alike (Cut side n e) (r.watched noFaults) (r.watched (side.faulty ⟨n, e⟩)) where
  nextClaim := .made .reader _ (fun _ side => by cases side <;> rfl) fun _ => rfl
  enter _ := .made .reader _ (fun _ side => by cases side <;> rfl) fun _ => rfl
  exit := .made .reader _ (fun _ side => by cases side <;> rfl) fun _ => rfl
  nestedToken _ := .made .reader _ (fun _ side => by cases side <;> rfl) fun _ => rfl

theorem writer_cut (w : Writer ς) :
    Writer.Alike (Cut side n e) (w.watched noFaults) (w.watched (side.faulty ⟨n, e⟩)) where
  claim _ := .made .writer _ (fun _ side => by cases side <;> rfl) fun _ => rfl
  startSection := .made .writer _ (fun _ side => by cases side <;> rfl) fun _ => rfl
  endSection := .made .writer _ (fun _ side => by cases side <;> rfl) fun _ => rfl
  openSubmodule _ := .made .writer _ (fun _ side => by cases side <;> rfl) fun _ => rfl
  closeSubmodule _ := .made .writer _ (fun _ side => by cases side <;> rfl) fun _ => rfl
  takesTokens := by
    rw [Writer.watched, Writer.watched, Writer.takesTokens_noting, Writer.takesTokens_noting]
    exact .spared (fun _ => by cases side <;> rfl) fun _ => by cases side <;> rfl
  token _ := .made .writer _ (fun _ side => by cases side <;> rfl) fun _ => rfl

/-! ## Whole walks -/

/-- What a run becomes when the call numbered `n` on a side is refused with `e`. -/
structure CutOff (side : Side) (n : Nat) (e : Error) (free faulty : Except Error Unit × Watched ς) : Prop where
  struck (h : n < side.calls free.2.2) : ∃ before found call after, free.2.2 = before ++ (found, call) :: after ∧
    side.owns call = true ∧ side.calls before = n ∧ faulty.1 = .error e ∧ faulty.2.1.state = found.state ∧
    faulty.2.2 = before ++ [(found, call.refused e)]
  spared (h : side.calls free.2.2 ≤ n) : faulty = free

theorem Cut.cutOff {x y : Step (Watched ς) Unit} (h : Cut side n e x y) (s : ς) :
    CutOff side n e (x ({ state := s }, [])) (y ({ state := s }, [])) := by
  obtain ⟨notes, hlog, hmade, hcut⟩ := h ({ state := s }, [])
  have hstart : side.made ({ state := s } : Counted ς) = 0 := by cases side <;> rfl
  rw [List.nil_append] at hlog
  rw [hstart, Nat.zero_add, ← hlog] at hmade
  rw [hstart] at hcut
  rcases hcut (Nat.zero_le n) with ⟨hle, hy⟩ | ⟨before, found, call, after, hnotes, howns, hn, hy⟩
  · exact ⟨fun h => absurd h (Nat.not_lt_of_le (hmade ▸ hle)), fun _ => hy⟩
  · rw [Nat.zero_add] at hn
    rw [← hlog] at hnotes
    have hmore : n < side.calls (x ({ state := s }, [])).2.2 := by
      rw [hnotes, Side.calls_append, hn]
      simp [Side.calls, howns]
    refine ⟨fun _ => ⟨before, found, call, after, hnotes, howns, hn, ?_⟩, fun h => ?_⟩
    · rw [hy]
      exact ⟨rfl, side.count_state found, rfl⟩
    · exact absurd hmore (Nat.not_lt_of_le h)

/-- Watching a walk changes nothing. -/
theorem run_watched (limit : Nat) (r : Reader ς) (w : Writer ς) :
    Step.Image (fun s => s.1.state) (run limit (r.watched noFaults) (w.watched noFaults)) (run limit r w) :=
  run_image ⟨fun _ => rfl, fun _ _ => rfl, fun _ => rfl, fun _ _ => rfl⟩
    ⟨fun _ _ => rfl, fun _ => rfl, fun _ => rfl, fun _ _ => rfl, fun _ _ => rfl, fun _ => rfl, fun _ _ => rfl⟩
    fun _ => rfl

/-- **Faults.** With every reader and every writer, the refusal of one call, be it the first or the last of a long walk,
is where the walk ends, and a walk that never comes to it is not changed. -/
theorem run_cut_off (limit : Nat) (r : Reader ς) (w : Writer ς) (s : ς) (side : Side) (n : Nat) (e : Error) :
    let free := run limit (r.watched noFaults) (w.watched noFaults) ({ state := s }, [])
    run limit r w s = (free.1, free.2.1.state) ∧
      CutOff side n e free
        (run limit (r.watched (side.faulty ⟨n, e⟩)) (w.watched (side.faulty ⟨n, e⟩)) ({ state := s }, [])) ∧
      ∀ items, CutOff side n e
        (proceed limit (r.watched noFaults) (w.watched noFaults) items beginning ({ state := s }, []))
        (proceed limit (r.watched (side.faulty ⟨n, e⟩)) (w.watched (side.faulty ⟨n, e⟩)) items beginning
          ({ state := s }, [])) := by
  intro free
  have hcut (items : Nat) : CutOff side n e
      (proceed limit (r.watched noFaults) (w.watched noFaults) items beginning ({ state := s }, []))
      (proceed limit (r.watched (side.faulty ⟨n, e⟩)) (w.watched (side.faulty ⟨n, e⟩)) items beginning
        ({ state := s }, [])) :=
    (proceed_alike Cut.congruence (reader_cut r) (writer_cut w) limit items beginning).cutOff s
  exact ⟨run_watched limit r w ({ state := s }, []), hcut (r.extent s), hcut⟩

/-- One submodule, with nothing in it. -/
def part : ClaimSet := { entries := [.submodule "part" [] []] }

/-- The submodule was left, and closing it is refused. -/
theorem run_cut_off_closing :
    let r : Reader (Cursor × Nat) := Cursor.reader.onFst
    let w : Writer (Cursor × Nat) := (recorder true).onSnd
    let free := run 16 (r.watched noFaults) (w.watched noFaults) ({ state := ({ root := part }, 0) }, [])
    let faults := Side.writer.faulty ⟨2, .encoding "full"⟩
    let cut := run 16 (r.watched faults) (w.watched faults) ({ state := ({ root := part }, 0) }, [])
    2 < Side.writer.calls free.2.2 ∧ ∃ before found call after, free.2.2 = before ++ (found, call) :: after ∧
      Side.writer.owns call = true ∧ Side.writer.calls before = 2 ∧ cut.1 = .error (.encoding "full") ∧
      cut.2.1.state = found.state ∧ cut.2.2 = before ++ [(found, call.refused (.encoding "full"))] := by
  intro r w free faults cut
  have hmade : 2 < Side.writer.calls free.2.2 := by decide +kernel
  have hcut : CutOff .writer 2 (.encoding "full") free cut :=
    (run_cut_off 16 r w ({ root := part }, 0) .writer 2 (.encoding "full")).2.1
  exact ⟨hmade, hcut.struck hmade⟩

end Walk

end ClaimRelay
