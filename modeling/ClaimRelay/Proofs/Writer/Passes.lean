import ClaimRelay.ClaimSet.Cursor
import ClaimRelay.Proofs.Walk.Alike
import ClaimRelay.Proofs.Walk.Lockstep
import ClaimRelay.Proofs.Walk.Words

/-!
# The passes of a rendering

A rendering is one pass into a growing buffer, or one that counts and, after a rewind, one into a buffer of the size
that was counted. Readers and renderers may do what they like, also replay something else or lie about sizes:
`run_passes` says which passes there are and what becomes of the buffer that the last of them hands back.
-/

namespace ClaimRelay

variable {ς : Type}

/-! ## Walks do not rewind -/

theorem Protocol.rewind_discipline {limit : Nat} :
    Discipline limit fun _ calls => .rewind ∉ calls.map Call.request where
  possible _ := ⟨[], List.not_mem_nil⟩
  claim _ h := by simpa [Call.request] using h
  noMoreClaims h := by split <;> simpa [Call.request] using h
  submodule {level _ _} _ _ _ h := by cases level.sectionOpen <;> simpa [sectionStart, Call.request] using h
  tooDeep level _ _ := ⟨[], by cases level.sectionOpen <;> simp [sectionStart, Call.request]⟩
  token {level _ _} _ _ h := by cases level.sectionOpen <;> simpa [sectionStart, Call.request] using h
  noMoreEntries {level _ _} h := by
    cases level.sectionOpen <;> cases level.handle <;> simpa [sectionEnd, closing, Call.request] using h

theorem Protocol.rewind_of_begins {log : List Call}
    (h : Begins (fun calls => .rewind ∉ calls.map Call.request) log) : .rewind ∉ log.map Call.request := by
  rcases h with ⟨rest, hw⟩ | ⟨before, call, answered, rest, rfl, -, hr, hw⟩
  · rw [List.map_append] at hw
    exact fun h => hw (List.mem_append_left _ h)
  · intro h
    apply hw
    simp only [List.map_append, List.map_cons, List.mem_append, List.mem_cons, hr] at h ⊢
    exact h.imp_right fun h => Or.inl (h.resolve_right List.not_mem_nil)

theorem Walk.no_rewind {limit : Nat} {r : Reader ς} {w : Writer ς} {s s' : ς} {answer : Except Error Unit}
    {calls : List Call} (h : run limit r.logged w.logged (s, []) = (answer, s', calls)) :
    .rewind ∉ calls.map Call.request := by
  have hwalk : Protocol.Conforms (proceed limit r.logged w.logged (r.extent s) beginning)
      (fun calls => .rewind ∉ calls.map Call.request) _ := Protocol.proceed_conforms Protocol.rewind_discipline _ _
  have hlog := (hwalk.log (fun _ => List.not_mem_nil) s).1
  have hrun : proceed limit r.logged w.logged (r.extent s) beginning (s, []) = (answer, s', calls) := h
  rw [hrun] at hlog
  exact Protocol.rewind_of_begins hlog

namespace Render

/-! ## Renderings, noted -/

/-- What a rendering does to its reader and its renderer. -/
inductive Event
  | call (c : Call)
  | start (out : Buffer) (answer : Except Error Unit)
  | finish (answer : Except Error Buffer)

def notedReader (r : Reader ς) : Reader (ς × List Event) := r.noting fun _ c => .call c

def noted (w : Renderer ς) : Renderer (ς × List Event) where
  toWriter := w.toWriter.noting fun _ c => .call c
  streaming s := w.streaming s.1
  start out := (w.start out).noting fun _ a => .start out a
  finish := w.finish.noting fun _ a => .finish a

def Event.started? : Event → Option Buffer
  | start out _ => some out
  | _ => none

def Event.isRewind : Event → Bool
  | call .rewind => true
  | _ => false

/-- The buffers that were started with. -/
def starts (log : List Event) : List Buffer := log.filterMap Event.started?

def rewinds (log : List Event) : Nat := log.countP Event.isRewind

theorem starts_append (front back : List Event) : starts (front ++ back) = starts front ++ starts back :=
  List.filterMap_append

theorem rewinds_append (front back : List Event) : rewinds (front ++ back) = rewinds front + rewinds back :=
  List.countP_append

theorem starts_calls (calls : List Call) : starts (calls.map .call) = [] := by
  simp [starts, List.filterMap_eq_nil_iff, Event.started?]

theorem rewinds_calls {calls : List Call} (h : .rewind ∉ calls.map Call.request) :
    rewinds (calls.map .call) = 0 := by
  rw [rewinds, List.countP_eq_zero]
  intro event hevent hrewind
  obtain ⟨call, hcall, rfl⟩ := List.mem_map.mp hevent
  cases call with
  | rewind => exact h (List.mem_map_of_mem hcall)
  | _ => cases hrewind

/-! ## One pass -/

/-- A pass into `out`, from the state it begins in to what it hands back and the state it ends in: the start, one walk
unless the start was refused, and the finish unless the walk failed. -/
inductive Pass (limit : Nat) (r : Reader ς) (w : Renderer ς) (out : Buffer) :
    ς → List Event → Except Error Buffer → ς → Prop
  | refused {s s' : ς} {e : Error} (h : w.start out s = (.error e, s')) :
    Pass limit r w out s [.start out (.error e)] (.error e) s'
  | broken {s s₁ s' : ς} {calls : List Call} {e : Error} (h : w.start out s = (.ok (), s₁))
    (hw : Walk.run limit r.logged w.toWriter.logged (s₁, []) = (.error e, s', calls)) :
    Pass limit r w out s (.start out (.ok ()) :: calls.map .call) (.error e) s'
  | finished {s s₁ s₂ s' : ς} {calls : List Call} {handed : Except Error Buffer} (h : w.start out s = (.ok (), s₁))
    (hw : Walk.run limit r.logged w.toWriter.logged (s₁, []) = (.ok (), s₂, calls))
    (hf : w.finish s₂ = (handed, s')) :
    Pass limit r w out s (.start out (.ok ()) :: (calls.map .call ++ [.finish handed])) handed s'

section
variable {limit : Nat} {r : Reader ς} {w : Renderer ς} {out : Buffer}

theorem Pass.one_start {s s' : ς} {log : List Event} {handed : Except Error Buffer}
    (h : Pass limit r w out s log handed s') : starts log = [out] := by
  cases h with
  | refused h => rfl
  | broken h hw => exact congrArg (out :: ·) (starts_calls _)
  | finished h hw hf => exact congrArg (out :: ·) ((starts_append ..).trans (congrArg (· ++ []) (starts_calls _)))

theorem Pass.no_rewind {s s' : ς} {log : List Event} {handed : Except Error Buffer}
    (h : Pass limit r w out s log handed s') : rewinds log = 0 := by
  cases h with
  | refused h => rfl
  | broken h hw => exact rewinds_calls (Walk.no_rewind hw)
  | finished h hw hf => exact (rewinds_append ..).trans (congrArg (· + 0) (rewinds_calls (Walk.no_rewind hw)))

/-- A walk that is noted, behind what was noted before, makes the calls of the logged one. -/
theorem walk_noted (limit : Nat) (r : Reader ς) (w : Renderer ς) (s : ς) (log : List Event) :
    Walk.run limit (notedReader r) (noted w).toWriter (s, log) =
      match Walk.run limit r.logged w.toWriter.logged (s, []) with
      | (answer, s', calls) => (answer, s', log ++ calls.map .call) := by
  have himage : Step.Image (fun t : ς × List Call => (t.1, log ++ t.2.map Event.call))
      (Walk.run limit r.logged w.toWriter.logged) (Walk.run limit (notedReader r) (noted w).toWriter) :=
    Walk.run_image (r.noting_copied (fun _ c => c) .call log) (w.toWriter.noting_copied (fun _ c => c) .call log)
      fun _ => rfl
  have hrun := himage (s, [])
  simp only [List.map_nil, List.append_nil] at hrun
  exact hrun

theorem pass_noted (limit : Nat) (r : Reader ς) (w : Renderer ς) (out : Buffer) (s : ς) (log : List Event) :
    ∃ handed s' events, Pass limit r w out s events handed s' ∧
      pass limit (notedReader r) (noted w) out (s, log) = (handed, s', log ++ events) := by
  unfold pass
  rcases hs : w.start out s with ⟨e | _, s₁⟩
  · have hstart : (noted w).start out (s, log) = (.error e, s₁, log ++ [.start out (.error e)]) := by
      simp only [noted, Step.noting, hs]
    exact ⟨.error e, s₁, _, .refused hs, Step.bind_of_error hstart⟩
  have hstart : (noted w).start out (s, log) = (.ok (), s₁, log ++ [.start out (.ok ())]) := by
    simp only [noted, Step.noting, hs]
  rw [Step.bind_of_ok hstart]
  have hwalk := walk_noted limit r w s₁ (log ++ [.start out (.ok ())])
  rcases hw : Walk.run limit r.logged w.toWriter.logged (s₁, []) with ⟨e | _, s₂, calls⟩
  · rw [hw] at hwalk
    refine ⟨.error e, s₂, _, .broken hs hw, ?_⟩
    rw [Step.bind_of_error hwalk, List.append_assoc]
    rfl
  · rw [hw] at hwalk
    rw [Step.bind_of_ok hwalk]
    rcases hf : w.finish s₂ with ⟨handed, s'⟩
    refine ⟨handed, s', _, .finished hs hw hf, ?_⟩
    simp [noted, Step.noting, hf]

end

/-! ## What is handed back -/

def contentOf (out : Buffer) : Except Error (List UInt8) :=
  match out.bytes? with
  | some bytes => .ok bytes
  | none => .error (.structural .measuringBufferReturned)

theorem content_apply (out : Buffer) (s : ς) : content out s = (contentOf out, s) := by
  unfold content contentOf
  cases out.bytes? <;> rfl

theorem contentOf_eq_ok {out : Buffer} {bytes : List UInt8} :
    contentOf out = .ok bytes ↔ out.bytes? = some bytes := by
  unfold contentOf
  cases out.bytes? <;> simp

theorem length_of_bytes? {out : Buffer} {bytes : List UInt8} (h : out.bytes? = some bytes) :
    bytes.length = out.size := by
  cases out <;> cases h <;> rfl

/-- How a rendering answers whose only pass is over. -/
structure Streamed (handed : Except Error Buffer) (answer : Except Error (List UInt8)) : Prop where
  content (bytes : List UInt8) : answer = .ok bytes ↔ ∃ out, handed = .ok out ∧ out.bytes? = some bytes
  refusal (e : Error) (h : handed = .error e) : answer = .error e
  counting (out : Buffer) (h : handed = .ok out) (hm : out.isMeasuring = true) :
    answer = .error (.structural .measuringBufferReturned)

/-- How a rendering answers when its pass into a buffer of the size that was counted is over. -/
structure Landed (measured : Nat) (handed : Except Error Buffer) (answer : Except Error (List UInt8)) : Prop where
  content (bytes : List UInt8) :
    answer = .ok bytes ↔ ∃ out, handed = .ok out ∧ out.bytes? = some bytes ∧ bytes.length = measured
  overflow (needed capacity : Nat) (h : handed = .error (.overflow needed capacity)) :
    answer = .error (.sizeMismatch measured needed)
  refusal (e : Error) (h : handed = .error e) (ho : ∀ needed capacity, e ≠ .overflow needed capacity) :
    answer = .error e
  otherSize (out : Buffer) (h : handed = .ok out) (hs : out.size ≠ measured) :
    answer = .error (.sizeMismatch measured out.size)
  counting (out : Buffer) (h : handed = .ok out) (hs : out.size = measured) (hm : out.isMeasuring = true) :
    answer = .error (.structural .measuringBufferReturned)

theorem contentOf_measuring {out : Buffer} (h : out.isMeasuring = true) :
    contentOf out = .error (.structural .measuringBufferReturned) := by
  cases out with
  | measuring count => rfl
  | fixed capacity content => cases h
  | growable content => cases h

theorem streamed_bind (handed : Except Error Buffer) : Streamed handed (handed.bind contentOf) where
  content bytes := by
    cases handed with
    | error e => exact ⟨fun h => (by cases h), fun ⟨_, h, _⟩ => (by cases h)⟩
    | ok out =>
      refine contentOf_eq_ok.trans ⟨fun h => ⟨out, rfl, h⟩, fun ⟨_, ho, h⟩ => ?_⟩
      cases ho
      exact h
  refusal _ h := by
    subst h
    rfl
  counting _ h hm := by
    subst h
    exact contentOf_measuring hm

theorem landed_ok (measured : Nat) (out : Buffer) : Landed measured (.ok out)
    (if out.size ≠ measured then .error (.sizeMismatch measured out.size) else contentOf out) where
  content bytes := by
    by_cases hs : out.size = measured
    · rw [if_neg (not_not_intro hs), contentOf_eq_ok]
      refine ⟨fun h => ⟨out, rfl, h, (length_of_bytes? h).trans hs⟩, fun ⟨_, ho, h, _⟩ => ?_⟩
      cases ho
      exact h
    · rw [if_pos hs]
      refine ⟨fun h => (by cases h), fun ⟨_, ho, h, hl⟩ => ?_⟩
      cases ho
      exact absurd ((length_of_bytes? h).symm.trans hl) hs
  overflow _ _ h := by cases h
  refusal _ h _ := by cases h
  otherSize _ h hs := by
    cases h
    exact if_pos hs
  counting _ h hs hm := by
    cases h
    rw [if_neg (not_not_intro hs)]
    exact contentOf_measuring hm

theorem landed_overflow (measured needed capacity : Nat) :
    Landed measured (.error (.overflow needed capacity)) (.error (.sizeMismatch measured needed)) where
  content _ := ⟨fun h => (by cases h), fun ⟨_, h, _⟩ => (by cases h)⟩
  overflow _ _ h := by
    cases h
    rfl
  refusal _ h ho := by
    cases h
    exact absurd rfl (ho needed capacity)
  otherSize _ h _ := by cases h
  counting _ h _ _ := by cases h

theorem landed_refusal {measured : Nat} {e : Error} (ho : ∀ needed capacity, e ≠ .overflow needed capacity) :
    Landed measured (.error e) (.error e) where
  content _ := ⟨fun h => (by cases h), fun ⟨_, h, _⟩ => (by cases h)⟩
  overflow _ _ h := by
    cases h
    exact absurd rfl (ho _ _)
  refusal _ h _ := by
    cases h
    rfl
  otherSize _ h _ := by cases h
  counting _ h _ _ := by cases h

def afterCounting (limit : Nat) (r : Reader ς) (w : Renderer ς) (measured : Nat) : Step ς (List UInt8) := do
  let out ← secondPass limit r w measured
  if out.size ≠ measured then throw (.sizeMismatch measured out.size)
  content out

theorem afterCounting_landed {limit : Nat} {r : Reader ς} {w : Renderer ς} {measured : Nat} {s s' : ς}
    {handed : Except Error Buffer} (h : pass limit r w (.emptyFixed measured) s = (handed, s')) :
    ∃ answer, Landed measured handed answer ∧ afterCounting limit r w measured s = (answer, s') := by
  unfold afterCounting secondPass
  cases handed with
  | ok out =>
    refine ⟨_, landed_ok measured out, ?_⟩
    rw [Step.bind_of_ok (Step.tryCatch_of_ok h)]
    split
    · rfl
    · exact content_apply out s'
  | error e =>
    cases e with
    | overflow needed capacity =>
      refine ⟨_, landed_overflow measured needed capacity, ?_⟩
      exact Step.bind_of_error (Step.tryCatch_of_error h)
    | _ =>
      refine ⟨_, landed_refusal (fun _ _ h => by cases h), ?_⟩
      exact Step.bind_of_error (Step.tryCatch_of_error h)

/-! ## Whole renderings -/

section
variable {limit : Nat} {r : Reader ς} {w : Renderer ς} {s : ς}

theorem run_streaming (h : w.streaming s = true) :
    run limit r w s = (pass limit r w .emptyGrowable >>= content) s := by
  unfold run
  rw [Step.bind_of_ok (Step.get_apply _)]
  exact congrFun (if_pos h) _

theorem run_counting (h : w.streaming s = false) : run limit r w s = (do
    let counted ← pass limit r w .emptyMeasuring
    modify r.rewind
    afterCounting limit r w counted.size) s := by
  unfold run
  rw [Step.bind_of_ok (Step.get_apply _), h]
  rfl

end

/-- What one pass makes of a claim set that is served. -/
theorem run_served {σ τ : Type} {limit : Nat} {r : Reader σ} {m : ClaimSet} {s s' : σ} (hm : r.Serves m s s')
    (hx : m.extent ≤ r.extent s) {w : Renderer τ} {t : τ} (hs : w.streaming t = true) :
    (run limit r.onFst w.onSnd (s, t)).1 =
      ((do w.start .emptyGrowable; w.deliver limit m; w.finish) t).1.bind contentOf := by
  have hpass := Reaches.pass limit w hm hx .emptyGrowable
  rw [run_streaming (s := (s, t)) (w := w.onSnd) hs]
  rcases hall : (do w.start .emptyGrowable; w.deliver limit m; w.finish) t with ⟨e | out, t'⟩
  · obtain ⟨s'', hrefused⟩ := hpass.failure hall
    rw [Step.bind_of_error hrefused, hall]
    rfl
  · rw [Step.bind_of_ok (hpass.answer hall), hall]
    exact congrArg Prod.fst (content_apply out (s', t'))

theorem pass_unnoted (limit : Nat) (r : Reader ς) (w : Renderer ς) (out : Buffer) :
    Step.Image Prod.fst (pass limit (notedReader r) (noted w) out) (pass limit r w out) := by
  have hP : Step.Congruence (Step.Image (Prod.fst : ς × List Event → ς)) := Step.Image.congruence Prod.fst
  have hwalk : Step.Image Prod.fst (Walk.run limit (notedReader r) (noted w).toWriter)
      (Walk.run limit r w.toWriter) :=
    Walk.run_image (r.noting_dropped _) (w.toWriter.noting_dropped _) fun _ => rfl
  exact hP.bind (fun _ => rfl) fun _ => hP.bind hwalk fun _ _ => rfl

/-- Taking notes changes nothing. -/
theorem run_unnoted (limit : Nat) (r : Reader ς) (w : Renderer ς) :
    Step.Image Prod.fst (run limit (notedReader r) (noted w)) (run limit r w) := by
  have hP : Step.Congruence (Step.Image (Prod.fst : ς × List Event → ς)) := Step.Image.congruence Prod.fst
  have hcontent (out : Buffer) : Step.Image (Prod.fst : ς × List Event → ς) (content out) (content out) := by
    intro s
    rw [content_apply, content_apply]
  have hafter (measured : Nat) : Step.Image Prod.fst (afterCounting limit (notedReader r) (noted w) measured)
      (afterCounting limit r w measured) := by
    refine hP.bind (.tryCatch (pass_unnoted limit r w _) fun e => ?_) fun out => ?_
    · cases e <;> exact fun _ => rfl
    · split
      · exact hP.bind (hP.refuse _) fun _ => hcontent out
      · exact hcontent out
  intro s
  cases hs : w.streaming s.1 with
  | true =>
    rw [run_streaming (s := s) (w := noted w) hs, run_streaming hs]
    exact hP.bind (pass_unnoted limit r w _) hcontent s
  | false =>
    rw [run_counting (s := s) (w := noted w) hs, run_counting hs]
    exact hP.bind (pass_unnoted limit r w _) (fun counted => hP.bind (fun _ => rfl) fun _ => hafter counted.size) s

/-- **The passes of a rendering**, with every reader and every renderer. -/
theorem run_passes (limit : Nat) (r : Reader ς) (w : Renderer ς) (s : ς) :
    let rendering := run limit (notedReader r) (noted w) (s, [])
    run limit r w s = (rendering.1, rendering.2.1) ∧
      (w.streaming s = true → ∃ handed, Pass limit r w .emptyGrowable s rendering.2.2 handed rendering.2.1 ∧
        starts rendering.2.2 = [.emptyGrowable] ∧ rewinds rendering.2.2 = 0 ∧ Streamed handed rendering.1) ∧
      (w.streaming s = false → ∃ first handed s₁, Pass limit r w .emptyMeasuring s first handed s₁ ∧
        (∀ e, handed = .error e → rendering = (.error e, s₁, first) ∧
          starts first = [.emptyMeasuring] ∧ rewinds first = 0) ∧
        ∀ counted, handed = .ok counted → ∃ second again,
          Pass limit r w (.emptyFixed counted.size) (r.rewind s₁) second again rendering.2.1 ∧
          rendering.2.2 = first ++ .call .rewind :: second ∧
          starts rendering.2.2 = [.emptyMeasuring, .emptyFixed counted.size] ∧ rewinds rendering.2.2 = 1 ∧
          Landed counted.size again rendering.1) := by
  intro rendering
  refine ⟨run_unnoted limit r w (s, []), fun hs => ?_, fun hs => ?_⟩
  · obtain ⟨handed, s', events, hpass, hrun⟩ := pass_noted limit r w .emptyGrowable s []
    have hrendering : rendering = (handed.bind contentOf, s', events) := by
      refine (run_streaming (s := (s, [])) (w := noted w) hs).trans ?_
      cases handed with
      | error e => exact Step.bind_of_error hrun
      | ok out => exact (Step.bind_of_ok hrun).trans (content_apply ..)
    rw [hrendering]
    exact ⟨handed, hpass, hpass.one_start, hpass.no_rewind, streamed_bind handed⟩
  · obtain ⟨handed, s₁, first, hfirst, hrun⟩ := pass_noted limit r w .emptyMeasuring s []
    have hrendering : rendering = _ := run_counting (s := (s, [])) (w := noted w) hs
    refine ⟨first, handed, s₁, hfirst, fun e he => ?_, fun counted hc => ?_⟩
    · subst he
      exact ⟨hrendering.trans (Step.bind_of_error hrun), hfirst.one_start, hfirst.no_rewind⟩
    · subst hc
      obtain ⟨again, s', second, hsecond, hrun'⟩ :=
        pass_noted limit r w (.emptyFixed counted.size) (r.rewind s₁) (first ++ [.call .rewind])
      obtain ⟨answer, hlanded, hafter⟩ := afterCounting_landed hrun'
      have hall : rendering = (answer, s', first ++ .call .rewind :: second) := by
        rw [hrendering, Step.bind_of_ok hrun, List.append_cons first]
        exact hafter
      rw [hall]
      refine ⟨second, again, hsecond, rfl, ?_, ?_, hlanded⟩
      · rw [starts_append, hfirst.one_start]
        exact congrArg (Buffer.emptyMeasuring :: ·) hsecond.one_start
      · rw [rewinds_append, hfirst.no_rewind, Nat.zero_add]
        exact (List.countP_cons_of_pos rfl).trans (congrArg (· + 1) hsecond.no_rewind)

/-- A renderer that writes a byte for each claim, and one more where it does not only count. -/
def padded (streaming : Bool) : Renderer Buffer where
  claim _ := .update (·.append [0])
  startSection := pure ()
  endSection := pure ()
  openSubmodule _ := pure 0
  closeSubmodule _ := pure ()
  takesTokens out := (false, out)
  token _ := pure ()
  streaming _ := streaming
  start := set
  finish out := (if out.isMeasuring then .ok out else out.append [0], out)

theorem run_passes_padded :
    let start : Cursor × Buffer := ({ root := { claims := [⟨1, .null⟩] } }, .emptyGrowable)
    let rendering (streaming : Bool) :=
      run 0 (notedReader Cursor.reader.onFst) (noted (padded streaming).onSnd) (start, [])
    ((padded true).streaming start.2 = true ∧ ∃ handed, Streamed handed (rendering true).1) ∧
      (padded false).streaming start.2 = false ∧ starts (rendering false).2.2 = [.emptyMeasuring, .emptyFixed 1] ∧
      ∃ again, Landed 1 again (rendering false).1 := by
  intro start rendering
  obtain ⟨-, honce, -⟩ := run_passes 0 Cursor.reader.onFst (padded true).onSnd start
  obtain ⟨-, -, htwice⟩ := run_passes 0 Cursor.reader.onFst (padded false).onSnd start
  obtain ⟨handed, -, -, -, hstreamed⟩ := honce rfl
  obtain ⟨first, counted, s₁, -, hrefused, hcounted⟩ := htwice rfl
  have hstarts : starts (rendering false).2.2 = [.emptyMeasuring, .emptyFixed 1] := by decide +kernel
  refine ⟨⟨rfl, handed, hstreamed⟩, rfl, hstarts, ?_⟩
  cases counted with
  | error e =>
    obtain ⟨heq, hfirst, -⟩ := hrefused e rfl
    have hlog : (rendering false).2.2 = first := congrArg (·.2.2) heq
    rw [hlog, hfirst] at hstarts
    cases hstarts
  | ok out =>
    obtain ⟨second, again, -, -, htwo, -, hlanded⟩ := hcounted out rfl
    have hsize : out.size = 1 := by simpa [Buffer.emptyFixed] using htwo.symm.trans hstarts
    rw [hsize] at hlanded
    exact ⟨again, hlanded⟩

end Render

end ClaimRelay
