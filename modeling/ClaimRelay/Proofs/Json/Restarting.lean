import ClaimRelay.Proofs.Json.Modes
import ClaimRelay.Proofs.Json.OpenObjects
import ClaimRelay.Proofs.Walk.Alike
import Mathlib.Data.List.TakeWhile

/-!
# JSON writers that are started again

A start forgets everything but the layout and the count of open objects. A token that is put without a refusal gives
the count back as it was, and so does a rendering that succeeds. An abandoned token leaves its open objects in the
count, and then the next one is indented for them as well. They are also there to be ended when the next one ends an
object too many, where the program of a new writer stops.
-/

namespace ClaimRelay

section
variable {ς σ τ α β : Type}

theorem Step.eq_ok_of_bind {x : Step ς α} {f : α → Step ς β} {b : β} {s t : ς} (h : (x >>= f) s = (.ok b, t)) :
    ∃ a u, x s = (.ok a, u) ∧ f a u = (.ok b, t) := by
  rcases hx : x s with ⟨e | a, u⟩
  · rw [Step.bind_of_error hx] at h
    cases h
  · rw [Step.bind_of_ok hx] at h
    exact ⟨a, u, rfl, h⟩

theorem Step.eq_ok_of_onSnd {x : Step τ α} {a : α} {p q : σ × τ} (h : x.onSnd p = (.ok a, q)) :
    x p.2 = (.ok a, q.2) := by
  have hfst : (x p.2).1 = .ok a := congrArg Prod.fst h
  have hsnd : (x p.2).2 = q.2 := congrArg (fun y => y.2.2) h
  exact Prod.ext hfst hsnd

end

namespace Json.TextWriter

variable {α σ : Type} {s t : TextWriter}

/-! ## Calls move the count by nothing -/

def Steady ⦃α : Type⦄ (x _ : Step TextWriter α) : Prop := ∀ s, MovesAt 0 0 x s

theorem Steady.congruence : Step.Congruence Steady where
  answer a _ := .answer a
  refuse e _ := .refuse e
  bind hx hf s := (hx s).bind fun a t _ => hf a t

theorem renderer_steady : Writer.Alike Steady renderer.toWriter renderer.toWriter where
  claim := claim_moves
  startSection := startSection_moves
  endSection := endSection_moves
  openSubmodule := openSubmodule_moves
  closeSubmodule := closeSubmodule_moves
  takesTokens _ := .answer true
  token := token_moves

theorem request_moves (r : Writer.Request) (s : TextWriter) : MovesAt 0 0 (renderer.answer r) s :=
  Writer.answer_alike Steady.congruence renderer_steady r s

theorem complete_moves (s : TextWriter) : MovesAt 0 0 complete s := by
  refine .look ?_ fun _ => rfl
  split
  · rename_i keys status hf
    split
    · exact .bind (j := 0) (.refuse _) fun _ _ h => by cases h
    · refine .bind (j := 1) (.quiet rfl rfl ?_ fun _ => rfl) fun _ t _ => ?_
      · rw [hf]
        rfl
      · exact (endObject_writes (Int.le_refl 0) t).toMovesAt
  · exact .refuse _

theorem frames_of_complete (h : complete s = (.ok (), t)) : t.frames = [] := by
  obtain ⟨f, out, frames, n⟩ := s
  have hended : (endObject ⟨f, out, [], n⟩).2.frames = [] := (endObject_writes (Int.le_refl 0) _).frames
  cases frames with
  | nil => cases h
  | cons inner outer => cases inner with
    | sect keys begun => cases outer <;> cases h
    | token keys status => cases outer with
      | cons frame rest => cases h
      | nil => cases status with
        | running => cases h
        | pending =>
          have hrun : endObject ⟨f, out, [], n⟩ = (.ok (), t) := h
          rwa [hrun] at hended
        | ended =>
          have hrun : endObject ⟨f, out, [], n⟩ = (.ok (), t) := h
          rwa [hrun] at hended

theorem finish_moves (s : TextWriter) : MovesAt 0 0 finish s := by
  rw [finish_eq]
  refine (complete_moves s).bind fun _ t _ => ?_
  exact .quiet rfl rfl rfl fun _ => rfl

theorem start_eq (out : Buffer) (s : TextWriter) :
    start out s = beginObject ⟨s.format, out, [.token [] .pending], 0⟩ := rfl

theorem counts_of_start {out : Buffer} (h : start out s = (.ok (), t)) : Counts s.format.depth 0 t := by
  rw [start_eq] at h
  refine (beginObject_writes (i := -1) _).count _ ?_ () t h
  simp only [Counts, Frame.objectsOf, Frame.objects]
  omega

theorem depth_of_finish {base : Nat} {out : Buffer} (hs : Counts base 0 s) (h : finish s = (.ok out, t)) :
    t.format.depth = base := by
  rw [finish_eq] at h
  rcases hc : complete s with ⟨e | _, u⟩
  · rw [Step.bind_of_error hc] at h
    cases h
  · rw [Step.bind_of_ok hc] at h
    cases h
    have hcount := (complete_moves s).count base hs () u hc
    rw [Counts, frames_of_complete hc] at hcount
    simp only [Frame.objectsOf] at hcount
    dsimp only
    omega

/-! ## Histories -/

theorem perform_layout (call : Renderer.Call) (s : TextWriter) :
    (renderer.perform outlet call s).2.format.layout = s.format.layout := by
  cases call with
  | start out => exact (beginObject_writes (i := 0) ⟨s.format, out, [.token [] .pending], 0⟩).layout
  | request r => exact (request_moves r s).layout
  | finish => exact (finish_moves s).layout

/-- Without indentation a greater count is not seen, unless the program stops. -/
theorem perform_deeper (call : Renderer.Call) {depth : Nat} (hl : s.format.layout.Flat) (hd : s.format.depth ≤ depth)
    (hrun : s.format.layout = .compact ∨ (renderer.perform outlet call s).1.halts = false) :
    ∃ depth', (renderer.perform outlet call s).2.format.depth ≤ depth' ∧
      renderer.perform outlet call (s.recount depth) =
        ((renderer.perform outlet call s).1, (renderer.perform outlet call s).2.recount depth') := by
  rw [Bool.eq_false_iff, ne_eq, Renderer.Outcome.halts_iff] at hrun
  cases call with
  | start out =>
    have hmoves := (beginObject_writes (i := 0) ⟨s.format, out, [.token [] .pending], 0⟩).toMovesAt
    obtain ⟨depth', hle, hsame⟩ := hmoves.deeper depth hl hd (hrun.imp_right fun h he => h (by
      have hstart : (renderer.start out s).1 = .error .halted := he
      simp only [Renderer.perform, hstart]
      rfl))
    have hstart : renderer.start out (s.recount depth) = _ := hsame
    refine ⟨depth', hle, ?_⟩
    simp only [Renderer.perform, hstart]
    rfl
  | request r =>
    obtain ⟨depth', hle, hsame⟩ := (request_moves r s).deeper depth hl hd hrun
    refine ⟨depth', hle, ?_⟩
    simp only [Renderer.perform, hsame]
    rfl
  | finish =>
    obtain ⟨depth', hle, hsame⟩ := (finish_moves s).deeper depth hl hd (hrun.imp_right fun h he => h (by
      have hfinish : (renderer.finish s).1 = .error .halted := he
      simp only [Renderer.perform, hfinish]
      rfl))
    have hfinish : renderer.finish (s.recount depth) = _ := hsame
    refine ⟨depth', hle, ?_⟩
    simp only [Renderer.perform, hfinish]
    rfl

theorem further_layout {l : Layout} {first : Renderer.Outcome} {calls : List Renderer.Call}
    (h : s.format.layout = l) (hrest : (renderer.outcomes outlet calls s).2.format.layout = s.format.layout) :
    (renderer.further outlet first calls s).2.format.layout = l := by
  unfold Renderer.further
  split
  · exact h
  · exact hrest.trans h

theorem outcomes_layout (calls : List Renderer.Call) (s : TextWriter) :
    (renderer.outcomes outlet calls s).2.format.layout = s.format.layout := by
  induction calls generalizing s with
  | nil => rfl
  | cons call rest ih => exact further_layout (perform_layout call s) (ih _)

theorem outcomes_compact (calls : List Renderer.Call) {depth : Nat} (hl : s.format.layout = .compact)
    (hd : s.format.depth ≤ depth) :
    (renderer.outcomes outlet calls (s.recount depth)).1 = (renderer.outcomes outlet calls s).1 := by
  induction calls generalizing s depth with
  | nil => rfl
  | cons call rest ih =>
    have hlayout := (perform_layout call s).trans hl
    obtain ⟨depth', hle, hsame⟩ := perform_deeper call (hl ▸ trivial) hd (.inl hl)
    rw [Renderer.outcomes_cons, Renderer.outcomes_cons, hsame]
    dsimp only
    congr 1
    unfold Renderer.further
    split
    · rfl
    · exact ih hlayout hle

/-- Up to where the program stops, if it does. -/
theorem outcomes_deeper (calls : List Renderer.Call) {depth : Nat} (hl : s.format.layout.Flat)
    (hd : s.format.depth ≤ depth) :
    ∃ more, (renderer.outcomes outlet calls (s.recount depth)).1 =
        (renderer.outcomes outlet calls s).1.takeWhile (!·.halts) ++ more ∧
      (more = [] ∨ ∃ x ∈ (renderer.outcomes outlet calls s).1, x.halts = true) := by
  induction calls generalizing s depth with
  | nil => exact ⟨[], rfl, .inl rfl⟩
  | cons call rest ih =>
    rw [Renderer.outcomes_cons _ _ call rest s]
    cases hhalts : (renderer.perform outlet call s).1.halts with
    | true => exact ⟨_, by rw [List.takeWhile_cons_of_neg (by simp [hhalts]), List.nil_append],
        .inr ⟨_, List.mem_cons_self, hhalts⟩⟩
    | false =>
      obtain ⟨depth', hle, hsame⟩ := perform_deeper call hl hd (.inr hhalts)
      have hlayout := perform_layout call s
      obtain ⟨more, hmore, hend⟩ := ih (hlayout ▸ hl) hle
      rw [Renderer.outcomes_cons, hsame]
      dsimp only
      rw [Renderer.further_of_not_halts hhalts, Renderer.further_of_not_halts hhalts, hmore,
        List.takeWhile_cons_of_pos (by simp [hhalts])]
      exact ⟨more, rfl, hend.imp_right fun ⟨x, hx, hx'⟩ => ⟨x, List.mem_cons_of_mem _ hx, hx'⟩⟩

theorem outcomes_of_running (calls : List Renderer.Call) {depth : Nat} (hl : s.format.layout.Flat)
    (hd : s.format.depth ≤ depth) (hrun : ∀ x ∈ (renderer.outcomes outlet calls s).1, x.halts = false) :
    (renderer.outcomes outlet calls (s.recount depth)).1 = (renderer.outcomes outlet calls s).1 := by
  obtain ⟨more, hmore, hnone | ⟨x, hx, hhalts⟩⟩ := outcomes_deeper calls hl hd
  · rw [hmore, hnone, List.append_nil]
    exact List.takeWhile_eq_self_iff.mpr fun x hx => by simp [hrun x hx]
  · rw [hrun x hx] at hhalts
    cases hhalts

/-- A writer that is new but for its count. -/
def resumed (l : Layout) (depth : Nat) : TextWriter := { format := { layout := l, depth } }

theorem outcomes_resumed (out : Buffer) (calls : List Renderer.Call) (s : TextWriter) :
    renderer.outcomes outlet (.start out :: calls) s =
      renderer.outcomes outlet (.start out :: calls) (resumed s.format.layout s.format.depth) := rfl

theorem run_resumed (limit : Nat) (r : Reader σ) (x : σ) (s : TextWriter) :
    Render.run limit r.onFst renderer.onSnd (x, s) =
      Render.run limit r.onFst renderer.onSnd (x, resumed s.format.layout s.format.depth) := rfl

/-! ## Tokens that are put without a refusal -/

def Answered (x : Renderer.Outcome) : Prop := ∃ handle, x.answer = .ok handle

theorem Answered.not_halts {x : Renderer.Outcome} (h : Answered x) : x.halts = false := by
  obtain ⟨handle, h⟩ := h
  rw [Bool.eq_false_iff, ne_eq, Renderer.Outcome.halts_iff, h]
  exact nofun

theorem depth_of_requests {base : Nat} (requests : List Writer.Request) (hs : Counts base 0 s)
    (h : ∀ x ∈ (renderer.outcomes outlet (requests.map .request ++ [.finish]) s).1, Answered x) :
    (renderer.outcomes outlet (requests.map .request ++ [.finish]) s).2.format.depth = base := by
  induction requests generalizing s with
  | nil =>
    rw [List.map_nil, List.nil_append, Renderer.outcomes_single] at h ⊢
    obtain ⟨handle, hlast⟩ : Answered (renderer.perform outlet .finish s).1 := h _ (List.mem_singleton_self _)
    rcases hf : renderer.finish s with ⟨e | out, t⟩
    · simp only [Renderer.perform, hf, Renderer.Outcome.ofFinish] at hlast
      cases hlast
    · simp only [Renderer.perform, hf]
      exact depth_of_finish hs hf
  | cons r rest ih =>
    rw [List.map_cons, List.cons_append, Renderer.outcomes_cons, List.forall_mem_cons] at h
    rw [List.map_cons, List.cons_append, Renderer.outcomes_cons]
    obtain ⟨hfirst, hrest⟩ := h
    rw [Renderer.further_of_not_halts hfirst.not_halts] at hrest ⊢
    obtain ⟨handle, hfirst⟩ := hfirst
    refine ih ?_ hrest
    rcases hr : renderer.answer r s with ⟨e | a, t⟩
    · simp only [Renderer.perform, hr] at hfirst
      cases hfirst
    · simp only [Renderer.perform, hr]
      exact (request_moves r s).count base hs a t hr

theorem depth_of_token (out : Buffer) (requests : List Writer.Request)
    (h : ∀ x ∈ (renderer.outcomes outlet (Renderer.Call.token out requests) s).1, Answered x) :
    (renderer.outcomes outlet (Renderer.Call.token out requests) s).2.format.depth = s.format.depth := by
  rw [Renderer.Call.token, Renderer.outcomes_cons, List.forall_mem_cons] at h
  rw [Renderer.Call.token, Renderer.outcomes_cons]
  obtain ⟨hstart, hrest⟩ := h
  rw [Renderer.further_of_not_halts hstart.not_halts] at hrest ⊢
  obtain ⟨handle, hstart⟩ := hstart
  refine depth_of_requests requests ?_ hrest
  rcases hs : renderer.start out s with ⟨e | _, t⟩
  · simp only [Renderer.perform, hs] at hstart
    cases hstart
  · simp only [Renderer.perform, hs]
    exact counts_of_start hs

/-! ## Renderings that succeed -/

/-- Whether a step beside another state keeps the count along with the frames if it succeeds. -/
def Kept ⦃α : Type⦄ (x _ : Step (σ × TextWriter) α) : Prop :=
  ∀ base p a q, Counts base 0 p.2 → x p = (.ok a, q) → Counts base 0 q.2

theorem Kept.congruence : Step.Congruence (@Kept σ) where
  answer _ _ _ _ _ h hx := by
    cases hx
    exact h
  refuse _ _ _ _ _ _ hx := by cases hx
  bind {_ _ x _ f _} hx hf base p b q h hq := by
    obtain ⟨a, mid, hmid, hq⟩ := Step.eq_ok_of_bind hq
    exact hf a base mid b q (hx base p a mid h hmid) hq

theorem Kept.onFst (x : Step σ α) : Kept (x.onFst : Step (σ × TextWriter) α) x.onFst := by
  intro base p a q h hq
  have hsnd : (x.onFst p).2.2 = p.2 := rfl
  rw [hq] at hsnd
  rwa [hsnd]

theorem Kept.onSnd {x : Step TextWriter α} (hx : Steady x x) : Kept (x.onSnd : Step (σ × TextWriter) α) x.onSnd :=
  fun base p a q h hq => (hx p.2).count base h a q.2 (Step.eq_ok_of_onSnd hq)

section
variable (r : Reader σ)

theorem reader_kept : Reader.Alike (@Kept σ) r.onFst r.onFst :=
  ⟨.onFst _, fun _ => .onFst _, .onFst _, fun _ => .onFst _⟩

theorem writer_kept : Writer.Alike (@Kept σ) renderer.toWriter.onSnd renderer.toWriter.onSnd where
  claim c := .onSnd (claim_moves c)
  startSection := .onSnd startSection_moves
  endSection := .onSnd endSection_moves
  openSubmodule name := .onSnd (openSubmodule_moves name)
  closeSubmodule handle := .onSnd (closeSubmodule_moves handle)
  takesTokens := .onSnd renderer_steady.takesTokens
  token t := .onSnd (token_moves t)

theorem walk_kept (limit : Nat) {base : Nat} {p q : σ × TextWriter} (hp : Counts base 0 p.2)
    (h : Walk.run limit r.onFst renderer.toWriter.onSnd p = (.ok (), q)) : Counts base 0 q.2 :=
  Walk.proceed_alike Kept.congruence (reader_kept r) writer_kept limit _ _ base p () q hp h

theorem depth_of_run (limit : Nat) {x x' : σ} {bytes : List UInt8}
    (h : Render.run limit r.onFst renderer.onSnd (x, s) = (.ok bytes, (x', t))) :
    t.format.depth = s.format.depth := by
  have hrun : (do Render.content (← Render.pass limit r.onFst renderer.onSnd .emptyGrowable)) (x, s) =
      (.ok bytes, (x', t)) := h
  obtain ⟨out, p, hpass, hcontent⟩ := Step.eq_ok_of_bind hrun
  obtain ⟨_, started, hstart, hwalk⟩ := Step.eq_ok_of_bind hpass
  obtain ⟨_, walked, hwalk, hfinish⟩ := Step.eq_ok_of_bind hwalk
  have hsame : p = (x', t) := by
    unfold Render.content at hcontent
    cases hb : out.bytes? <;> rw [hb] at hcontent <;> cases hcontent
    rfl
  rw [hsame] at hfinish
  have hstarted : start .emptyGrowable s = (.ok (), started.2) :=
    Step.eq_ok_of_onSnd (p := (x, s)) hstart
  have hwalked : Counts s.format.depth 0 walked.2 := walk_kept r limit (counts_of_start hstarted) hwalk
  exact depth_of_finish hwalked (Step.eq_ok_of_onSnd hfinish)

end

/-! ## Indentation that shows the count -/

/-- What is out after the first claim. -/
def firstClaim (l : Layout) (depth : Nat) : List Char :=
  '\x7b' :: (keyText l (depth + 1) true "1" ++ scalarText .null)

theorem claimed_resumed (l : Layout) (depth : Nat) :
    (renderer.outcomes outlet [.start .emptyGrowable, .request (.claim ⟨1, .null⟩)] (resumed l depth)).1.getLast? =
      some ⟨.ok none, .growable (Text.utf8 (String.ofList (firstClaim l depth)))⟩ := by
  have hstart : renderer.start .emptyGrowable (resumed l depth) =
      (.ok (), inside l ⟨"", [], [], .pending⟩ ⟨['\x7b'], [], depth + 1⟩ 0) :=
    beginObject_adds (f := ⟨l, depth, false⟩) [] [.token [] .pending] 0
  have hclaim : renderer.answer (.claim ⟨1, .null⟩) (inside l ⟨"", [], [], .pending⟩ ⟨['\x7b'], [], depth + 1⟩ 0) =
      (.ok none, inside l ⟨"", [⟨1, .null⟩], [], .pending⟩ ⟨['\x7b'], [], depth + 1⟩ 0) :=
    Step.bind_of_ok (claim_inside (by simp))
  have htext : (inside l ⟨"", [⟨1, .null⟩], [], .pending⟩ ⟨['\x7b'], [], depth + 1⟩ 0).out =
      .growable (Text.utf8 (String.ofList (firstClaim l depth))) := by
    simp only [inside, beside, holding, firstClaim, List.map_cons, List.map_nil, fieldsText, List.append_nil]
    rfl
  simp only [Renderer.outcomes, Renderer.perform, hstart, hclaim, outlet_out, htext]
  rfl

theorem utf8_injective {x y : List Char} (h : Text.utf8 (String.ofList x) = Text.utf8 (String.ofList y)) : x = y := by
  simp only [Text.utf8, String.toUTF8_eq_toByteArray, Array.toList_inj] at h
  exact String.ofList_injective (String.toByteArray_inj.mp (ByteArray.ext h))

theorem depth_of_firstClaim {unit : List Char} (hu : unit ≠ []) {depth : Nat}
    (h : firstClaim (.indented unit) depth = firstClaim (.indented unit) 0) : depth = 0 := by
  have hlength := congrArg List.length h
  have hunit : 0 < unit.length := List.length_pos_iff.mpr hu
  simp only [firstClaim, keyText, Layout.margin, Layout.lineBreak, List.length_cons, List.length_append, ite_true,
    List.length_flatten, List.map_replicate, List.sum_replicate_nat, List.length_nil] at hlength
  have hproduct : (depth + 1) * unit.length = (0 + 1) * unit.length := by omega
  exact Nat.succ.inj (Nat.eq_of_mul_eq_mul_right hunit hproduct)

theorem new_eq_resumed (l : Layout) : ofLayout l = resumed l 0 := rfl

/-- Calls that end an object which was not begun: there is no room for the key of the section. -/
def cutOff : List Renderer.Call :=
  [.start (.emptyFixed 4), .request .startSection, .request (.openSubmodule "a"), .request .endSection, .finish]

theorem halts_cutOff : (renderer.outcomes outlet cutOff (.ofLayout (.indented []))).1.any Renderer.Outcome.halts := by
  decide +kernel

theorem running_cutOff {depth : Nat} (h : depth ≠ 0) :
    ((renderer.outcomes outlet cutOff (resumed (.indented []) depth)).1.any Renderer.Outcome.halts) = false := by
  -- one object that was left open is enough for the one that is ended too many
  have hone : (renderer.outcomes outlet cutOff (resumed (.indented []) 1)).1.any Renderer.Outcome.halts = false := by
    decide +kernel
  have hsame := outcomes_of_running (s := resumed (.indented []) 1) cutOff rfl (Nat.pos_of_ne_zero h)
    fun x hx => by simpa using List.any_eq_false.mp hone x hx
  have hdepth : (resumed (.indented []) 1).recount depth = resumed (.indented []) depth := rfl
  rw [← hdepth, hsame, hone]

theorem zero_of_afresh (unit : List Char) {depth : Nat}
    (h : ∀ out calls, (renderer.outcomes outlet (.start out :: calls) (resumed (.indented unit) depth)).1 =
      (renderer.outcomes outlet (.start out :: calls) (.ofLayout (.indented unit))).1) : depth = 0 := by
  by_cases hu : unit = []
  · subst hu
    refine Decidable.byContradiction fun hdepth => ?_
    have hrun := running_cutOff hdepth
    rw [cutOff, h, ← cutOff, halts_cutOff] at hrun
    cases hrun
  · have hlast := congrArg List.getLast? (h .emptyGrowable [.request (.claim ⟨1, .null⟩)])
    rw [new_eq_resumed, claimed_resumed, claimed_resumed] at hlast
    have htext := utf8_injective (Buffer.growable.inj (congrArg Renderer.Outcome.out (Option.some.inj hlast)))
    exact depth_of_firstClaim hu htext

/-! ## All histories -/

/-- What it comes to when a writer in state `s` is used again. -/
structure Resumes (l : Layout) (s : TextWriter) : Prop where
  layout : s.format.layout = l
  calls (out : Buffer) (calls : List Renderer.Call) : renderer.outcomes outlet (.start out :: calls) s =
    renderer.outcomes outlet (.start out :: calls) (resumed l s.format.depth)
  /-- Lines can tell a writer that is used again from a new one, and nothing else. -/
  afresh : (∀ out calls, (renderer.outcomes outlet (.start out :: calls) s).1 =
      (renderer.outcomes outlet (.start out :: calls) (.ofLayout l)).1) ↔ l = .compact ∨ s.format.depth = 0
  /-- Lines without indentation can do so only after the new writer's program has stopped. -/
  flat (hl : l.Flat) (out : Buffer) (calls : List Renderer.Call) :
    let new := (renderer.outcomes outlet (.start out :: calls) (.ofLayout l)).1
    ∃ more, (renderer.outcomes outlet (.start out :: calls) s).1 = new.takeWhile (!·.halts) ++ more ∧
      (more = [] ∨ ∃ x ∈ new, x.halts = true)
  token (out : Buffer) (requests : List Writer.Request)
    (h : ∀ x ∈ (renderer.outcomes outlet (Renderer.Call.token out requests) s).1, Answered x) :
    (renderer.outcomes outlet (Renderer.Call.token out requests) s).2.format.depth = s.format.depth
  rendering {σ : Type} (limit : Nat) (r : Reader σ) (x : σ) : Render.run limit r.onFst renderer.onSnd (x, s) =
    Render.run limit r.onFst renderer.onSnd (x, resumed l s.format.depth)
  rendered {σ : Type} (limit : Nat) (r : Reader σ) (x x' : σ) (bytes : List UInt8) (t : TextWriter)
    (h : Render.run limit r.onFst renderer.onSnd (x, s) = (.ok bytes, (x', t))) : t.format.depth = s.format.depth

/-- **Starting again.** Of a writer with any history of calls, be they taken or refused. -/
theorem resumes_start (l : Layout) (history : List Renderer.Call) :
    Resumes l (renderer.outcomes outlet history (.ofLayout l)).2 := by
  have hlayout : (renderer.outcomes outlet history (.ofLayout l)).2.format.layout = l := outcomes_layout history _
  generalize (renderer.outcomes outlet history (.ofLayout l)).2 = s at hlayout
  subst hlayout
  refine ⟨rfl, fun out calls => outcomes_resumed out calls s, ⟨fun h => ?_, fun h out calls => ?_⟩,
    fun hl out calls => ?_, depth_of_token, fun limit r x => run_resumed limit r x s,
    fun limit r x x' bytes t => depth_of_run r limit⟩
  · cases hl : s.format.layout with
    | compact => exact .inl rfl
    | indented unit =>
      refine .inr (zero_of_afresh unit fun out calls => ?_)
      rw [← hl, ← outcomes_resumed, h]
  · rw [outcomes_resumed]
    rcases h with hcompact | hzero
    · exact outcomes_compact (s := .ofLayout s.format.layout) _ hcompact (Nat.zero_le _)
    · rw [hzero]
      rfl
  · rw [outcomes_resumed out calls s]
    exact outcomes_deeper (s := .ofLayout s.format.layout) _ hl (Nat.zero_le _)

/-- The object of an abandoned token is still counted when the next one is put. -/
theorem abandoned_object_indents :
    let claimed : List Writer.Request := [.claim ⟨1, .null⟩]
    let abandoned := (renderer.outcomes outlet (.start .emptyGrowable :: claimed.map .request) (.ofLayout .pretty)).2
    let again := (renderer.outcomes outlet (Renderer.Call.token .emptyGrowable claimed) abandoned).1
    let afresh := (renderer.outcomes outlet (Renderer.Call.token .emptyGrowable claimed) (.ofLayout .pretty)).1
    again ≠ afresh ∧
      again.getLast?.map Renderer.Outcome.out = some (.growable (Text.utf8 "\x7b\n    \"1\": null\n  \x7d")) ∧
      afresh.getLast?.map Renderer.Outcome.out = some (.growable (Text.utf8 "\x7b\n  \"1\": null\n\x7d")) := by
  intro claimed abandoned again afresh
  have hagain : again.getLast?.map Renderer.Outcome.out =
      some (.growable (Text.utf8 "\x7b\n    \"1\": null\n  \x7d")) := by decide +kernel
  have hafresh : afresh.getLast?.map Renderer.Outcome.out =
      some (.growable (Text.utf8 "\x7b\n  \"1\": null\n\x7d")) := by decide +kernel
  refine ⟨fun h => ?_, hagain, hafresh⟩
  rw [h, hafresh] at hagain
  revert hagain
  decide +kernel

end Json.TextWriter

end ClaimRelay
