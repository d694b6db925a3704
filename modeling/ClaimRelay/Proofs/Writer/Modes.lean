import ClaimRelay.Buffer.Sink
import ClaimRelay.Proofs.Walk.Alike
import ClaimRelay.Proofs.Writer.Calls

/-!
# Buffers of every kind

A growing buffer never refuses a byte, so what a renderer does to it is all that it would do. A buffer that counts
follows it in size; one with a capacity is the same to the byte as long as there is room, and from the call on that
needs more than there is the two part. `Renderer.Even` says what a renderer has to do for this, and
`Renderer.Even.unmoved` what comes of it.
-/

namespace ClaimRelay

variable {ς α β : Type}

/-! ## One content in three kinds of buffer -/

namespace Buffer

namespace Mode

def holding : Mode → List UInt8 → Buffer
  | measuring, content => .measuring content.length
  | growable, content => .growable content
  | fixed capacity, content => .fixed capacity content

/-- Whether there is room for so many bytes. -/
def Room : Mode → Nat → Prop
  | fixed capacity, n => n ≤ capacity
  | _, _ => True

theorem Room.mono {mode : Mode} {m n : Nat} (h : mode.Room n) (hmn : m ≤ n) : mode.Room m := by
  cases mode with
  | fixed capacity => exact Nat.le_trans hmn h
  | _ => trivial

theorem room_zero (mode : Mode) : mode.Room 0 := by
  cases mode with
  | fixed capacity => exact Nat.zero_le capacity
  | _ => trivial

end Mode

/-- The buffer in another mode, if it is one that grows. -/
def inMode (mode : Mode) : Buffer → Buffer
  | growable content => mode.holding content
  | b => b

variable (mode : Mode)

@[simp] theorem size_holding (content : List UInt8) : (mode.holding content).size = content.length := by
  cases mode <;> rfl

@[simp] theorem size_inMode (b : Buffer) : (b.inMode mode).size = b.size := by
  cases b <;> first | rfl | exact size_holding mode _

variable {offset : Nat} {data : List UInt8}

theorem insert_past {b : Buffer} (h : b.size < offset) :
    b.insert offset data = .error (.structural (.insertPastEnd offset b.size)) := if_pos h

theorem insert_within {b : Buffer} (h : offset ≤ b.size) : b.insert offset data =
    b.grow data.length fun content => content.take offset ++ data ++ content.drop offset := if_neg (Nat.not_lt.mpr h)

theorem length_inserted {content : List UInt8} (h : offset ≤ content.length) :
    (content.take offset ++ data ++ content.drop offset).length = content.length + data.length := by
  simp
  omega

variable {content : List UInt8} {change : List UInt8 → List UInt8} {n : Nat}

theorem grow_room (hn : (change content).length = content.length + n) (h : mode.Room (content.length + n)) :
    (mode.holding content).grow n change = .ok (mode.holding (change content)) := by
  cases mode with
  | measuring => exact congrArg (Except.ok ∘ Buffer.measuring) hn.symm
  | growable => rfl
  | fixed capacity => exact if_neg (Nat.not_lt.mpr h)

theorem grow_no_room (h : ¬mode.Room (content.length + n)) : ∃ e, (mode.holding content).grow n change = .error e := by
  cases mode with
  | measuring => exact absurd trivial h
  | growable => exact absurd trivial h
  | fixed capacity => exact ⟨_, if_pos (Nat.lt_of_not_le h)⟩

end Buffer

/-! ## Steps that keep pace -/

variable (o : Outlet ς) (mode : Buffer.Mode)

namespace Outlet

/-- The state with its output in another mode, if that is one that grows. -/
def inMode (s : ς) : ς := o.withOut ((o.out s).inMode mode) s

/-- Whether the output grows and the mode has room for its content. -/
def Held (s : ς) : Prop := ∃ content, o.out s = .growable content ∧ mode.Room content.length

/-- Whether `t` is `s` with its output in the mode, which holds it. -/
def Beside (s t : ς) : Prop := t = o.inMode mode s ∧ o.Held mode s

theorem out_inMode (s : ς) : o.out (o.inMode mode s) = (o.out s).inMode mode := o.out_withOut ..

end Outlet

namespace Step

/-- From a state whose output grows, `y` does in the other mode what `x` does on it, unless what `x` writes is more
than there is room for: then `y` fails. -/
def PacedAt (x y : Step ς α) (s : ς) : Prop :=
  ∀ content, o.out s = .growable content → ∃ more, o.out (x s).2 = .growable more ∧ content.length ≤ more.length ∧
    (mode.Room more.length → y (o.inMode mode s) = ((x s).1, o.inMode mode (x s).2)) ∧
    (mode.Room content.length → ¬mode.Room more.length →
      ∃ e t, y (o.inMode mode s) = (.error e, o.inMode mode t) ∧ o.Held mode t)

def Paced ⦃α : Type⦄ (x y : Step ς α) : Prop := ∀ s, PacedAt o mode x y s

variable {o : Outlet ς} {mode : Buffer.Mode} {x y : Step ς α} {s : ς}

theorem PacedAt.quiet {a : Except Error α} {t : ς} (hx : x s = (a, t))
    (hy : y (o.inMode mode s) = (a, o.inMode mode t)) (ht : o.out t = o.out s) : PacedAt o mode x y s := by
  intro content hs
  rw [hx]
  exact ⟨content, ht.trans hs, Nat.le_refl _, fun _ => hy, fun h hn => absurd h hn⟩

theorem PacedAt.bind {f g : α → Step ς β} (h : PacedAt o mode x y s)
    (hf : ∀ a t, x s = (.ok a, t) → PacedAt o mode (f a) (g a) t) : PacedAt o mode (x >>= f) (y >>= g) s := by
  intro content hs
  obtain ⟨more, hmore, hle, hroom, hshort⟩ := h content hs
  rcases hx : x s with ⟨e | a, t⟩ <;> rw [hx] at hmore hroom <;> dsimp only at hmore hroom
  · rw [bind_of_error hx]
    refine ⟨more, hmore, hle, fun h => bind_of_error (hroom h), fun h hn => ?_⟩
    obtain ⟨e', t', hy, ht'⟩ := hshort h hn
    exact ⟨e', t', bind_of_error hy, ht'⟩
  · rw [bind_of_ok hx]
    obtain ⟨most, hmost, hle', hroom', hshort'⟩ := hf a t hx more hmore
    refine ⟨most, hmost, Nat.le_trans hle hle', fun h => ?_, fun h hn => ?_⟩
    · rw [bind_of_ok (hroom (h.mono hle'))]
      exact hroom' h
    · by_cases hm : mode.Room more.length
      · rw [bind_of_ok (hroom hm)]
        exact hshort' hm hn
      · obtain ⟨e', t', hy, ht'⟩ := hshort h hm
        exact ⟨e', t', bind_of_error hy, ht'⟩

/-- Looking at the state, where what is done next may differ only in the output it carries along. -/
theorem PacedAt.look {f g : ς → Step ς α} (h : PacedAt o mode (f s) (g (o.inMode mode s)) s) :
    PacedAt o mode (get >>= f) (get >>= g) s := h

theorem Paced.congruence (o : Outlet ς) (mode : Buffer.Mode) : Congruence (Paced o mode) where
  answer _ _ := .quiet rfl rfl rfl
  refuse _ _ := .quiet rfl rfl rfl
  bind h hf s := (h s).bind fun a t _ => hf a t

theorem Paced.look {k : ς → Step ς α} (hk : ∀ s, k (o.inMode mode s) = k s) (h : ∀ s, Paced o mode (k s) (k s)) :
    Paced o mode (get >>= k) (get >>= k) := by
  intro s
  apply PacedAt.look
  rw [hk]
  exact h s s

/-- The rest, with something more before it in one of two cases. -/
theorem Paced.optional {c : Prop} [Decidable c] {z : Step ς α} (hz : Paced o mode x x → Paced o mode z z)
    (hx : Paced o mode x x) : Paced o mode (if c then z else x) (if c then z else x) := by
  split
  · exact hz hx
  · exact hx

theorem Paced.modifyGet {f : ς → α × ς} (hf : ∀ s, f (o.inMode mode s) = ((f s).1, o.inMode mode (f s).2))
    (ho : ∀ s, o.out (f s).2 = o.out s) : Paced o mode (modifyGet f : Step ς α) (modifyGet f) := by
  intro s
  refine .quiet (a := .ok (f s).1) (t := (f s).2) rfl ?_ (ho s)
  exact congrArg (fun p : α × ς => (Except.ok p.1, p.2)) (hf s)

/-- Bytes that go somewhere into the output, with whatever error their refusal becomes. -/
theorem Paced.update {f : ς → Except Error ς} (offset : ς → Nat) (data : ς → List UInt8) (wrap : Error → Error)
    (hf : ∀ s, f s = match (o.out s).insert (offset s) (data s) with
      | .ok out => .ok (o.withOut out s)
      | .error e => .error (wrap e))
    (ho : ∀ s, offset (o.inMode mode s) = offset s) (hd : ∀ s, data (o.inMode mode s) = data s) :
    Paced o mode (Step.update f) (Step.update f) := by
  intro s content hs
  have hx := hf s
  have hy := hf (o.inMode mode s)
  rw [hs] at hx
  rw [o.out_inMode, hs, ho, hd, Buffer.inMode] at hy
  unfold Step.update
  by_cases hle : offset s ≤ content.length
  · rw [Buffer.insert_within (b := .growable content) hle] at hx
    rw [Buffer.insert_within (by simpa using hle)] at hy
    have hlength : (content.take (offset s) ++ data s ++ content.drop (offset s)).length =
        content.length + (data s).length := Buffer.length_inserted hle
    have hwritten : f s = .ok
        (o.withOut (.growable (content.take (offset s) ++ data s ++ content.drop (offset s))) s) := hx
    rw [hwritten]
    refine ⟨_, o.out_withOut .., ?_, fun hroom => ?_, fun hroom hn => ?_⟩
    · rw [hlength]
      exact Nat.le_add_right ..
    · rw [hlength] at hroom
      rw [Buffer.grow_room mode hlength hroom] at hy
      rw [hy]
      simp only [Outlet.inMode, o.out_withOut, o.withOut_withOut]
      rfl
    · rw [hlength] at hn
      obtain ⟨e, he⟩ := Buffer.grow_no_room mode hn
      rw [he] at hy
      rw [hy]
      exact ⟨wrap e, s, rfl, content, hs, hroom⟩
  · -- refused before it is looked at whether there is room
    have hpast := Nat.lt_of_not_le hle
    rw [Buffer.insert_past (b := .growable content) hpast] at hx
    rw [Buffer.insert_past (by simpa using hpast), Buffer.size_holding] at hy
    have hrefused : f s = .error (wrap (.structural (.insertPastEnd (offset s) content.length))) := hx
    rw [hrefused, hy]
    exact ⟨content, hs, Nat.le_refl _, fun _ => rfl, fun h hn => absurd h hn⟩

theorem Paced.held (h : Paced o mode x y) (hs : o.Held mode s) :
    (mode.Room (o.out (x s).2).size ∧ y (o.inMode mode s) = ((x s).1, o.inMode mode (x s).2) ∧ o.Held mode (x s).2) ∨
    ¬mode.Room (o.out (x s).2).size ∧ ∃ e t, y (o.inMode mode s) = (.error e, o.inMode mode t) ∧ o.Held mode t := by
  obtain ⟨content, hout, hroom⟩ := hs
  obtain ⟨more, hmore, -, hsame, hshort⟩ := h s content hout
  rw [hmore, Buffer.size]
  by_cases hm : mode.Room more.length
  · exact .inl ⟨hm, hsame hm, more, hmore, hm⟩
  · exact .inr ⟨hm, hshort hroom hm⟩

end Step

namespace Renderer

/-! ## Renderers that keep pace -/

/-- A renderer that only appends to its output and inserts into it, and looks at nothing of it but the size. -/
structure Even (w : Renderer ς) (o : Outlet ς) (mode : Buffer.Mode) : Prop extends
    Writer.Alike (Step.Paced o mode) w.toWriter w.toWriter where
  fresh (out b : Buffer) (s : ς) : w.start out (o.withOut b s) = w.start out s
  starts (s : ς) : ∃ (x : Step ς Unit) (t : ς), Step.Paced o mode x x ∧ o.out t = .growable [] ∧
    w.start .emptyGrowable s = x t ∧ w.start (mode.holding []) s = x (o.inMode mode t)
  finishes : ∃ (x : Step ς Unit) (left : ς → ς), Step.Paced o mode x x ∧ (∀ b s, left (o.withOut b s) = left s) ∧
    w.finish = do x; modifyGet fun s => (o.out s, left s)

def Outcome.inMode (mode : Buffer.Mode) (x : Outcome) : Outcome := { x with out := x.out.inMode mode }

/-- What a buffer shows that only counts. -/
def Outcome.counted (x : Outcome) : Except Error (Option Nat) × Nat := (x.answer, x.out.size)

def Outcome.seen (x : Outcome) : Except Error (Option Nat) × Option (List UInt8) := (x.answer, x.out.bytes?)

/-- The call, which starts on an empty buffer of the mode if it starts. -/
def Call.on (mode : Buffer.Mode) : Call → Call
  | start _ => start (mode.holding [])
  | call => call

/-- What one call comes to in the mode when it comes to `g` on a growing output: the same as long as there is room,
with the states behind it as `after` says, and otherwise an error. -/
def Kept (o : Outlet ς) (mode : Buffer.Mode) (after : ς → ς → Prop) (g f : Outcome × ς) : Prop :=
  (mode.Room g.1.out.size ∧ f.1 = g.1.inMode mode ∧ after g.2 f.2) ∨
    ¬mode.Room g.1.out.size ∧ ∃ e t, f = (⟨.error e, o.out (o.inMode mode t)⟩, o.inMode mode t) ∧ o.Held mode t

variable {w : Renderer ς} {o : Outlet ς} {mode : Buffer.Mode} {s t : ς}

namespace Even

theorem request (hw : w.Even o mode) (r : Writer.Request) (h : o.Beside mode s t) :
    Kept o mode (o.Beside mode) (w.perform o (.request r) s) (w.perform o (.request r) t) := by
  obtain ⟨rfl, hs⟩ := h
  have hr := Writer.answer_alike (Step.Paced.congruence o mode) hw.toAlike r
  rcases hr.held hs with ⟨hroom, hf, ht⟩ | ⟨hroom, e, t, hf, ht⟩
  · simp only [perform, hf]
    exact .inl ⟨hroom, congrArg _ (o.out_inMode ..), rfl, ht⟩
  · simp only [perform, hf]
    exact .inr ⟨hroom, e, t, rfl, ht⟩

theorem start (hw : w.Even o mode) (s : ς) : Kept o mode (o.Beside mode) (w.perform o (.start .emptyGrowable) s)
    (w.perform o (.start (mode.holding [])) s) := by
  obtain ⟨x, t, hx, ht, hg, hf⟩ := hw.starts s
  simp only [perform, hg, hf]
  rcases hx.held ⟨[], ht, mode.room_zero⟩ with ⟨hroom, hf, ht'⟩ | ⟨hroom, e, t', hf, ht'⟩
  · rw [hf]
    exact .inl ⟨hroom, congrArg _ (o.out_inMode ..), rfl, ht'⟩
  · rw [hf]
    exact .inr ⟨hroom, e, t', rfl, ht'⟩

/-- A renderer that has finished has its output no more, so the two are in one state then. -/
theorem finish (hw : w.Even o mode) (h : o.Beside mode s t) :
    Kept o mode (fun s t => t = s ∨ o.Beside mode s t) (w.perform o .finish s) (w.perform o .finish t) := by
  obtain ⟨rfl, hs⟩ := h
  obtain ⟨x, left, hx, hleft, hfinish⟩ := hw.finishes
  have hheld := hx.held hs
  simp only [perform, hfinish]
  rcases hxs : x s with ⟨e | _, u⟩ <;> rw [hxs] at hheld
  · rw [Step.bind_of_error hxs]
    rcases hheld with ⟨hroom, hf, ht⟩ | ⟨hroom, e', t', hf, ht'⟩
    · rw [Step.bind_of_error hf]
      exact .inl ⟨hroom, congrArg _ (o.out_inMode ..), .inr ⟨rfl, ht⟩⟩
    · rw [Step.bind_of_error hf]
      exact .inr ⟨hroom, e', t', rfl, ht'⟩
  · rw [Step.bind_of_ok hxs]
    rcases hheld with ⟨hroom, hf, ht⟩ | ⟨hroom, e', t', hf, ht'⟩
    · rw [Step.bind_of_ok hf]
      exact .inl ⟨hroom, congrArg _ (o.out_inMode ..), .inl (hleft ..)⟩
    · rw [Step.bind_of_error hf]
      exact .inr ⟨hroom, e', t', rfl, ht'⟩

end Even

/-! ## Counting -/

theorem Kept.counted {g m : Outcome × ς} {after : ς → ς → Prop} (h : Kept o .measuring after g m) :
    m.1.counted = g.1.counted ∧ after g.2 m.2 := by
  rcases h with ⟨-, hm, hafter⟩ | ⟨hroom, -⟩
  · rw [hm]
    exact ⟨congrArg (Prod.mk _) (Buffer.size_inMode ..), hafter⟩
  · exact absurd trivial hroom

/-- A call on a growing buffer and on one that counts. Before the first start, and once a token is finished, the
renderers are in one state. -/
theorem Even.counts (hw : w.Even o .measuring) (h : t = s ∨ o.Beside .measuring s t) (call : Call) :
    (w.perform o (call.on .measuring) t).1.counted = (w.perform o (call.on .growable) s).1.counted ∧
    ((w.perform o (call.on .measuring) t).2 = (w.perform o (call.on .growable) s).2 ∨
      o.Beside .measuring (w.perform o (call.on .growable) s).2 (w.perform o (call.on .measuring) t).2) := by
  cases call with
  | start out =>
    have hstart := hw.start s
    have hfresh : w.perform o (.start (Buffer.Mode.measuring.holding [])) t =
        w.perform o (.start (Buffer.Mode.measuring.holding [])) s := by
      rcases h with rfl | ⟨rfl, -⟩
      · rfl
      · simp only [perform, Outlet.inMode, hw.fresh]
    rw [← hfresh] at hstart
    exact hstart.counted.imp_right .inr
  | request r =>
    rcases h with rfl | h
    · exact ⟨rfl, .inl rfl⟩
    · exact (hw.request r h).counted.imp_right .inr
  | finish =>
    rcases h with rfl | h
    · exact ⟨rfl, .inl rfl⟩
    · exact (hw.finish h).counted

theorem halts_of_counted {x y : Outcome} (h : x.counted = y.counted) : x.halts = y.halts := by
  have hanswer : x.answer = y.answer := congrArg Prod.fst h
  unfold Outcome.halts
  rw [hanswer]

theorem Even.counts_all (hw : w.Even o .measuring) (h : t = s ∨ o.Beside .measuring s t) (calls : List Call) :
    (w.outcomes o (calls.map (.on .measuring)) t).1.map Outcome.counted =
      (w.outcomes o (calls.map (.on .growable)) s).1.map Outcome.counted := by
  induction calls generalizing s t with
  | nil => rfl
  | cons call rest ih =>
    obtain ⟨hsame, hafter⟩ := hw.counts h call
    have hhalts : (w.perform o (call.on .measuring) t).1.halts = (w.perform o (call.on .growable) s).1.halts :=
      halts_of_counted hsame
    simp only [List.map_cons, outcomes_cons]
    rw [hsame]
    unfold further
    rw [hhalts]
    split
    · rfl
    · rw [ih hafter]

/-! ## Running out of room -/

/-- The outcomes in a mode, against those on a growing output: the same up to the first that there is no room for, an
error there, and never more than there is room for. -/
inductive Fitted (mode : Buffer.Mode) : List Outcome → List Outcome → Prop
  | nil : Fitted mode [] []
  | cons {g : Outcome} {gs fs : List Outcome} (h : mode.Room g.out.size) (hr : Fitted mode gs fs) :
    Fitted mode (g :: gs) (g.inMode mode :: fs)
  | short {g f : Outcome} {gs fs : List Outcome} {e : Error} (h : ¬mode.Room g.out.size) (hf : f.answer = .error e)
    (hroom : ∀ x ∈ f :: fs, mode.Room x.out.size) : Fitted mode (g :: gs) (f :: fs)

theorem held_room (h : o.Held mode s) : mode.Room (o.out (o.inMode mode s)).size := by
  obtain ⟨content, hout, hroom⟩ := h
  rwa [o.out_inMode, hout, Buffer.size_inMode]

section
variable {after : ς → ς → Prop} {g f : Outcome × ς}

theorem Kept.room (h : Kept o mode after g f) : mode.Room f.1.out.size := by
  rcases h with ⟨hroom, hf, -⟩ | ⟨-, e, t, rfl, ht⟩
  · rw [hf]
    exact (Buffer.size_inMode mode _).symm ▸ hroom
  · exact held_room ht

end

theorem forall_mem_further {P : Outcome → Prop} {first : Outcome} {calls : List Call}
    (h : ∀ x ∈ (w.outcomes o calls s).1, P x) : ∀ x ∈ (w.further o first calls s).1, P x := by
  unfold further
  split
  · exact List.forall_mem_nil _
  · exact h

/-- After a call that there was no room for, or any other. -/
theorem Even.within (hw : w.Even o mode) (requests : List Writer.Request) (ht : o.Held mode s) :
    ∀ x ∈ (w.outcomes o (requests.map .request ++ [.finish]) (o.inMode mode s)).1, mode.Room x.out.size := by
  induction requests generalizing s with
  | nil =>
    have hlast := (hw.finish ⟨rfl, ht⟩).room
    simpa [outcomes_single] using hlast
  | cons r rest ih =>
    have hfirst := hw.request r ⟨rfl, ht⟩
    simp only [List.map_cons, List.cons_append, outcomes_cons, List.forall_mem_cons]
    refine ⟨hfirst.room, forall_mem_further ?_⟩
    rcases hfirst with ⟨-, -, hstate, hheld⟩ | ⟨-, e, t', hf, hheld⟩
    · rw [hstate]
      exact ih hheld
    · rw [hf]
      exact ih hheld

theorem Even.fitted_cons (hw : w.Even o mode) {g f : Outcome × ς} (h : Kept o mode (o.Beside mode) g f)
    (requests : List Writer.Request)
    (hrest : o.Held mode g.2 → Fitted mode (w.outcomes o (requests.map .request ++ [.finish]) g.2).1
      (w.outcomes o (requests.map .request ++ [.finish]) (o.inMode mode g.2)).1) :
    Fitted mode (g.1 :: (w.further o g.1 (requests.map .request ++ [.finish]) g.2).1)
      (f.1 :: (w.further o f.1 (requests.map .request ++ [.finish]) f.2).1) := by
  have hroom := h.room
  rcases h with ⟨hg, hf, hstate, hheld⟩ | ⟨hg, e, t, rfl, hheld⟩
  · have hhalts : (g.1.inMode mode).halts = g.1.halts := rfl
    rw [hf, hstate]
    refine .cons hg ?_
    unfold further
    rw [hhalts]
    split
    · exact .nil
    · exact hrest hheld
  · refine .short hg rfl (List.forall_mem_cons.mpr ⟨hroom, forall_mem_further ?_⟩)
    exact hw.within requests hheld

theorem Even.fitted (hw : w.Even o mode) (requests : List Writer.Request) (hs : o.Held mode s) :
    Fitted mode (w.outcomes o (requests.map .request ++ [.finish]) s).1
      (w.outcomes o (requests.map .request ++ [.finish]) (o.inMode mode s)).1 := by
  induction requests generalizing s with
  | nil =>
    have hlast := hw.finish ⟨rfl, hs⟩
    have hroom := hlast.room
    simp only [List.map_nil, List.nil_append, outcomes_single]
    rcases hlast with ⟨hg, hf, -⟩ | ⟨hg, e, t, hf, -⟩
    · rw [hf]
      exact .cons hg .nil
    · rw [hf] at hroom ⊢
      exact .short hg rfl (by simpa using hroom)
  | cons r rest ih => exact hw.fitted_cons (hw.request r ⟨rfl, hs⟩) rest ih

theorem Even.fitted_token (hw : w.Even o mode) (requests : List Writer.Request) (s : ς) :
    Fitted mode (w.outcomes o (Call.token .emptyGrowable requests) s).1
      (w.outcomes o (Call.token (mode.holding []) requests) s).1 :=
  hw.fitted_cons (hw.start s) requests (hw.fitted requests)

section
variable {gs fs : List Outcome}

theorem Fitted.room (h : Fitted mode gs fs) : ∀ f ∈ fs, mode.Room f.out.size := by
  induction h with
  | nil => exact List.forall_mem_nil _
  | cons h _ ih => exact List.forall_mem_cons.mpr ⟨(Buffer.size_inMode mode _).symm ▸ h, ih⟩
  | short _ _ hroom => exact hroom

theorem Fitted.enough (h : Fitted mode gs fs) (hg : ∀ g ∈ gs, mode.Room g.out.size) : fs = gs.map (.inMode mode) := by
  induction h with
  | nil => rfl
  | cons _ _ ih => rw [List.map_cons, ih (List.forall_mem_cons.mp hg).2]
  | short h _ _ => exact absurd (List.forall_mem_cons.mp hg).1 h

theorem Fitted.split (h : Fitted mode gs fs) (hg : ¬∀ g ∈ gs, mode.Room g.out.size) :
    ∃ before g after f after', gs = before ++ g :: after ∧ fs = before.map (.inMode mode) ++ f :: after' ∧
      (∀ x ∈ before, mode.Room x.out.size) ∧ ¬mode.Room g.out.size ∧ ∃ e, f.answer = .error e := by
  induction h with
  | nil => exact absurd (List.forall_mem_nil _) hg
  | cons h _ ih =>
    obtain ⟨before, g, after, f, after', rfl, rfl, hbefore, hshort⟩ :=
      ih fun hrest => hg (List.forall_mem_cons.mpr ⟨h, hrest⟩)
    exact ⟨_ :: before, g, after, f, after', rfl, rfl, List.forall_mem_cons.mpr ⟨h, hbefore⟩, hshort⟩
  | short h hf _ => exact ⟨[], _, _, _, _, rfl, rfl, List.forall_mem_nil _, h, _, hf⟩

end

/-! ## Growing outputs grow -/

theorem outcomes_ne_nil (w : Renderer ς) (o : Outlet ς) {calls : List Call} (hc : calls ≠ []) (s : ς) :
    (w.outcomes o calls s).1 ≠ [] := by
  cases calls with
  | nil => exact absurd rfl hc
  | cons call rest => exact List.cons_ne_nil _ _

/-- Before an answer that is the last but one is none in which the program stops. -/
theorem getLast?_further {calls : List Call} (hc : calls ≠ []) {first last : Outcome} (hl : last.halts = false)
    (h : (first :: (w.further o first calls s).1).getLast? = some last) :
    w.further o first calls s = w.outcomes o calls s ∧ (w.outcomes o calls s).1.getLast? = some last := by
  have hgoes : first.halts = false := by
    cases hf : first.halts with
    | false => rfl
    | true =>
      rw [further_of_halts hf] at h
      cases h
      exact hf.symm.trans hl
  rw [further_of_not_halts hgoes] at h ⊢
  refine ⟨rfl, ?_⟩
  obtain ⟨x, xs, hx⟩ := List.exists_cons_of_ne_nil (w.outcomes_ne_nil o hc s)
  rw [hx] at h ⊢
  rwa [List.getLast?_cons_cons] at h

/-- Nothing is longer on the way than what is handed back. -/
theorem Even.grows (hw : w.Even o mode) (requests : List Writer.Request) {content bytes : List UInt8}
    (hs : o.out s = .growable content)
    (hlast : (w.outcomes o (requests.map .request ++ [.finish]) s).1.getLast? = some ⟨.ok none, .growable bytes⟩) :
    content.length ≤ bytes.length ∧
      ∀ x ∈ (w.outcomes o (requests.map .request ++ [.finish]) s).1, x.out.size ≤ bytes.length := by
  induction requests generalizing s content with
  | nil =>
    obtain ⟨x, left, hx, -, hfinish⟩ := hw.finishes
    obtain ⟨more, hmore, hle, -⟩ := hx s content hs
    have hdone : (w.perform o .finish s).1 = ⟨.ok none, .growable bytes⟩ := by simpa [outcomes_single] using hlast
    have hsize : more.length = bytes.length := by
      simp only [perform, hfinish] at hdone
      rcases hxs : x s with ⟨e | _, u⟩ <;> rw [hxs] at hmore
      · rw [Step.bind_of_error hxs] at hdone
        cases congrArg Outcome.answer hdone
      · rw [Step.bind_of_ok hxs] at hdone
        have hout : o.out u = .growable bytes := congrArg Outcome.out hdone
        cases hmore.symm.trans hout
        rfl
    rw [hsize] at hle
    refine ⟨hle, ?_⟩
    simp [outcomes_single, hdone, Buffer.size]
  | cons r rest ih =>
    obtain ⟨more, hmore, hle, -⟩ := Writer.answer_alike (Step.Paced.congruence o mode) hw.toAlike r s content hs
    simp only [List.map_cons, List.cons_append, outcomes_cons] at hlast ⊢
    obtain ⟨hfurther, hlast⟩ := getLast?_further (by simp) rfl hlast
    obtain ⟨hmost, hall⟩ := ih (s := (w.answer r s).2) hmore hlast
    refine ⟨Nat.le_trans hle hmost, List.forall_mem_cons.mpr ⟨?_, hfurther ▸ hall⟩⟩
    show (o.out (w.answer r s).2).size ≤ _
    rw [hmore]
    exact hmost

theorem Even.grows_token (hw : w.Even o mode) (requests : List Writer.Request) {bytes : List UInt8}
    (hlast : (w.outcomes o (Call.token .emptyGrowable requests) s).1.getLast? = some ⟨.ok none, .growable bytes⟩) :
    ∀ x ∈ (w.outcomes o (Call.token .emptyGrowable requests) s).1, x.out.size ≤ bytes.length := by
  obtain ⟨x, t, hx, ht, hg, -⟩ := hw.starts s
  obtain ⟨more, hmore, -⟩ := hx t [] ht
  rw [← hg] at hmore
  simp only [Call.token, outcomes_cons] at hlast ⊢
  obtain ⟨hfurther, hlast⟩ := getLast?_further (by simp) rfl hlast
  obtain ⟨hmost, hall⟩ := hw.grows requests (s := (w.start .emptyGrowable s).2) hmore hlast
  refine List.forall_mem_cons.mpr ⟨?_, hfurther ▸ hall⟩
  show (o.out (w.start .emptyGrowable s).2).size ≤ _
  rw [hmore]
  exact hmost

/-! ## All kinds of buffer -/

theorem Outcome.seen_fixed (capacity : Nat) (x : Outcome) : (x.inMode (.fixed capacity)).seen = x.seen := by
  obtain ⟨answer, out⟩ := x
  cases out <;> rfl

/-- What becomes of a token on a buffer with a capacity when a growing one ends with so many bytes. -/
structure Bounded (capacity n : Nat) (growing bounded : List Outcome) : Prop where
  enough (h : n ≤ capacity) : bounded.map Outcome.seen = growing.map Outcome.seen
  /-- The first call that leaves more on the growing buffer than there is room for is refused. -/
  short (h : capacity < n) : ∃ before g after before' f after', growing = before ++ g :: after ∧
    bounded = before' ++ f :: after' ∧ before'.map Outcome.seen = before.map Outcome.seen ∧
    (∀ x ∈ before, x.out.size ≤ capacity) ∧ capacity < g.out.size ∧ ∃ e, f.answer = .error e
  within : ∀ x ∈ bounded, x.out.size ≤ capacity

/-- Whether a renderer, from `s` on, does the same on buffers of all kinds. -/
structure Unmoved (w : Renderer ς) (o : Outlet ς) (s : ς) : Prop where
  counting (calls : List Call) : (w.outcomes o (calls.map (.on .measuring)) s).1.map Outcome.counted =
    (w.outcomes o (calls.map (.on .growable)) s).1.map Outcome.counted
  bounded (capacity : Nat) (requests : List Writer.Request) (bytes : List UInt8)
    (h : (w.outcomes o (Call.token .emptyGrowable requests) s).1.getLast? = some ⟨.ok none, .growable bytes⟩) :
    Bounded capacity bytes.length (w.outcomes o (Call.token .emptyGrowable requests) s).1
      (w.outcomes o (Call.token (.emptyFixed capacity) requests) s).1

theorem Even.unmoved (hw : ∀ mode, w.Even o mode) (s : ς) : w.Unmoved o s where
  counting calls := (hw .measuring).counts_all (.inl rfl) calls
  bounded capacity requests bytes h := by
    have hsize := (hw (.fixed capacity)).grows_token requests h
    have hfitted : Fitted (.fixed capacity) _ (w.outcomes o (Call.token (.emptyFixed capacity) requests) s).1 :=
      (hw (.fixed capacity)).fitted_token requests s
    have hseen (gs : List Outcome) : (gs.map (.inMode (.fixed capacity))).map Outcome.seen = gs.map Outcome.seen := by
      simp [Outcome.seen_fixed]
    refine ⟨fun hle => ?_, fun hlt => ?_, hfitted.room⟩
    · rw [hfitted.enough fun g hg => Nat.le_trans (hsize g hg) hle]
      exact hseen _
    · have hover : ¬∀ g ∈ (w.outcomes o (Call.token .emptyGrowable requests) s).1,
          Buffer.Mode.Room (.fixed capacity) g.out.size := by
        intro hall
        exact Nat.not_lt_of_le (hall _ (List.mem_of_getLast? h)) hlt
      obtain ⟨before, g, after, f, after', hgrowing, hbounded, hbefore, hg, hf⟩ := hfitted.split hover
      exact ⟨before, g, after, _, f, after', hgrowing, hbounded, hseen before, hbefore, Nat.lt_of_not_le hg, hf⟩

end Renderer

end ClaimRelay
