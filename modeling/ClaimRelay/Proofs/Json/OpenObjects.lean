import ClaimRelay.Proofs.Json.Following
import ClaimRelay.Proofs.Writer.Calls

/-!
# The count of open objects

A format counts the objects that are begun and not ended. Whatever calls succeed, the count goes along with the frames:
what it is above the objects of the frames stays as it is. Calls that fail may leave an object that no frame knows of.
Text without indentation hangs on the count only where the program stops for one that is too low.
-/

namespace ClaimRelay.Json

variable {α β : Type}

/-- Whether the layout has no indentation. -/
def Layout.Flat : Layout → Prop
  | compact => True
  | indented unit => unit = []

def Frame.objects : Frame → Nat
  | token .. => 1
  | sect _ begun => begun.toNat

def Frame.objectsOf : List Frame → Nat
  | [] => 0
  | frame :: outer => frame.objects + objectsOf outer

namespace TextWriter

/-- Whether the count is `base` objects above those of the frames, and `i` more. -/
def Counts (base : Nat) (i : Int) (s : TextWriter) : Prop :=
  (s.format.depth : Int) = base + Frame.objectsOf s.frames + i

/-- The writer with another count. -/
def recount (depth : Nat) (s : TextWriter) : TextWriter := { s with format := { s.format with depth } }

@[simp] theorem frames_recount (depth : Nat) (s : TextWriter) : (s.recount depth).frames = s.frames := rfl

@[simp] theorem layout_recount (depth : Nat) (s : TextWriter) :
    (s.recount depth).format.layout = s.format.layout := rfl

/-! ## Steps and the count -/

/-- Whether a step keeps the layout, takes a count that is `i` above the frames to one that is `j` above them if it
succeeds, and without indentation does the same for any greater count, unless the program stops. -/
structure MovesAt (i j : Int) (x : Step TextWriter α) (s : TextWriter) : Prop where
  layout : (x s).2.format.layout = s.format.layout
  count (base : Nat) (h : Counts base i s) (a : α) (t : TextWriter) (hx : x s = (.ok a, t)) : Counts base j t
  deeper (depth : Nat) (hl : s.format.layout.Flat) (hd : s.format.depth ≤ depth)
    (hrun : s.format.layout = .compact ∨ (x s).1 ≠ .error .halted) :
    ∃ depth', (x s).2.format.depth ≤ depth' ∧ x (s.recount depth) = ((x s).1, (x s).2.recount depth')

namespace MovesAt

variable {x y : Step TextWriter α} {f : α → Step TextWriter β} {s : TextWriter} {i j k : Int}

theorem quiet {a : α} {t : TextWriter} (hx : x s = (.ok a, t)) (hf : t.format = s.format)
    (hn : Frame.objectsOf s.frames + i = Frame.objectsOf t.frames + j)
    (hc : ∀ depth, x (s.recount depth) = (.ok a, t.recount depth)) : MovesAt i j x s where
  layout := by rw [hx, hf]
  count base h b u hb := by
    rw [hx] at hb
    cases hb
    unfold Counts at h ⊢
    rw [hf]
    omega
  deeper depth _ hd _ := by
    rw [hx]
    exact ⟨depth, hf ▸ hd, hc depth⟩

theorem answer (a : α) : MovesAt i i (pure a) s := quiet rfl rfl rfl fun _ => rfl

theorem refuse (e : Error) : MovesAt i j (throw e : Step TextWriter α) s where
  layout := rfl
  count _ _ _ _ hx := by cases hx
  deeper depth _ hd _ := ⟨depth, hd, rfl⟩

theorem congr (h : MovesAt i j y s) (hs : x s = y s) (hc : ∀ depth, x (s.recount depth) = y (s.recount depth)) :
    MovesAt i j x s where
  layout := by rw [hs, h.layout]
  count base hb a t hx := h.count base hb a t (hs ▸ hx)
  deeper depth hl hd hrun := by
    rw [hs] at hrun ⊢
    rw [hc]
    exact h.deeper depth hl hd hrun

theorem bind (hx : MovesAt i j x s) (hf : ∀ a t, x s = (.ok a, t) → MovesAt j k (f a) t) : MovesAt i k (x >>= f) s := by
  have hlayout := hx.layout
  have hdeeper := hx.deeper
  rcases hs : x s with ⟨e | a, t⟩ <;> rw [hs] at hlayout hdeeper
  · refine ⟨?_, fun base _ b u hb => ?_, fun depth hl hd hrun => ?_⟩
    · rw [Step.bind_of_error hs, hlayout]
    · rw [Step.bind_of_error hs] at hb
      cases hb
    · rw [Step.bind_of_error hs] at hrun ⊢
      obtain ⟨depth', hle, hsame⟩ := hdeeper depth hl hd (hrun.imp_right fun hne he => hne (by cases he; rfl))
      exact ⟨depth', hle, Step.bind_of_error hsame⟩
  · have ha := hf a t hs
    refine ⟨?_, fun base hb b u hu => ?_, fun depth hl hd hrun => ?_⟩
    · rw [Step.bind_of_ok hs, ha.layout, hlayout]
    · rw [Step.bind_of_ok hs] at hu
      exact ha.count base (hx.count base hb a t hs) b u hu
    · rw [Step.bind_of_ok hs] at hrun ⊢
      obtain ⟨depth', hle, hsame⟩ := hdeeper depth hl hd (.inr nofun)
      rw [Step.bind_of_ok hsame]
      exact ha.deeper depth' (hlayout ▸ hl) hle (hrun.imp_left hlayout.trans)

theorem look {g : TextWriter → Step TextWriter α} (h : MovesAt i j (g s) s) (hg : ∀ depth, g (s.recount depth) = g s) :
    MovesAt i j (get >>= g) s :=
  h.congr rfl fun depth => congrFun (hg depth) _

end MovesAt

/-- A step that also leaves the frames alone. -/
structure WritesAt (i j : Int) (x : Step TextWriter α) (s : TextWriter) : Prop extends MovesAt i j x s where
  frames : (x s).2.frames = s.frames

def Writes (i j : Int) (x : Step TextWriter α) : Prop := ∀ s, WritesAt i j x s

section
variable {x : Step TextWriter α} {f : α → Step TextWriter β} {s : TextWriter} {i j k : Int}

theorem WritesAt.bind (hx : WritesAt i j x s) (hf : ∀ a t, x s = (.ok a, t) → WritesAt j k (f a) t) :
    WritesAt i k (x >>= f) s := by
  refine ⟨hx.toMovesAt.bind fun a t ht => (hf a t ht).toMovesAt, ?_⟩
  have hframes := hx.frames
  rcases hs : x s with ⟨e | a, t⟩ <;> rw [hs] at hframes
  · rw [Step.bind_of_error hs, hframes]
  · rw [Step.bind_of_ok hs, (hf a t hs).frames, hframes]

theorem WritesAt.look {g : TextWriter → Step TextWriter α} (hg : ∀ depth, g (s.recount depth) = g s)
    (h : WritesAt i j (g s) s) : WritesAt i j (get >>= g) s := ⟨h.toMovesAt.look hg, h.frames⟩

theorem Writes.answer (a : α) : Writes i i (pure a) := fun _ => ⟨.answer a, rfl⟩

theorem Writes.bind (hx : Writes i j x) (hf : ∀ a, Writes j k (f a)) : Writes i k (x >>= f) :=
  fun s => (hx s).bind fun a t _ => hf a t

end

/-! ## Writing -/

section
variable {i : Int}

theorem put_of_ok {part : Part} {piece : List Char} {s : TextWriter} {out : Buffer}
    (h : s.out.append (Text.utf8 (String.ofList piece)) = .ok out) : put part piece s = (.ok (), { s with out }) := by
  simp only [put, Step.update, h]

theorem put_of_error {part : Part} {piece : List Char} {s : TextWriter} {e : Error}
    (h : s.out.append (Text.utf8 (String.ofList piece)) = .error e) :
    put part piece s = (.error (part.failure e), s) := by
  simp only [put, Step.update, h]

theorem put_writes (part : Part) (piece : List Char) : Writes i i (put part piece) := by
  intro s
  cases h : s.out.append (Text.utf8 (String.ofList piece)) with
  | ok out =>
    refine ⟨.quiet (put_of_ok h) rfl rfl fun depth => put_of_ok (s := s.recount depth) h, ?_⟩
    rw [put_of_ok h]
  | error e =>
    refine ⟨(MovesAt.refuse _).congr (put_of_error h) fun depth => put_of_error (s := s.recount depth) h, ?_⟩
    rw [put_of_error h]

theorem putCopies_writes (piece : List Char) (count : Nat) : Writes i i (putCopies piece count) := by
  induction count with
  | zero => exact .answer ()
  | succ count ih => exact (put_writes .mark piece).bind fun _ => ih

theorem putScalar_writes (v : Json) : Writes i i (putScalar v) := by
  unfold putScalar
  induction v.scalarPieces with
  | nil => exact .answer ()
  | cons piece rest ih => exact (put_writes .scalar piece).bind fun _ => ih

theorem objectBegun_writes : Writes i (i + 1) (reformat .objectBegun) := by
  refine fun s => ⟨⟨rfl, fun base h a t ht => ?_, fun depth _ hd _ => ⟨depth + 1, Nat.succ_le_succ hd, rfl⟩⟩, rfl⟩
  cases ht
  unfold Counts at h ⊢
  simp only [Format.objectBegun]
  omega

/-- What is counted as begun is there to be ended when the count is above the frames. -/
theorem countEnded_writes (hi : 0 ≤ i) : Writes (i + 1) i countEnded := by
  intro s
  rcases s.format.objectEnded?_cases with ⟨hlines, hzero, hnone⟩ | ⟨hsome, hended⟩
  · have hrun := countEnded_of_none hnone
    refine ⟨⟨?_, fun base _ a t ht => ?_, fun depth _ _ hgoes => ?_⟩, ?_⟩
    · rw [hrun]
    · rw [hrun] at ht
      cases ht
    · rw [hrun] at hgoes
      exact absurd rfl (hgoes.resolve_left hlines)
    · rw [hrun]
  · have hrun := countEnded_of_some hended
    refine ⟨⟨?_, fun base h a t ht => ?_, fun depth _ hd _ => ?_⟩, ?_⟩
    · rw [hrun]
    · rw [hrun] at ht
      cases ht
      unfold Counts at h ⊢
      dsimp only
      omega
    · have hmore : (s.recount depth).format.objectEnded? = some { s.format with depth := depth - 1 } := by
        rcases (s.recount depth).format.objectEnded?_cases with ⟨hlines, hzero, -⟩ | ⟨-, hended⟩
        · have hzero : depth = 0 := hzero
          have hpos := hsome.resolve_left hlines
          omega
        · exact hended
      rw [hrun]
      exact ⟨depth - 1, Nat.sub_le_sub_right hd 1, countEnded_of_some hmore⟩
    · rw [hrun]

theorem endField_writes : Writes i i endField := by
  refine fun s => ⟨⟨rfl, fun base h a t ht => ?_, fun depth _ hd _ => ⟨depth, hd, rfl⟩⟩, rfl⟩
  cases ht
  exact h

/-- A buffer that has taken bytes has room for none. -/
theorem append_nothing {b b' : Buffer} {data : List UInt8} (h : b.append data = .ok b') : b'.append [] = .ok b' := by
  cases b with
  | measuring count =>
    cases h
    rfl
  | growable content =>
    cases h
    simp [Buffer.append, Buffer.grow, pure, Except.pure]
  | fixed capacity content =>
    by_cases hroom : capacity < content.length + data.length
    · simp [Buffer.append, Buffer.grow, hroom] at h
    · simp only [Buffer.append, Buffer.grow, hroom, ite_false, pure, Except.pure, Except.ok.injEq] at h
      subst h
      simp [Buffer.append, Buffer.grow, hroom, pure, Except.pure]

theorem putCopies_nothing {s : TextWriter} (h : s.out.append [] = .ok s.out) (count : Nat) :
    putCopies [] count s = (.ok (), s) := by
  induction count with
  | zero => rfl
  | succ count ih =>
    have hput : put .mark [] s = (.ok (), s) := put_of_ok h
    rw [putCopies, Step.bind_of_ok hput, ih]

theorem putIndented_nothing (mark : List Char) : putIndented mark [] = put .mark mark := by
  funext s
  unfold putIndented
  cases h : s.out.append (Text.utf8 (String.ofList mark)) with
  | error e => rw [Step.bind_of_error (put_of_error h), put_of_error h]
  | ok out =>
    rw [Step.bind_of_ok (put_of_ok h), put_of_ok h]
    exact putCopies_nothing (append_nothing h) _

theorem putIndented_writes (mark : List Char) {unit : List Char} {s : TextWriter}
    (h : s.format.layout = .indented unit) : WritesAt i i (putIndented mark unit) s := by
  by_cases hu : unit = []
  · rw [hu, putIndented_nothing]
    exact put_writes .mark mark s
  · refine (put_writes .mark mark s).bind fun _ t ht => ?_
    have hlayout := (put_writes (i := i) .mark mark s).layout
    have hcopies := putCopies_writes (i := i) unit t.format.depth t
    rw [ht, h] at hlayout
    refine ⟨⟨hcopies.layout, hcopies.count, fun depth hflat => ?_⟩, hcopies.frames⟩
    rw [hlayout] at hflat
    exact absurd hflat hu

theorem beginObject_writes : Writes i (i + 1) beginObject := objectBegun_writes.bind fun _ => put_writes .mark _

theorem endObject_writes (hi : 0 ≤ i) : Writes (i + 1) i endObject := by
  refine (countEnded_writes hi).bind fun _ s => ?_
  have hclosed : Writes i i (put .mark ['\x7d']) := put_writes .mark _
  obtain ⟨⟨l, depth, hasField⟩, out, frames, n⟩ := s
  cases hasField with
  | false => cases l <;> exact .look (fun _ => rfl) (((Writes.answer ()).bind fun _ => hclosed) _)
  | true => cases l with
    | compact => exact .look (fun _ => rfl) (((Writes.answer ()).bind fun _ => hclosed) _)
    | indented unit => exact .look (fun _ => rfl) ((putIndented_writes ['\n'] rfl).bind fun _ t _ => hclosed t)

theorem beginField_writes (first : Bool) (key : String) : Writes i i (beginField first key) := by
  have hkey (mark : List Char) : Writes i i (do putScalar (.string key); put .mark mark) :=
    (putScalar_writes (.string key)).bind fun _ => put_writes .mark mark
  intro s
  obtain ⟨⟨l, depth, hasField⟩, out, frames, n⟩ := s
  cases l with
  | compact => cases first with
    | true => exact .look (fun _ => rfl) (hkey [':'] _)
    | false => exact .look (fun _ => rfl) ((put_writes .mark [',']).bind (fun _ => hkey [':']) _)
  | indented unit => exact .look (fun _ => rfl) ((putIndented_writes _ rfl).bind fun _ t _ => hkey [':', ' '] t)

end

mutual

theorem putValue_writes : ∀ (v : Json) {i : Int}, 0 ≤ i → Writes i i (putValue v)
  | .object fields, i, hi => by
    rw [putValue]
    refine beginObject_writes.bind fun _ => ?_
    exact (putFields_writes true fields (Int.add_nonneg hi (by decide))).bind fun _ => endObject_writes hi
  | .null, _, _ => putScalar_writes .null
  | .bool b, _, _ => putScalar_writes (.bool b)
  | .int v, _, _ => putScalar_writes (.int v)
  | .double v, _, _ => putScalar_writes (.double v)
  | .string v, _, _ => putScalar_writes (.string v)

theorem putFields_writes (first : Bool) : ∀ (fields : List (String × Json)) {i : Int}, 0 ≤ i →
    Writes i i (putFields first fields)
  | [], _, _ => .answer ()
  | (key, v) :: rest, _, hi => by
    rw [putFields]
    refine (beginField_writes first key).bind fun _ => ?_
    refine (putValue_writes v hi).bind fun _ => ?_
    exact endField_writes.bind fun _ => putFields_writes false rest hi

end

/-! ## Frames -/

section
variable {s : TextWriter} {keys : List String} {frame inner : Frame} {outer : List Frame} {status : Section} {i j : Int}

theorem addKey_moves (key : String) (keys : List String) (s : TextWriter) : MovesAt i i (addKey key keys) s := by
  unfold addKey
  split
  · exact .refuse _
  · exact .answer _

theorem eq_of_addKey {key : String} {more : List String} {t : TextWriter} (h : addKey key keys s = (.ok more, t)) :
    t = s := by
  unfold addKey at h
  split at h <;> cases h
  rfl

theorem setTop_moves (h : s.frames = inner :: outer) (hn : inner.objects + i = frame.objects + j) :
    MovesAt i j (setTop frame) s := by
  refine .quiet (t := { s with frames := frame :: s.frames.tail }) rfl rfl ?_ fun _ => rfl
  simp only [h, List.tail_cons, Frame.objectsOf]
  omega

/-- The objects of the frame that is taken off are above those that are left. -/
theorem pop_moves (s : TextWriter) : MovesAt 0 (s.frames.head?.elim 0 Frame.objects : Nat) pop? s := by
  refine .quiet (t := { s with frames := s.frames.tail }) rfl rfl ?_ fun _ => rfl
  cases s.frames with
  | nil => rfl
  | cons frame outer =>
    simp only [Frame.objectsOf, List.head?_cons, Option.elim_some, List.tail_cons]
    omega

/-! ## Requests -/

theorem claim_moves (c : Claim) (s : TextWriter) : MovesAt 0 0 (claim c) s := by
  refine .look ?_ fun _ => rfl
  split
  · rename_i keys outer hf
    refine .bind (addKey_moves _ _ s) fun more t hmore => ?_
    obtain rfl := eq_of_addKey hmore
    refine .bind (setTop_moves hf rfl) fun _ t _ => ?_
    refine ((beginField_writes _ _).bind (fun _ => ?_) t).toMovesAt
    exact (putValue_writes _ (Int.le_refl 0)).bind fun _ => endField_writes
  · exact .refuse _

theorem startSection_moves (s : TextWriter) : MovesAt 0 0 startSection s := by
  obtain ⟨f, out, frames, n⟩ := s
  have hrefused : MovesAt 0 0 (throw (.structural .sectionStartedTwice) : Step TextWriter Unit) ⟨f, out, frames, n⟩ :=
    .refuse _
  cases frames with
  | nil => exact hrefused.congr rfl fun _ => rfl
  | cons inner outer => cases inner with
    | sect keys begun => exact hrefused.congr rfl fun _ => rfl
    | token keys status => cases status with
      | pending =>
        refine .quiet rfl rfl ?_ fun _ => rfl
        simp [Frame.objectsOf, Frame.objects]
      | running => exact hrefused.congr rfl fun _ => rfl
      | ended => exact hrefused.congr rfl fun _ => rfl

theorem ended_moves {x : Step TextWriter Unit} (hx : ∀ t, MovesAt 0 0 x t) (begun : Bool) (s : TextWriter) :
    MovesAt begun.toNat 0 (if begun then (do endObject; endField; x) else x) s := by
  cases begun with
  | false => exact hx s
  | true =>
    refine (endObject_writes (Int.le_refl 0) s).toMovesAt.bind fun _ t _ => ?_
    exact (endField_writes t).toMovesAt.bind fun _ u _ => hx u

theorem endSection_moves (s : TextWriter) : MovesAt 0 0 endSection s := by
  refine .bind (pop_moves s) fun frame t h => ?_
  cases h
  split
  · rename_i keys begun hf
    rw [hf]
    refine ended_moves (fun t => .look ?_ fun _ => rfl) begun _
    split
    · rename_i hf
      exact setTop_moves hf rfl
    · exact .refuse _
  · exact .refuse _

theorem beginEntries_of_fresh {s : TextWriter} (h : s.frames = inner :: .token keys status :: outer)
    (hk : entriesKey ∉ keys) : beginEntries s = (do beginField keys.isEmpty entriesKey; beginObject)
      { s with frames := inner :: .token (entriesKey :: keys) status :: outer } := by
  obtain ⟨f, out, frames, n⟩ := s
  cases h
  unfold beginEntries
  rw [Step.bind_of_ok (Step.get_apply _)]
  show (addKey entriesKey keys >>= _) _ = _
  rw [Step.bind_of_ok (addKey_fresh hk _)]
  rfl

theorem beginEntries_of_repeated {s : TextWriter} (h : s.frames = inner :: .token keys status :: outer)
    (hk : entriesKey ∈ keys) : beginEntries s = (.error (.structural (.repeatedKey entriesKey)), s) := by
  obtain ⟨f, out, frames, n⟩ := s
  cases h
  unfold beginEntries
  rw [Step.bind_of_ok (Step.get_apply _)]
  show (addKey entriesKey keys >>= _) _ = _
  rw [Step.bind_of_error (addKey_repeated hk _)]

theorem beginEntries_writes (first : Bool) : Writes i (i + 1) (do beginField first entriesKey; beginObject) :=
  (beginField_writes first entriesKey).bind fun _ => beginObject_writes

theorem beginEntries_moves (s : TextWriter) : MovesAt i (i + 1) beginEntries s := by
  obtain ⟨f, out, frames, n⟩ := s
  have hrefused : MovesAt i (i + 1) (throw (.structural .unnestedSection) : Step TextWriter Unit)
      ⟨f, out, frames, n⟩ := .refuse _
  cases frames with
  | nil => exact hrefused.congr rfl fun _ => rfl
  | cons inner around => cases around with
    | nil => exact hrefused.congr rfl fun _ => rfl
    | cons frame outer => cases frame with
      | sect keys begun => exact hrefused.congr rfl fun _ => rfl
      | token keys status =>
        by_cases hk : entriesKey ∈ keys
        · have hrepeated : MovesAt i (i + 1) (throw (.structural (.repeatedKey entriesKey)) : Step TextWriter Unit)
              ⟨f, out, inner :: .token keys status :: outer, n⟩ := .refuse _
          exact hrepeated.congr (beginEntries_of_repeated rfl hk) fun _ => beginEntries_of_repeated rfl hk
        · have hfresh := beginEntries_writes (i := i) keys.isEmpty
            ⟨f, out, inner :: .token (entriesKey :: keys) status :: outer, n⟩
          refine ⟨?_, fun base h a t ht => ?_, fun depth hl hd hrun => ?_⟩
          · rw [beginEntries_of_fresh rfl hk]
            exact hfresh.layout
          · rw [beginEntries_of_fresh rfl hk] at ht
            exact hfresh.count base h a t ht
          · rw [beginEntries_of_fresh rfl hk] at hrun ⊢
            rw [beginEntries_of_fresh rfl hk]
            exact hfresh.deeper depth hl hd hrun

theorem head_beginEntries {s t : TextWriter} (h : beginEntries s = (.ok (), t)) :
    t.frames.head? = s.frames.head? := by
  obtain ⟨f, out, frames, n⟩ := s
  cases frames with
  | nil => cases h
  | cons inner around => cases around with
    | nil => cases h
    | cons frame outer => cases frame with
      | sect keys begun => cases h
      | token keys status =>
        by_cases hk : entriesKey ∈ keys
        · rw [beginEntries_of_repeated rfl hk] at h
          cases h
        · have hframes := (beginEntries_writes (i := 0) keys.isEmpty
            ⟨f, out, inner :: .token (entriesKey :: keys) status :: outer, n⟩).frames
          rw [beginEntries_of_fresh rfl hk] at h
          rw [h] at hframes
          rw [hframes]
          rfl

theorem beginEntry_moves (name : String) (s : TextWriter) : MovesAt 0 0 (beginEntry name) s := by
  refine .look ?_ fun _ => rfl
  split
  · rename_i keys begun outer hf
    have hentry (t : TextWriter) (outer : List Frame) (ht : t.frames = .sect keys true :: outer) :
        MovesAt 0 0 (do setTop (.sect (← addKey name keys) true); beginField keys.isEmpty name) t := by
      refine .bind (addKey_moves name keys t) fun more u hmore => ?_
      obtain rfl := eq_of_addKey hmore
      refine .bind (setTop_moves ht rfl) fun _ v _ => ?_
      exact (beginField_writes keys.isEmpty name v).toMovesAt
    have hset (t : TextWriter) (h : setTop (.sect keys true) s = (.ok (), t)) :
        t.frames = .sect keys true :: outer := by
      cases h
      show Frame.sect keys true :: s.frames.tail = _
      rw [hf]
      rfl
    cases begun with
    | true =>
      refine .bind (setTop_moves hf rfl) fun _ t ht => ?_
      exact hentry t outer (hset t ht)
    | false =>
      -- the section counts as begun before its object is
      refine .bind (setTop_moves (j := -1) hf rfl) fun _ t ht => ?_
      refine .bind (beginEntries_moves t) fun _ u hu => ?_
      have hhead := head_beginEntries hu
      rw [hset t ht] at hhead
      obtain ⟨outer', hu'⟩ := List.head?_eq_some_iff.mp hhead
      exact hentry u outer' hu'
  · exact .refuse _

theorem openSubmodule_moves (name : String) (s : TextWriter) : MovesAt 0 0 (openSubmodule name) s := by
  refine .bind (beginEntry_moves name s) fun _ t _ => ?_
  refine .bind (beginObject_writes t).toMovesAt fun _ u _ => ?_
  refine .bind (j := 0) (.quiet rfl rfl ?_ fun _ => rfl) fun _ v _ => ?_
  · simp only [Frame.objectsOf, Frame.objects]
    omega
  · exact .look (.answer _) fun _ => rfl

theorem closeSubmodule_moves (handle : Nat) (s : TextWriter) : MovesAt 0 0 (closeSubmodule handle) s := by
  refine .look ?_ fun _ => rfl
  split
  · exact .bind (j := 0) (.refuse _) fun _ _ h => by cases h
  · refine .bind (pop_moves s) fun frame t h => ?_
    cases h
    split
    · rename_i keys status hf
      rw [hf]
      split
      · exact .bind (j := 0) (.refuse _) fun _ _ h => by cases h
      · refine .bind (endObject_writes (Int.le_refl 0) _).toMovesAt fun _ t _ => ?_
        refine .bind (endField_writes t).toMovesAt fun _ u _ => ?_
        exact .quiet rfl rfl rfl fun _ => rfl
    · exact .refuse _

theorem token_moves (t : NestedToken) (s : TextWriter) : MovesAt 0 0 (token t) s := by
  refine .bind (beginEntry_moves t.name s) fun _ u _ => ?_
  refine .bind (putValue_writes _ (Int.le_refl 0) u).toMovesAt fun _ v _ => ?_
  exact (endField_writes v).toMovesAt

end

end TextWriter

end ClaimRelay.Json
