import ClaimRelay.Proofs.Buffer
import ClaimRelay.Proofs.Json.Keys
import ClaimRelay.Proofs.Json.Notices
import ClaimRelay.Proofs.Step

/-!
# Objects ended and begun

A format that is told of more ends than beginnings would have to count below zero, and the program stops. Each frame
stands for an object that is still to end, and most calls keep to that wherever they fail. The exception is the first
entry of a section: from there on the section counts as begun, although its key has to be written first. If there is no
room for the key, no object is begun, and the end of the section ends one all the same. With every section that is cut
off so one more object may end than has begun, and never more.
-/

namespace ClaimRelay.Json

/-! ## Frames -/

/-- The objects that are to end for a frame. -/
def Frame.due : Frame → Nat
  | token .. => 1
  | sect _ begun => begun.toNat

def Frame.allDue : List Frame → Nat
  | [] => 0
  | frame :: outer => frame.due + allDue outer

/-- Whether the entries of a section that is not begun have a token to go into, in which their key is free. -/
def Frame.Apt : List Frame → Prop
  | [] => True
  | .token keys status :: outer => (status = .pending → entriesKey ∉ keys) ∧ Apt outer
  | .sect _ begun :: outer =>
    (begun = false → ∃ keys further, outer = .token keys .running :: further ∧ entriesKey ∉ keys) ∧ Apt outer

/-- Frames for which no more than `n` objects are to end. -/
structure Frame.Owing (n : Nat) (frames : List Frame) : Prop where
  apt : Apt frames
  due : allDue frames ≤ n

/-- What is to end for the frame on top is not to end for the others. -/
theorem Frame.Owing.off {n : Nat} {frame : Frame} {outer : List Frame} (h : Owing n (frame :: outer)) :
    ∃ m, n = m + frame.due ∧ Owing m outer := by
  have hdue : frame.due + allDue outer ≤ n := h.due
  have hapt : Apt outer := by
    cases frame with
    | token keys status => exact h.apt.2
    | sect keys begun => exact h.apt.2
  exact ⟨n - frame.due, by omega, hapt, by omega⟩

/-- The frames that are left of some as in `F` when the one on top has been taken off, if there was one. -/
def Frame.Popped (F : List Frame → Prop) : Option Frame → List Frame → Prop
  | none, outer => F outer
  | some frame, outer => F (frame :: outer)

theorem Frame.Popped.owing {n : Nat} {top : Option Frame} {outer : List Frame} (h : Popped (Owing n) top outer) :
    Owing n outer := by
  cases top with
  | none => exact h
  | some frame =>
    obtain ⟨m, hm, hapt, hdue⟩ := h.off
    exact ⟨hapt, by omega⟩

/-- Frames with a section on top that counts as begun. -/
structure Frame.Entered (n : Nat) (frames : List Frame) : Prop extends Owing n frames where
  top : ∃ keys outer, frames = .sect keys true :: outer

/-- The same, where the key of the entries is still to come. -/
structure Frame.Entering (n : Nat) (frames : List Frame) : Prop extends Owing n frames where
  top : ∃ keys inner further, frames = .sect keys true :: .token inner .running :: further ∧ entriesKey ∉ inner

namespace TextWriter

variable {α β : Type}

/-! ## Steps between notices -/

/-- Whether `t` has the layout, the count and the capacity of `s`. -/
structure Still (s t : TextWriter) : Prop where
  layout : t.format.layout = s.format.layout
  depth : t.format.depth = s.format.depth
  capacity : t.out.capacity? = s.out.capacity?

theorem Still.refl (s : TextWriter) : Still s s := ⟨rfl, rfl, rfl⟩

/-- What becomes of frames as in `F` by a step that leaves the count alone, with an output of capacity `c`: `G` if it
answers, `E` if it fails, in which the program does not stop. -/
def Turns (c : Option Nat) (x : Step TextWriter α) (F : List Frame → Prop) (G : α → List Frame → Prop)
    (E : List Frame → Prop) : Prop :=
  ∀ s, s.out.capacity? = c → F s.frames →
    x.Yields s (fun a t => Still s t ∧ G a t.frames) fun e t => e ≠ .halted ∧ Still s t ∧ E t.frames

/-- A step that leaves the frames alone, and fails only for want of room. -/
def Quiet (x : Step TextWriter α) : Prop :=
  ∀ c F, Turns c x F (fun _ => F) fun frames => c ≠ none ∧ F frames

section
variable {c : Option Nat} {x : Step TextWriter α} {f : α → Step TextWriter β} {F E E' : List Frame → Prop}
variable {G : α → List Frame → Prop} {H : β → List Frame → Prop}

theorem Turns.bind (hx : Turns c x F G E) (hf : ∀ a, Turns c (f a) (G a) H E) : Turns c (x >>= f) F H E := by
  intro s hc hF
  refine (hx s hc hF).bind fun a t ⟨ht, hG⟩ => ?_
  have hrest := hf a t (ht.capacity.trans hc) hG
  have htrans {u : TextWriter} (hu : Still t u) : Still s u :=
    ⟨hu.layout.trans ht.layout, hu.depth.trans ht.depth, hu.capacity.trans ht.capacity⟩
  exact hrest.imp (fun _ _ h => ⟨htrans h.1, h.2⟩) fun _ _ h => ⟨h.1, htrans h.2.1, h.2.2⟩

theorem Turns.answer {a : α} (h : ∀ frames, F frames → G a frames) : Turns c (pure a) F G E :=
  fun s _ hF => .answer ⟨.refl s, h _ hF⟩

theorem Turns.refuse {misuse : Misuse} (h : ∀ frames, F frames → E frames) :
    Turns c (throw (.structural misuse) : Step TextWriter α) F G E :=
  fun s _ hF => .refuse ⟨nofun, .refl s, h _ hF⟩

theorem Turns.mono {G' : α → List Frame → Prop} (hx : Turns c x F G E) (hG : ∀ a frames, G a frames → G' a frames)
    (hE : ∀ frames, E frames → E' frames) : Turns c x F G' E' :=
  fun s hc hF => (hx s hc hF).imp (fun _ _ h => ⟨h.1, hG _ _ h.2⟩) fun _ _ h => ⟨h.1, h.2.1, hE _ h.2.2⟩

/-- Looking at the frames. -/
theorem Turns.look {g : TextWriter → Step TextWriter α} (h : ∀ s, F s.frames → Turns c (g s) (· = s.frames) G E) :
    Turns c (get >>= g) F G E :=
  fun s hc hF => .look (h s hF s hc rfl)

/-- Looking at anything else. -/
theorem Turns.peek {g : TextWriter → Step TextWriter α} (h : ∀ s, Turns c (g s) F G E) : Turns c (get >>= g) F G E :=
  fun s hc hF => .look (h s s hc hF)

theorem Quiet.turns (hx : Quiet x) : Turns c x F (fun _ => F) F :=
  (hx c F).mono (fun _ _ => id) fun _ => And.right

theorem Quiet.answer (a : α) : Quiet (pure a) := fun _ _ => .answer fun _ => id

theorem Quiet.bind (hx : Quiet x) (hf : ∀ a, Quiet (f a)) : Quiet (x >>= f) :=
  fun c F => (hx c F).bind fun a => hf a c F

theorem Quiet.look {g : TextWriter → Step TextWriter α} (h : ∀ s, Quiet (g s)) : Quiet (get >>= g) :=
  fun c F s hc hF => .look (h s c F s hc hF)

end

theorem put_quiet (part : Part) (piece : List Char) : Quiet (put part piece) := by
  intro c F s hc hF
  by_cases hfit : (s.out.plus (Text.utf8 (String.ofList piece))).Fits
  · have hput : put part piece s = (.ok (), { s with out := s.out.plus (Text.utf8 (String.ofList piece)) }) := by
      simp only [put, Step.update, Buffer.append_of_fits hfit]
    exact .of_ok hput ⟨⟨rfl, rfl, Buffer.capacity_plus ..⟩, hF⟩
  · obtain ⟨e, he, hover⟩ := Buffer.append_of_not_fits hfit
    have hput : put part piece s = (.error (part.failure e), s) := by
      simp only [put, Step.update, he]
    obtain ⟨_, capacity, -, hcapacity, -⟩ := hover
    refine .of_error hput ⟨part.failure_ne_halted e, .refl s, ?_, hF⟩
    rw [← hc, hcapacity]
    exact Option.some_ne_none _

theorem putCopies_quiet (piece : List Char) (count : Nat) : Quiet (putCopies piece count) := by
  induction count with
  | zero => exact .answer ()
  | succ count ih => exact (put_quiet .mark piece).bind fun _ => ih

theorem putScalar_quiet (v : Json) : Quiet (putScalar v) := by
  unfold putScalar
  induction v.scalarPieces with
  | nil => exact .answer ()
  | cons piece rest ih => exact (put_quiet .scalar piece).bind fun _ => ih

theorem putIndented_quiet (mark unit : List Char) : Quiet (putIndented mark unit) :=
  (put_quiet .mark mark).bind fun _ => .look fun s => putCopies_quiet unit s.format.depth

theorem beginField_quiet (first : Bool) (key : String) : Quiet (beginField first key) := by
  have hkey (mark : List Char) : Quiet (do putScalar (.string key); put .mark mark) :=
    (putScalar_quiet (.string key)).bind fun _ => put_quiet .mark mark
  refine .look fun s => ?_
  split
  · cases first with
    | true => exact hkey [':']
    | false => exact (put_quiet .mark [',']).bind fun _ => hkey [':']
  · exact (putIndented_quiet _ _).bind fun _ => hkey [':', ' ']

theorem endField_quiet : Quiet endField := fun _ _ _ _ hF => .of_ok rfl ⟨⟨rfl, rfl, rfl⟩, hF⟩

/-- The rest of an object that has ended, once that is counted. -/
def putEnd : Step TextWriter Unit := do
  match (← get).format with
  | ⟨.indented unit, _, true⟩ => putIndented ['\n'] unit
  | _ => pure ()
  put .mark ['\x7d']

theorem putEnd_quiet : Quiet putEnd := by
  refine .look fun s => ?_
  split
  · exact (putIndented_quiet _ _).bind fun _ => put_quiet _ _
  · exact (Quiet.answer ()).bind fun _ => put_quiet _ _

/-! ## What becomes of the frames -/

section
variable {c : Option Nat} {n : Nat} {F G E : List Frame → Prop}

theorem setTop_turns {frame : Frame}
    (h : ∀ frames, F frames → ∃ inner outer, frames = inner :: outer ∧ G (frame :: outer)) :
    Turns c (setTop frame) F (fun _ => G) E := by
  intro s _ hF
  obtain ⟨inner, outer, hf, hG⟩ := h s.frames hF
  refine .of_ok rfl ⟨⟨rfl, rfl, rfl⟩, ?_⟩
  show G (frame :: s.frames.tail)
  rw [hf]
  exact hG

theorem addKey_turns (key : String) (keys : List String) (hE : ∀ frames, F frames → key ∈ keys → E frames) :
    Turns c (addKey key keys) F (fun more frames => (key ∉ keys ∧ more = key :: keys) ∧ F frames) E := by
  unfold addKey
  split
  · exact .refuse fun frames hF => hE frames hF ‹_›
  · exact .answer fun _ hF => ⟨⟨‹_›, rfl⟩, hF⟩

theorem putClaimKey_turns (claim : Claim) :
    Turns c (putClaimKey claim) (Frame.Owing n) (fun _ => Frame.Owing n) (Frame.Owing n) := by
  refine .look fun s hs => ?_
  split
  · rename_i keys outer hf
    rw [hf] at hs ⊢
    refine .bind (addKey_turns _ keys fun _ h _ => h ▸ hs) fun more => ?_
    refine .bind (setTop_turns (G := Frame.Owing n) ?_) fun _ => (beginField_quiet _ _).turns
    rintro _ ⟨⟨-, rfl⟩, rfl⟩
    obtain ⟨⟨hfree, hapt⟩, hdue⟩ := hs
    have hkey : entriesKey ∉ claim.key :: keys := by
      intro h
      rcases List.mem_cons.mp h with h | h
      · exact claim.key_ne_entriesKey h.symm
      · exact hfree rfl h
    exact ⟨_, _, rfl, ⟨fun _ => hkey, hapt⟩, hdue⟩
  · exact .refuse fun _ h => h ▸ hs

theorem startSection_turns : Turns c startSection (Frame.Owing n) (fun _ => Frame.Owing n) (Frame.Owing n) := by
  intro s _ hs
  refine .look ?_
  split
  · rename_i keys outer hf
    obtain ⟨⟨hfree, hapt⟩, hdue⟩ := hf ▸ hs
    refine .of_ok rfl ⟨⟨rfl, rfl, rfl⟩, ⟨fun _ => ⟨keys, outer, rfl, hfree rfl⟩, nofun, hapt⟩, ?_⟩
    simpa [Frame.allDue, Frame.due] using hdue
  · exact .refuse ⟨nofun, .refl s, hs⟩

theorem pop_turns : Turns c pop? F (Frame.Popped F) E := by
  intro s _ hF
  obtain ⟨format, out, frames, m⟩ := s
  refine .of_ok rfl ⟨⟨rfl, rfl, rfl⟩, ?_⟩
  cases frames with
  | nil => exact hF
  | cons frame outer => exact hF

/-- A section that is begun has one object that ends with it. -/
theorem popSection_turns : Turns c popSection (Frame.Owing n)
    (fun begun frames => ∃ m, n = m + begun.toNat ∧ Frame.Owing m frames) (Frame.Owing n) := by
  refine .bind pop_turns fun top => ?_
  split
  · exact .answer fun _ h => h.off
  · exact .refuse fun _ => Frame.Popped.owing

theorem settleSection_turns : Turns c settleSection (Frame.Owing n) (fun _ => Frame.Owing n) (Frame.Owing n) := by
  refine .look fun s hs => ?_
  split
  · rename_i keys outer hf
    rw [hf] at hs ⊢
    refine setTop_turns ?_
    rintro _ rfl
    exact ⟨_, _, rfl, ⟨nofun, hs.apt.2⟩, hs.due⟩
  · exact .refuse fun _ h => h ▸ hs

theorem popSubmodule_turns (handle : Nat) : Turns c (popSubmodule handle) (Frame.Owing n)
    (fun _ frames => ∃ m, n = m + 1 ∧ Frame.Owing m frames) (Frame.Owing n) := by
  refine .peek fun s => ?_
  split
  · exact .bind (.refuse (G := fun _ _ => False) fun _ => id) fun _ _ _ => False.elim
  · refine .bind pop_turns fun top => ?_
    split
    · split
      · exact .refuse fun _ => Frame.Popped.owing
      · exact .answer fun _ h => h.off
    · exact .refuse fun _ => Frame.Popped.owing

theorem popLast_turns : Turns c popLast (Frame.Owing n)
    (fun _ frames => ∃ m, n = m + 1 ∧ Frame.Owing m frames) (Frame.Owing n) := by
  intro s hc hs
  refine .look ?_
  split
  · rename_i keys status hf
    split
    · exact .refuse_bind ⟨nofun, .refl s, hs⟩
    · exact .of_ok rfl ⟨⟨rfl, rfl, rfl⟩, (hf ▸ hs).off⟩
  · exact .refuse ⟨nofun, .refl s, hs⟩

theorem pushSubmodule_turns : Turns c pushSubmodule (Frame.Owing n) (fun _ => Frame.Owing (n + 1)) E := by
  intro s _ hs
  refine .of_ok rfl ⟨⟨rfl, rfl, rfl⟩, ⟨fun _ => List.not_mem_nil, hs.apt⟩, ?_⟩
  show 1 + Frame.allDue s.frames ≤ n + 1
  have := hs.due
  omega

theorem countClosed_turns : Turns c countClosed F (fun _ => F) E := fun _ _ hF =>
  .of_ok rfl ⟨⟨rfl, rfl, rfl⟩, hF⟩

/-! ## Entries -/

/-- From the first entry on a section counts as begun. -/
theorem enterSection_turns (name : String) {frames : List Frame} (h : Frame.Owing n frames) :
    Turns c (enterSection name) (· = frames) (fun p after => (∃ outer, frames = .sect p.1 p.2 :: outer) ∧
      if p.2 then Frame.Entered n after else Frame.Entering (n + 1) after) (Frame.Owing n) := by
  refine .look fun s hs => ?_
  split
  · rename_i keys begun outer hf
    obtain rfl := hs.symm.trans hf
    rw [hf]
    refine .bind (setTop_turns (G := (· = .sect keys true :: outer)) ?_) fun _ => .answer ?_
    · rintro _ rfl
      exact ⟨_, _, rfl, rfl⟩
    · rintro _ rfl
      obtain ⟨⟨hfree, hapt⟩, hdue⟩ := h
      refine ⟨⟨outer, rfl⟩, ?_⟩
      cases begun with
      | true => exact ⟨⟨⟨nofun, hapt⟩, hdue⟩, keys, outer, rfl⟩
      | false =>
        obtain ⟨inner, further, rfl, hkey⟩ := hfree rfl
        have hdue : 0 + Frame.allDue (.token inner .running :: further) ≤ n := hdue
        have hmore : 1 + Frame.allDue (.token inner .running :: further) ≤ n + 1 := by omega
        exact ⟨⟨⟨nofun, hapt⟩, hmore⟩, keys, inner, further, rfl, hkey⟩
  · exact .refuse fun _ ht => by rwa [ht, hs]

theorem putEntriesKey_of_fresh {s : TextWriter} {inner : Frame} {keys : List String} {status : Section}
    {outer : List Frame} (h : s.frames = inner :: .token keys status :: outer) (hk : entriesKey ∉ keys) :
    putEntriesKey s = beginField keys.isEmpty entriesKey
      { s with frames := inner :: .token (entriesKey :: keys) status :: outer } := by
  have hadd (t : TextWriter) : addKey entriesKey keys t = (.ok (entriesKey :: keys), t) := by
    unfold addKey
    rw [if_neg hk]
    rfl
  obtain ⟨format, out, frames, m⟩ := s
  cases h
  unfold putEntriesKey
  rw [Step.bind_of_ok (Step.get_apply _)]
  show (addKey entriesKey keys >>= _) _ = _
  rw [Step.bind_of_ok (hadd _)]
  rfl

/-- If the key cannot be put, then for want of room. -/
theorem putEntriesKey_turns : Turns c putEntriesKey (Frame.Entering n) (fun _ => Frame.Entered n)
    fun frames => c ≠ none ∧ Frame.Entered n frames := by
  intro s hc hs
  obtain ⟨keys, inner, further, hf, hk⟩ := hs.top
  obtain ⟨hapt, hdue⟩ := hf ▸ hs.toOwing
  have hkeyed : Frame.Entered n (.sect keys true :: .token (entriesKey :: inner) .running :: further) :=
    ⟨⟨⟨nofun, nofun, hapt.2.2⟩, hdue⟩, keys, _, rfl⟩
  have hput := beginField_quiet inner.isEmpty entriesKey c (Frame.Entered n)
    { s with frames := .sect keys true :: .token (entriesKey :: inner) .running :: further } hc hkeyed
  refine .congr (putEntriesKey_of_fresh hf hk) ?_
  have hstill {t : TextWriter} (h : Still { s with
      frames := .sect keys true :: .token (entriesKey :: inner) .running :: further } t) : Still s t :=
    ⟨h.layout, h.depth, h.capacity⟩
  exact hput.imp (fun _ _ h => ⟨hstill h.1, h.2⟩) fun _ _ h => ⟨h.1, hstill h.2.1, h.2.2⟩

theorem putEntryKey_turns (name : String) (keys : List String) :
    Turns c (putEntryKey name keys) (Frame.Entered n) (fun _ => Frame.Owing n) (Frame.Owing n) := by
  refine .bind (addKey_turns name keys fun _ h _ => h.toOwing) fun more => ?_
  refine .bind (setTop_turns (G := Frame.Owing n) ?_) fun _ => (beginField_quiet _ _).turns
  rintro _ ⟨-, howing, keys, outer, rfl⟩
  exact ⟨_, outer, rfl, ⟨nofun, howing.apt.2⟩, howing.due⟩

end

end TextWriter

/-! ## Credit -/

/-- Whether `n` more objects may end. At no time had more ended than had begun, but for `k`. -/
structure Credit (k n : Nat) (notices : List Notice) : Prop where
  ever (front : List Notice) (h : front <+: notices) : front.count .ended ≤ front.count .begun + k
  left : notices.count .ended + n ≤ notices.count .begun + k

theorem Notice.count_concat (notice other : Notice) (notices : List Notice) :
    (notices ++ [notice]).count other = notices.count other + if notice = other then 1 else 0 := by
  cases notice <;> cases other <;> simp

namespace Credit

variable {k n : Nat} {notices : List Notice}

theorem nil : Credit 0 0 [] where
  ever front h := by
    rw [List.prefix_nil.mp h]
    exact Nat.le_refl 0
  left := Nat.le_refl 0

theorem concat {notice : Notice} {m : Nat} (h : Credit k n notices)
    (hleft : (notices ++ [notice]).count .ended + m ≤ (notices ++ [notice]).count .begun + k) :
    Credit k m (notices ++ [notice]) := by
  refine ⟨fun front hfront => ?_, hleft⟩
  rcases List.prefix_concat_iff.mp hfront with rfl | hfront
  · exact Nat.le_trans (Nat.le_add_right ..) hleft
  · exact h.ever front hfront

theorem begun (h : Credit k n notices) : Credit k (n + 1) (notices ++ [.begun]) := by
  refine h.concat ?_
  have := h.left
  simp only [Notice.count_concat, reduceCtorEq, ite_true, ite_false]
  omega

theorem ended (h : Credit k (n + 1) notices) : Credit k n (notices ++ [.ended]) := by
  refine h.concat ?_
  have := h.left
  simp only [Notice.count_concat, reduceCtorEq, ite_true, ite_false]
  omega

/-- One more may end than before, of which it is then said. -/
theorem overdrawn (h : Credit k n notices) : Credit (k + 1) (n + 1) notices :=
  ⟨fun front hfront => Nat.le_succ_of_le (h.ever front hfront), Nat.succ_le_succ h.left⟩

theorem mono {k' m : Nat} (h : Credit k n notices) (hk : k ≤ k') (hm : m ≤ n) : Credit k' m notices := by
  refine ⟨fun front hfront => ?_, ?_⟩
  · have := h.ever front hfront
    omega
  · have := h.left
    omega

end Credit

namespace NotedWriter

open TextWriter

variable {α : Type} {k n : Nat} {f : Format} {c : Option Nat} {F : List Frame → Prop} {s : NotedWriter}

/-- Whether the count is that of `f` with what the notices say. On one line nobody goes by it. -/
structure Tallied (f : Format) (s : NotedWriter) : Prop where
  layout : s.1.format.layout = f.layout
  count (h : f.layout ≠ .compact) : s.1.format.depth + s.2.count .ended = f.depth + s.2.count .begun

structure Has (k : Nat) (f : Format) (c : Option Nat) (n : Nat) (F : List Frame → Prop) (s : NotedWriter) : Prop extends
    Tallied f s where
  credit : Credit k n s.2
  capacity : s.1.out.capacity? = c
  frames : F s.1.frames

theorem Has.imp {G : List Frame → Prop} (h : Has k f c n F s) (hF : ∀ frames, F frames → G frames) :
    Has k f c n G s := ⟨h.toTallied, h.credit, h.capacity, hF _ h.frames⟩

theorem Has.mono {k' m : Nat} (h : Has k f c n F s) (hk : k ≤ k') (hm : m ≤ n) : Has k' f c m F s :=
  ⟨h.toTallied, h.credit.mono hk hm, h.capacity, h.frames⟩

/-- What is left when the end of one object more is asked for than is counted. -/
structure Overdrawn (k : Nat) (f : Format) (s : NotedWriter) : Prop where
  credit : Credit k 0 s.2
  layout : f.layout ≠ .compact
  count : s.2.count .ended = f.depth + s.2.count .begun + 1

theorem Overdrawn.mono {k' : Nat} (h : Overdrawn k f s) (hk : k ≤ k') : Overdrawn k' f s :=
  ⟨h.credit.mono hk (Nat.le_refl 0), h.layout, h.count⟩

theorem Overdrawn.pos (h : Overdrawn k f s) : 0 < k := by
  have hleft := h.credit.left
  have hcount := h.count
  omega

/-- What a failure with `e` leaves: something as in `P`, unless the program has stopped. -/
inductive Lost (k : Nat) (f : Format) (P : NotedWriter → Prop) : Error → NotedWriter → Prop
  | refused {e : Error} {t : NotedWriter} (he : e ≠ .halted) (h : P t) : Lost k f P e t
  | halted {t : NotedWriter} (h : Overdrawn k f t) : Lost k f P .halted t

theorem Lost.imp {P Q : NotedWriter → Prop} {e : Error} {t : NotedWriter} (h : Lost k f P e t)
    (hPQ : ∀ t, P t → Q t) : Lost k f Q e t := by
  cases h with
  | refused he h => exact .refused he (hPQ _ h)
  | halted h => exact .halted h

theorem onFst_yields {x : Step TextWriter α} {G : α → List Frame → Prop} {E : List Frame → Prop}
    (hx : Turns c x F G E) (h : Has k f c n F s) : Step.Yields (x.onFst : Step NotedWriter α) s
      (fun a t => t.2 = s.2 ∧ Has k f c n (G a) t) fun e t => e ≠ .halted ∧ t.2 = s.2 ∧ Has k f c n E t := by
  have hhas {E : List Frame → Prop} {t : NotedWriter} (hsame : t.2 = s.2) (ht : Still s.1 t.1) (hE : E t.1.frames) :
      Has k f c n E t := by
    refine ⟨⟨ht.layout.trans h.layout, fun hl => ?_⟩, hsame ▸ h.credit, ht.capacity.trans h.capacity, hE⟩
    rw [hsame, ht.depth]
    exact h.count hl
  have hs := (hx s.1 h.capacity h.frames).onFst (u := s.2)
  refine hs.imp (fun _ _ ht => ⟨ht.1, hhas ht.1 ht.2.1 ht.2.2⟩) fun _ _ ht => ?_
  exact ⟨ht.2.1, ht.1, hhas ht.1 ht.2.2.1 ht.2.2.2⟩

/-- The same, where it does not matter that there is no notice. -/
theorem turned {x : Step TextWriter α} {G : α → List Frame → Prop} {E : List Frame → Prop} (hx : Turns c x F G E)
    (h : Has k f c n F s) : Step.Yields (x.onFst : Step NotedWriter α) s (fun a => Has k f c n (G a))
      (Lost k f (Has k f c n E)) :=
  (onFst_yields hx h).imp (fun _ _ => And.right) fun _ _ ht => .refused ht.1 ht.2.2

theorem noteBegun_yields (h : Has k f c n F s) :
    noteBegun.Yields s (fun _ => Has k f c (n + 1) F) fun e t => e ≠ .halted ∧ Has k f c (n + 1) F t := by
  have hbegun : Has k f c (n + 1) F ({ s.1 with format := s.1.format.objectBegun }, s.2 ++ [.begun]) := by
    refine ⟨⟨h.layout, fun hl => ?_⟩, h.credit.begun, h.capacity, h.frames⟩
    have hcount := h.count hl
    simp only [Format.objectBegun, Notice.count_concat, reduceCtorEq, ite_true, ite_false]
    omega
  have hput := onFst_yields (put_quiet .mark ['\x7b']).turns hbegun
  have hrun : noteBegun s = (put .mark ['\x7b']).onFst
      ({ s.1 with format := s.1.format.objectBegun }, s.2 ++ [.begun]) := rfl
  refine .congr hrun ?_
  exact hput.imp (fun _ _ => And.right) fun _ _ ht => ⟨ht.1, ht.2.2⟩

/-- One object fewer is to end, unless there is none that is counted as begun. -/
theorem noteEnded_yields (h : Has k f c (n + 1) F s) :
    noteEnded.Yields s (fun _ => Has k f c n F) (Lost k f (Has k f c n F)) := by
  obtain ⟨writer, notices⟩ := s
  have hcount := h.count
  rcases writer.format.objectEnded?_cases with ⟨hlines, hzero, hnone⟩ | ⟨hsome, hended⟩
  · have hrun : noteEnded (writer, notices) = (.error .halted, (writer, notices ++ [.ended])) := by
      show (Step.onFst endObject) (writer, notices ++ [.ended]) = _
      simp only [Step.onFst, endObject, Step.bind_of_error (countEnded_of_none hnone)]
    have hl : f.layout ≠ .compact := h.layout ▸ hlines
    refine .of_error hrun (.halted ⟨h.credit.ended.mono (Nat.le_refl k) (Nat.zero_le n), hl, ?_⟩)
    have hcount := hcount hl
    simp only [hzero, Notice.count_concat, reduceCtorEq, ite_true, ite_false] at hcount ⊢
    omega
  · let counted : TextWriter := { writer with format := { writer.format with depth := writer.format.depth - 1 } }
    have hrun : noteEnded (writer, notices) = putEnd.onFst (counted, notices ++ [.ended]) := by
      show (Step.onFst endObject) (writer, notices ++ [.ended]) = _
      simp only [Step.onFst, endObject, Step.bind_of_ok (countEnded_of_some hended)]
      rfl
    have hhas : Has k f c n F (counted, notices ++ [.ended]) := by
      refine ⟨⟨h.layout, fun hl => ?_⟩, h.credit.ended, h.capacity, h.frames⟩
      have hcount := hcount hl
      have hpos : 0 < writer.format.depth := hsome.resolve_left fun hcompact => hl (h.layout ▸ hcompact)
      simp only [counted, Notice.count_concat, reduceCtorEq, ite_true, ite_false] at hcount ⊢
      omega
    exact .congr hrun (turned putEnd_quiet.turns hhas)

/-! ## Requests -/

/-- A step that leaves all as it is but for the notices, which come out even. -/
def Even (x : Step NotedWriter α) : Prop :=
  ∀ ⦃k n f c F s⦄, Has k f c n F s → x.Yields s (fun _ => Has k f c n F) (Lost k f (Has k f c n F))

theorem even_onFst {x : Step TextWriter α} (hx : Quiet x) : Even x.onFst := fun _ _ _ _ _ _ => turned hx.turns

theorem Even.bind {β : Type} {x : Step NotedWriter α} {f : α → Step NotedWriter β} (hx : Even x)
    (hf : ∀ a, Even (f a)) : Even (x >>= f) := fun _ _ _ _ _ _ h => (hx h).bind fun a _ ht => hf a ht

mutual

theorem noteValue_even : ∀ v : Json, Even (noteValue v)
  | .object fields => by
    intro k n f c F s h
    rw [noteValue]
    have hless (t : NotedWriter) (ht : Has k f c (n + 1) F t) : Has k f c n F t :=
      ht.mono (Nat.le_refl k) (Nat.le_succ n)
    refine ((noteBegun_yields h).mono_error fun _ t ht => .refused ht.1 (hless t ht.2)).bind fun _ t ht => ?_
    refine ((noteFields_even true fields ht).mono_error fun _ _ hu => hu.imp hless).bind fun _ u hu => ?_
    exact noteEnded_yields hu
  | .null => even_onFst (putScalar_quiet .null)
  | .bool b => even_onFst (putScalar_quiet (.bool b))
  | .int v => even_onFst (putScalar_quiet (.int v))
  | .double v => even_onFst (putScalar_quiet (.double v))
  | .string v => even_onFst (putScalar_quiet (.string v))

theorem noteFields_even (first : Bool) : ∀ fields : List (String × Json), Even (noteFields first fields)
  | [] => by
    rw [noteFields]
    exact fun _ _ _ _ _ _ h => .answer h
  | (key, v) :: rest => by
    rw [noteFields]
    refine (even_onFst (beginField_quiet first key)).bind fun _ => (noteValue_even v).bind fun _ => ?_
    exact (even_onFst endField_quiet).bind fun _ => noteFields_even false rest

end

/-- Whether the credit covers the frames. -/
def Sound (k : Nat) (f : Format) (c : Option Nat) (s : NotedWriter) : Prop := ∃ n, Has k f c n (Frame.Owing n) s

theorem Sound.even {x : Step NotedWriter α} (h : Sound k f c s) (hx : Even x) :
    x.Yields s (fun _ => Sound k f c) (Lost k f (Sound k f c)) := by
  obtain ⟨n, h⟩ := h
  exact (hx h).imp (fun _ _ ht => ⟨n, ht⟩) fun _ _ ht => ht.imp fun _ ht => ⟨n, ht⟩

theorem Sound.turned {x : Step TextWriter α} (h : Sound k f c s)
    (hx : ∀ n, Turns c x (Frame.Owing n) (fun _ => Frame.Owing n) (Frame.Owing n)) :
    Step.Yields (x.onFst : Step NotedWriter α) s (fun _ => Sound k f c) (Lost k f (Sound k f c)) := by
  obtain ⟨n, h⟩ := h
  exact (NotedWriter.turned (hx n) h).imp (fun _ _ ht => ⟨n, ht⟩) fun _ _ ht => ht.imp fun _ ht => ⟨n, ht⟩

/-- An object that ends for a frame that is off already. -/
theorem noteEnded_sound (h : Has k f c n (fun frames => ∃ m, n = m + 1 ∧ Frame.Owing m frames) s) :
    noteEnded.Yields s (fun _ => Sound k f c) (Lost k f (Sound k f c)) := by
  obtain ⟨m, rfl, howing⟩ := h.frames
  have hended := noteEnded_yields ⟨h.toTallied, h.credit, h.capacity, howing⟩
  exact hended.imp (fun _ _ ht => ⟨m, ht⟩) fun _ _ ht => ht.imp fun _ ht => ⟨m, ht⟩

/-- Whether a section counts as begun after a call and did not before, while no object has begun. -/
def cutOff (s t : NotedWriter) : Bool :=
  match s.1.frames, t.1.frames with
  | .sect _ false :: _, .sect _ true :: _ => t.2 = s.2
  | _, _ => false

/-- How a call may leave the writer: with the frames covered, or with a section that is cut off for want of room. -/
def Left (k : Nat) (f : Format) (c : Option Nat) (s t : NotedWriter) : Prop :=
  Sound k f c t ∨ c ≠ none ∧ cutOff s t = true ∧ Sound (k + 1) f c t

theorem noteEntry_yields (name : String) (h : Sound k f c s) :
    (noteEntry name).Yields s (fun _ => Sound k f c) (Lost k f (Left k f c s)) := by
  obtain ⟨n, h⟩ := h
  have hinto : Has k f c n (· = s.1.frames) s := ⟨h.toTallied, h.credit, h.capacity, rfl⟩
  have henter := onFst_yields (enterSection_turns name h.frames) hinto
  refine (henter.mono_error fun _ t ht => .refused ht.1 (.inl ⟨n, ht.2.2⟩)).bind fun (keys, begun) t ⟨hsame, ht⟩ => ?_
  have hkey {m : Nat} {u : NotedWriter} (hu : Has k f c m (Frame.Entered m) u) :
      Step.Yields (putEntryKey name keys).onFst u (fun _ => Sound k f c) (Lost k f (Left k f c s)) :=
    (turned (putEntryKey_turns name keys) hu).imp (fun _ _ hv => ⟨m, hv⟩) fun _ _ hv => hv.imp fun _ hv => .inl ⟨m, hv⟩
  obtain ⟨outer, hf⟩ := ht.frames.1
  cases begun with
  | true => exact hkey (ht.imp fun _ => And.right)
  | false =>
    have hput := onFst_yields putEntriesKey_turns (ht.imp fun _ => And.right)
    -- without the key there is one more to end than there is credit for, and no notice since `s`
    have hcut {u : NotedWriter}
        (hu : u.2 = t.2 ∧ Has k f c n (fun frames => c ≠ none ∧ Frame.Entered (n + 1) frames) u) : Left k f c s u := by
      obtain ⟨hnotices, hhas⟩ := hu
      obtain ⟨hroom, howing, keys', outer', hf'⟩ := hhas.frames
      refine .inr ⟨hroom, ?_, n + 1, hhas.toTallied, hhas.credit.overdrawn, hhas.capacity, howing⟩
      unfold cutOff
      rw [hf, hf']
      exact decide_eq_true (hnotices.trans hsame)
    refine (hput.mono_error fun _ _ hu => .refused hu.1 (hcut hu.2)).bind fun _ u hu => ?_
    have hsound {v : NotedWriter} (hv : Has k f c (n + 1) (Frame.Entered (n + 1)) v) : Left k f c s v :=
      .inl ⟨n + 1, hv.imp fun _ => Frame.Entered.toOwing⟩
    refine ((noteBegun_yields hu.2).mono_error fun _ _ hv => .refused hv.1 (hsound hv.2)).bind fun _ v hv => ?_
    exact hkey hv

theorem endField_sound (h : Sound k f c s) :
    Step.Yields (endField.onFst : Step NotedWriter Unit) s (fun _ => Sound k f c) (Lost k f (Sound k f c)) :=
  h.even (even_onFst endField_quiet)

theorem noteField_sound (v : Json) (h : Sound k f c s) :
    Step.Yields (do noteValue v; endField.onFst) s (fun _ => Sound k f c) (Lost k f (Sound k f c)) :=
  (h.even (noteValue_even v)).bind fun _ _ => endField_sound

/-- Where frames that some credit covers are what a step leaves. -/
theorem lost_sound {e : Error} {t : NotedWriter} (h : Lost k f (Has k f c n (Frame.Owing n)) e t) :
    Lost k f (Sound k f c) e t := h.imp fun _ ht => ⟨n, ht⟩

theorem endSection_sound (h : Sound k f c s) :
    renderer.endSection.Yields s (fun _ => Sound k f c) (Lost k f (Sound k f c)) := by
  obtain ⟨n, h⟩ := h
  refine ((turned popSection_turns h).mono_error fun _ _ => lost_sound).bind fun begun t ht => ?_
  cases begun with
  | true =>
    refine (noteEnded_sound ht).bind fun _ u hu => (endField_sound hu).bind fun _ v hv => ?_
    exact hv.turned fun _ => settleSection_turns
  | false =>
    obtain ⟨m, rfl, howing⟩ := ht.frames
    exact Sound.turned ⟨n, ht.toTallied, ht.credit, ht.capacity, howing⟩ fun _ => settleSection_turns

theorem openSubmodule_yields (name : String) (h : Sound k f c s) :
    (renderer.openSubmodule name).Yields s (fun _ => Sound k f c) (Lost k f (Left k f c s)) := by
  refine (noteEntry_yields name h).bind fun _ t ⟨n, ht⟩ => ?_
  have hless {u : NotedWriter} (hu : Has k f c (n + 1) (Frame.Owing n) u) : Left k f c s u :=
    .inl ⟨n, hu.mono (Nat.le_refl k) (Nat.le_succ n)⟩
  refine ((noteBegun_yields ht).mono_error fun _ _ hu => .refused hu.1 (hless hu.2)).bind fun _ u hu => ?_
  have hpush := turned (E := fun _ => False) pushSubmodule_turns hu
  exact hpush.imp (fun _ _ hv => ⟨n + 1, hv⟩) fun _ _ hv => hv.imp fun _ hv => hv.frames.elim

theorem closeSubmodule_sound (handle : Nat) (h : Sound k f c s) :
    (renderer.closeSubmodule handle).Yields s (fun _ => Sound k f c) (Lost k f (Sound k f c)) := by
  obtain ⟨n, h⟩ := h
  refine ((turned (popSubmodule_turns handle) h).mono_error fun _ _ => lost_sound).bind fun _ t ht => ?_
  refine (noteEnded_sound ht).bind fun _ u hu => (endField_sound hu).bind fun _ v hv => ?_
  exact hv.turned fun _ => countClosed_turns

theorem answer_yields (r : Writer.Request) (h : Sound k f c s) :
    (renderer.answer r).Yields s (fun _ => Sound k f c) (Lost k f (Left k f c s)) := by
  have hquiet {x : Step NotedWriter Unit} (hx : x.Yields s (fun _ => Sound k f c) (Lost k f (Sound k f c))) :
      Step.Yields (do x; return (none : Option Nat)) s (fun _ => Sound k f c) (Lost k f (Left k f c s)) :=
    (hx.mono_error fun _ _ ht => ht.imp fun _ => .inl).bind fun _ _ ht => .answer ht
  cases r with
  | claim claim =>
    exact hquiet ((h.turned fun _ => putClaimKey_turns claim).bind fun _ _ => noteField_sound (.ofValue claim.value))
  | startSection => exact hquiet (h.turned fun _ => startSection_turns)
  | endSection => exact hquiet (endSection_sound h)
  | openSubmodule name => exact (openSubmodule_yields name h).bind fun _ _ ht => .answer ht
  | closeSubmodule handle => exact hquiet (closeSubmodule_sound handle h)
  | token nested =>
    refine Step.Yields.bind ((noteEntry_yields nested.name h).bind fun _ t ht => ?_) fun _ _ ht => .answer ht
    exact (noteField_sound _ ht).mono_error fun _ _ hu => hu.imp fun _ => .inl

/-! ## Calls -/

theorem Sound.mono {k' : Nat} (h : Sound k f c s) (hk : k ≤ k') : Sound k' f c s := by
  obtain ⟨n, h⟩ := h
  exact ⟨n, h.mono hk (Nat.le_refl n)⟩

/-- What a call comes to: it leaves the writer as in `P`, or the program stops in it. -/
inductive Leaves (k : Nat) (f : Format) (P : NotedWriter → Prop) : Renderer.Outcome × NotedWriter → Prop
  | running {p : Renderer.Outcome × NotedWriter} (hp : p.1.halts = false) (h : P p.2) : Leaves k f P p
  | stopped {p : Renderer.Outcome × NotedWriter} (hp : p.1.halts = true) (h : Overdrawn k f p.2) : Leaves k f P p

theorem halts_refused {e : Error} (he : e ≠ .halted) (out : Buffer) :
    Renderer.Outcome.halts ⟨.error e, out⟩ = false := by
  cases h : Renderer.Outcome.halts ⟨.error e, out⟩ with
  | false => rfl
  | true => exact absurd (Except.error.inj (Renderer.Outcome.halts_iff.mp h)) he

theorem Lost.leaves {P : NotedWriter → Prop} {e : Error} {t : NotedWriter} (h : Lost k f P e t) (out : Buffer) :
    Leaves k f P (⟨.error e, out⟩, t) := by
  cases h with
  | refused he h => exact .running (halts_refused he out) h
  | halted h => exact .stopped rfl h

/-- A start does not ask for frames that are covered, for it forgets them. -/
theorem start_leaves (out : Buffer) (hs : Tallied f s) (h : Credit k n s.2) :
    Leaves k f (Sound k f out.capacity?) (renderer.perform outlet (.start out) s) := by
  have hfresh : Has k f out.capacity? n (· = [.token [] .pending])
      ({ s.1 with out, frames := [.token [] .pending], submodules := 0 }, s.2) := ⟨⟨hs.layout, hs.count⟩, h, rfl, rfl⟩
  have howing : Frame.Owing (n + 1) [.token [] .pending] :=
    ⟨⟨fun _ => List.not_mem_nil, trivial⟩, Nat.le_add_left 1 n⟩
  have hsound {t : NotedWriter} (ht : Has k f out.capacity? (n + 1) (· = [.token [] .pending]) t) :
      Sound k f out.capacity? t := ⟨n + 1, ht.imp fun _ hframes => hframes ▸ howing⟩
  have hrun : renderer.start out s =
      noteBegun ({ s.1 with out, frames := [.token [] .pending], submodules := 0 }, s.2) := rfl
  have hbegun := Step.Yields.congr hrun (noteBegun_yields hfresh)
  have hp : renderer.perform outlet (.start out) s = (⟨(renderer.start out s).1.map fun _ => none,
      outlet.out (renderer.start out s).2⟩, (renderer.start out s).2) := rfl
  rw [hp]
  rcases ha : renderer.start out s with ⟨e | _, t⟩
  · obtain ⟨he, ht⟩ := hbegun.fails e t ha
    exact .running (halts_refused he _) (hsound ht)
  · exact .running rfl (hsound (hbegun.answers () t ha))

/-- What a call may do, by what becomes of the output. -/
theorem perform_leaves (call : Renderer.Call) (h : Sound k f c s) :
    Leaves k f (fun t => (∃ out, call = .start out ∧ Sound k f out.capacity? t) ∨ Sound k f none t ∨ Left k f c s t)
      (renderer.perform outlet call s) := by
  cases call with
  | start out =>
    obtain ⟨n, hhas⟩ := h
    cases start_leaves out hhas.toTallied hhas.credit with
    | running hp ht => exact .running hp (.inl ⟨out, rfl, ht⟩)
    | stopped hp ht => exact .stopped hp ht
  | request r =>
    have hr := answer_yields r h
    simp only [Renderer.perform]
    rcases ha : renderer.answer r s with ⟨e | a, t⟩
    · exact ((hr.fails e t ha).imp fun _ ht => .inr (.inr ht)).leaves _
    · exact .running rfl (.inr (.inr (.inl (hr.answers a t ha))))
  | finish =>
    obtain ⟨n, hhas⟩ := h
    have hdone : renderer.finish.Yields s (fun _ => Sound k f none) (Lost k f (Sound k f c)) := by
      refine ((turned popLast_turns hhas).mono_error fun _ _ => lost_sound).bind fun _ t ht => ?_
      refine (noteEnded_sound ht).bind fun _ u hu => ?_
      obtain ⟨m, hu⟩ := hu
      exact .of_ok rfl ⟨m, ⟨hu.layout, hu.count⟩, hu.credit, rfl, hu.frames⟩
    have hp : renderer.perform outlet .finish s =
        (.ofFinish (outlet.out (renderer.finish s).2) (renderer.finish s).1, (renderer.finish s).2) := rfl
    rw [hp]
    rcases ha : renderer.finish s with ⟨e | out, t⟩
    · exact ((hdone.fails e t ha).imp fun _ ht => .inr (.inr (.inl ht))).leaves _
    · exact .running rfl (.inr (.inl (hdone.answers out t ha)))

/-! ## Histories -/

/-- The sections that calls cut off. -/
def cuts : List Renderer.Call → NotedWriter → Nat
  | [], _ => 0
  | call :: rest, s =>
    let p := renderer.perform outlet call s
    (cutOff s p.2).toNat + if p.1.halts then 0 else cuts rest p.2

theorem perform_sound (call : Renderer.Call) (h : Sound k f c s) :
    Leaves k f (fun t => ∃ c, Sound (k + (cutOff s t).toNat) f c t) (renderer.perform outlet call s) := by
  cases perform_leaves call h with
  | stopped hp ht => exact .stopped hp ht
  | running hp ht =>
    refine .running hp ?_
    rcases ht with ⟨out, -, ht⟩ | ht | ht | ⟨-, hcut, ht⟩
    · exact ⟨_, ht.mono (Nat.le_add_right ..)⟩
    · exact ⟨_, ht.mono (Nat.le_add_right ..)⟩
    · exact ⟨_, ht.mono (Nat.le_add_right ..)⟩
    · rw [hcut]
      exact ⟨_, ht⟩

/-- What calls come to: the program has stopped in one of them, or goes on. -/
inductive Runs (k : Nat) (f : Format) : List Renderer.Outcome × NotedWriter → Prop
  | running {run : List Renderer.Outcome × NotedWriter} {c : Option Nat} (hrun : ∀ x ∈ run.1, x.halts = false)
    (h : Sound k f c run.2) : Runs k f run
  | stopped {run : List Renderer.Outcome × NotedWriter} (hrun : ∃ x ∈ run.1, x.halts = true)
    (h : Overdrawn k f run.2) : Runs k f run

theorem Runs.cons {x : Renderer.Outcome} {run : List Renderer.Outcome × NotedWriter} (h : Runs k f run)
    (hx : x.halts = false) : Runs k f (x :: run.1, run.2) := by
  cases h with
  | running hrun h => exact .running (List.forall_mem_cons.mpr ⟨hx, hrun⟩) h
  | stopped hrun h =>
    obtain ⟨y, hy, hstop⟩ := hrun
    exact .stopped ⟨y, .tail _ hy, hstop⟩ h

theorem Runs.credit {run : List Renderer.Outcome × NotedWriter} (h : Runs k f run) : Credit k 0 run.2.2 := by
  cases h with
  | running hrun h =>
    obtain ⟨n, h⟩ := h
    exact h.credit.mono (Nat.le_refl k) (Nat.zero_le n)
  | stopped hrun h => exact h.credit

theorem outcomes_sound (calls : List Renderer.Call) (h : Sound k f c s) :
    Runs (k + cuts calls s) f (renderer.outcomes outlet calls s) := by
  induction calls generalizing k c s with
  | nil => exact .running (List.forall_mem_nil _) h
  | cons call rest ih =>
    rw [Renderer.outcomes_cons, cuts]
    cases perform_sound call h with
    | stopped hp ht =>
      rw [Renderer.further_of_halts hp]
      exact .stopped ⟨_, .head _, hp⟩ (ht.mono (Nat.le_add_right ..))
    | running hp ht =>
      obtain ⟨c, ht⟩ := ht
      rw [Renderer.further_of_not_halts hp, hp, if_neg Bool.false_ne_true, ← Nat.add_assoc]
      exact (ih ht).cons hp

/-- With room for everything no section is cut off, and the program does not stop. -/
theorem outcomes_roomy {calls : List Renderer.Call} (hroom : ∀ out, .start out ∈ calls → out.capacity? = none)
    (h : Sound 0 f none s) : Runs 0 f (renderer.outcomes outlet calls s) := by
  induction calls generalizing s with
  | nil => exact .running (List.forall_mem_nil _) h
  | cons call rest ih =>
    obtain ⟨hfirst, hrest⟩ : (∀ out, .start out = call → out.capacity? = none) ∧ _ :=
      ⟨fun out ho => hroom out (ho ▸ .head _), fun out ho => hroom out (.tail _ ho)⟩
    rw [Renderer.outcomes_cons]
    cases perform_leaves call h with
    | stopped hp ht => exact absurd ht.pos (Nat.lt_irrefl 0)
    | running hp ht =>
      rw [Renderer.further_of_not_halts hp]
      refine (ih hrest ?_).cons hp
      rcases ht with ⟨out, rfl, ht⟩ | ht | ht | ⟨hbounded, -⟩
      · rwa [hfirst out rfl] at ht
      · exact ht
      · exact ht
      · exact absurd rfl hbounded

/-- What is told of objects in the course of calls on a writer that has been in state `s`. -/
structure Balances (s : TextWriter) (calls : List Renderer.Call) (run : List Renderer.Outcome × NotedWriter) :
    Prop where
  /-- Nothing but the notices is added to what the calls come to. -/
  same : TextWriter.renderer.outcomes TextWriter.outlet calls s = (run.1, run.2.1)
  within (front : List Notice) (h : front <+: run.2.2) :
    front.count .ended ≤ front.count .begun + cuts calls (s, [])
  counted (hl : s.format.layout ≠ .compact) (h : ∀ x ∈ run.1, x.halts = false) :
    run.2.1.format.depth + run.2.2.count .ended = s.format.depth + run.2.2.count .begun
  /-- The program stops when the count of a layout with lines would go below zero, and for nothing else. -/
  stops : (∃ x ∈ run.1, x.halts = true) ↔
    s.format.layout ≠ .compact ∧ s.format.depth + run.2.2.count .begun < run.2.2.count .ended
  roomy (h : ∀ b, .start b ∈ calls → b.capacity? = none) :
    (∀ x ∈ run.1, x.halts = false) ∧ ∀ front, front <+: run.2.2 → front.count .ended ≤ front.count .begun

theorem not_halts_of_not_exists {outcomes : List Renderer.Outcome} (h : ¬∃ x ∈ outcomes, x.halts = true) :
    ∀ x ∈ outcomes, x.halts = false := by
  intro x hx
  cases hstop : x.halts with
  | false => rfl
  | true => exact absurd ⟨x, hx, hstop⟩ h

theorem Runs.counted {run : List Renderer.Outcome × NotedWriter} (h : Runs k f run) (hl : f.layout ≠ .compact)
    (hrun : ∀ x ∈ run.1, x.halts = false) :
    run.2.1.format.depth + run.2.2.count .ended = f.depth + run.2.2.count .begun := by
  cases h with
  | running _ h =>
    obtain ⟨n, h⟩ := h
    exact h.count hl
  | stopped hstop _ =>
    obtain ⟨x, hx, hstop⟩ := hstop
    exact absurd ((hrun x hx).symm.trans hstop) Bool.false_ne_true

theorem Runs.stops {run : List Renderer.Outcome × NotedWriter} (h : Runs k f run) :
    (∃ x ∈ run.1, x.halts = true) ↔ f.layout ≠ .compact ∧ f.depth + run.2.2.count .begun < run.2.2.count .ended := by
  constructor
  · rintro ⟨x, hx, hstop⟩
    cases h with
    | running hrun _ => exact absurd ((hrun x hx).symm.trans hstop) Bool.false_ne_true
    | stopped _ h =>
      refine ⟨h.layout, ?_⟩
      rw [h.count]
      exact Nat.lt_succ_self _
  · rintro ⟨hl, hmore⟩
    apply Classical.byContradiction
    intro hnone
    have hcount := h.counted hl (not_halts_of_not_exists hnone)
    omega

/-- **Objects ended.** Since a start of a writer in any state, on any buffer, with any calls after it. -/
theorem ended_within_begun (s : TextWriter) (out : Buffer) (calls : List Renderer.Call) :
    let started := Renderer.Call.start out :: calls
    Balances s started (renderer.outcomes outlet started (s, [])) := by
  intro started
  have htallied : Tallied s.format (s, []) := ⟨rfl, fun _ => rfl⟩
  obtain ⟨hp, hstart⟩ : (renderer.perform outlet (.start out) (s, [])).1.halts = false ∧
      Sound 0 s.format out.capacity? (renderer.perform outlet (.start out) (s, [])).2 := by
    cases start_leaves out htallied .nil with
    | running hp h => exact ⟨hp, h⟩
    | stopped hp h => exact absurd h.pos (Nat.lt_irrefl 0)
  have hcuts : cuts calls (renderer.perform outlet (.start out) (s, [])).2 ≤ cuts started (s, []) := by
    rw [cuts, hp, if_neg Bool.false_ne_true]
    exact Nat.le_add_left ..
  have hstarted : renderer.outcomes outlet started (s, []) = _ := Renderer.outcomes_cons ..
  rw [Renderer.further_of_not_halts hp] at hstarted
  have hruns := (outcomes_sound calls hstart).cons hp
  rw [← hstarted, Nat.zero_add] at hruns
  refine ⟨outcomes_noted started (s, []), fun front hfront => ?_, hruns.counted, hruns.stops, fun hroom => ?_⟩
  · exact Nat.le_trans (hruns.credit.ever front hfront) (Nat.add_le_add_left hcuts _)
  · rw [hroom out (.head _)] at hstart
    have hroomy := (outcomes_roomy (fun b hb => hroom b (.tail _ hb)) hstart).cons hp
    rw [← hstarted] at hroomy
    refine ⟨not_halts_of_not_exists fun hstop => ?_, hroomy.credit.ever⟩
    have hmore := (hroomy.stops.mp hstop).2
    have hever := hroomy.credit.ever _ List.prefix_rfl
    omega

/-- There is no room for the key of the entries, the section ends all the same, and with it the object of the token. -/
theorem cut_off_ended :
    let calls : List Renderer.Call := [.start (.emptyFixed 11), .request .startSection,
      .request (.openSubmodule "a"), .request .endSection, .finish]
    let run := renderer.outcomes outlet calls (.ofLayout .pretty, [])
    TextWriter.renderer.outcomes TextWriter.outlet calls (.ofLayout .pretty) = (run.1, run.2.1) ∧
    run.1.getLast?.map Renderer.Outcome.halts = some true ∧
    run.2.2 = [.begun, .ended, .ended] ∧ cuts calls (.ofLayout .pretty, []) = 1 ∧
      ¬∀ front, front <+: run.2.2 → front.count .ended ≤ front.count .begun := by
  intro calls
  have hnotices : (renderer.outcomes outlet calls (.ofLayout .pretty, [])).2.2 = [.begun, .ended, .ended] := by
    decide +kernel
  refine ⟨outcomes_noted calls (.ofLayout .pretty, []), by decide +kernel, hnotices, by decide +kernel, fun h => ?_⟩
  have hall := h _ List.prefix_rfl
  rw [hnotices] at hall
  exact absurd hall (by decide)

end NotedWriter

end ClaimRelay.Json
