import ClaimRelay.Proofs.Writer.Modes

/-!
# Edits of buffers

A buffer of any kind stands for one list of bytes: an edit that is taken changes the list as it would change any
other, an edit that is refused does not. What kinds of buffer differ in is only whether they keep the list and how
long it may get.
-/

namespace ClaimRelay.Buffer

inductive Edit
  | append (data : List UInt8)
  | insert (offset : Nat) (data : List UInt8)
  | write (data : List UInt8)

inductive Reply
  | done
  /-- So many bytes are written. -/
  | written (count : Nat)
  | refused (e : Error)
  | broken (e : StreamError)
  deriving DecidableEq

def Reply.isRefusal : Reply → Bool
  | done | written _ => false
  | refused _ | broken _ => true

namespace Edit

def data : Edit → List UInt8
  | append data | insert _ data | write data => data

/-- Where the bytes go when there are `n` already. -/
def place : Edit → Nat → Nat
  | append _, n | write _, n => n
  | insert offset _, _ => offset

/-- What the edit makes of a list. -/
def splice : Edit → List UInt8 → List UInt8
  | append data, content | write data, content => content ++ data
  | insert offset data, content => content.take offset ++ data ++ content.drop offset

def perform : Edit → Buffer → Reply × Buffer
  | append data, b =>
    match b.append data with
    | .ok b => (.done, b)
    | .error e => (.refused e, b)
  | insert offset data, b =>
    match b.insert offset data with
    | .ok b => (.done, b)
    | .error e => (.refused e, b)
  | write data, b =>
    match b.write data with
    | .ok (n, b) => (.written n, b)
    | .error e => (.broken e, b)

/-- How the edit says that it is taken. -/
def taken : Edit → Reply
  | append _ | insert _ _ => .done
  | write data => .written data.length

/-- How the edit passes on an error of the buffer: a write as one of a stream. -/
def refusal : Edit → Error → Reply
  | append _, e | insert _ _, e => .refused e
  | write _, e => .broken ⟨e⟩

/-- What the edit is told when there are `n` bytes already. -/
def answer (e : Edit) (capacity? : Option Nat) (n : Nat) : Reply :=
  if n < e.place n then e.refusal (.structural (.insertPastEnd (e.place n) n))
  else
    match capacity? with
    | some capacity =>
      if capacity < n + e.data.length then e.refusal (.overflow (n + e.data.length) capacity) else e.taken
    | none => e.taken

end Edit

/-- What the edits come to, each made on the buffer that the one before it left, refused or not. -/
def edited : List Edit → Buffer → List Reply × Buffer
  | [], b => ([], b)
  | e :: rest, b =>
    let (r, b) := e.perform b
    let (rs, b) := edited rest b
    (r :: rs, b)

/-- The edits that were taken. -/
def accepted (edits : List Edit) (replies : List Reply) : List Edit :=
  ((edits.zip replies).filter fun p => !p.2.isRefusal).map Prod.fst

/-- The list that edits put together. -/
def spliced (edits : List Edit) : List UInt8 := edits.foldl (fun content e => e.splice content) []

/-! ## One edit -/

section
variable {e : Edit} {b : Buffer} {content : List UInt8}

theorem isRefusal_refusal (e : Edit) (x : Error) : (e.refusal x).isRefusal = true := by
  cases e <;> rfl

theorem isRefusal_taken (e : Edit) : e.taken.isRefusal = false := by
  cases e <;> rfl

/-- All edits are insertions. -/
theorem perform_eq (e : Edit) (b : Buffer) : e.perform b =
    match b.insert (e.place b.size) e.data with
    | .ok c => (e.taken, c)
    | .error x => (e.refusal x, b) := by
  cases e with
  | append data =>
    simp only [Edit.perform, append_eq_insert]
    rfl
  | insert offset data => rfl
  | write data =>
    simp only [Edit.perform, write, append_eq_insert, Edit.place, Edit.data]
    cases b.insert b.size data <;> rfl

theorem perform_of_ok {c : Buffer} (h : b.insert (e.place b.size) e.data = .ok c) : e.perform b = (e.taken, c) := by
  rw [perform_eq, h]

theorem perform_of_error {x : Error} (h : b.insert (e.place b.size) e.data = .error x) :
    e.perform b = (e.refusal x, b) := by
  rw [perform_eq, h]

theorem perform_past (h : b.size < e.place b.size) :
    e.perform b = (e.refusal (.structural (.insertPastEnd (e.place b.size) b.size)), b) :=
  perform_of_error (insert_past h)

theorem perform_answer (e : Edit) (b : Buffer) : (e.perform b).1 = e.answer b.capacity? b.size := by
  unfold Edit.answer
  by_cases hpast : b.size < e.place b.size
  · rw [perform_past hpast, if_pos hpast]
  · rw [if_neg hpast, perform_eq, insert_within (Nat.not_lt.mp hpast)]
    cases b with
    | measuring count => rfl
    | growable content => rfl
    | fixed capacity content =>
      by_cases hfull : capacity < content.length + e.data.length
      · simp only [grow, capacity?, size, hfull, ite_true]
        rfl
      · simp only [grow, capacity?, size, hfull, ite_false]
        rfl

theorem splice_eq (h : e.place content.length ≤ content.length) : e.splice content =
    content.take (e.place content.length) ++ e.data ++ content.drop (e.place content.length) := by
  cases e with
  | insert offset data => rfl
  | append data => simp [Edit.splice, Edit.place, Edit.data]
  | write data => simp [Edit.splice, Edit.place, Edit.data]

theorem length_splice (h : e.place content.length ≤ content.length) :
    (e.splice content).length = content.length + e.data.length := by
  rw [splice_eq h, length_inserted h]

theorem perform_room {mode : Mode} (h : e.place content.length ≤ content.length)
    (hroom : mode.Room (e.splice content).length) :
    e.perform (mode.holding content) = (e.taken, mode.holding (e.splice content)) := by
  rw [length_splice h] at hroom
  apply perform_of_ok
  rw [size_holding, insert_within (by rwa [size_holding]), grow_room mode (length_inserted h) hroom, splice_eq h]

theorem perform_full {capacity : Nat} (h : e.place content.length ≤ content.length)
    (hfull : capacity < (e.splice content).length) : e.perform (.fixed capacity content) =
      (e.refusal (.overflow (e.splice content).length capacity), .fixed capacity content) := by
  rw [length_splice h] at hfull ⊢
  apply perform_of_error
  rw [insert_within h]
  exact if_pos hfull

end

/-! ## Sequences of edits -/

/-- What an edit can come to: it lies past the end, it is taken, or there is no room for it. -/
theorem perform_cases (mode : Mode) (e : Edit) (content : List UInt8) :
    (content.length < e.place content.length ∧ e.perform (mode.holding content) =
      (e.refusal (.structural (.insertPastEnd (e.place content.length) content.length)), mode.holding content)) ∨
    (e.place content.length ≤ content.length ∧ mode.Room (e.splice content).length ∧
      e.perform (mode.holding content) = (e.taken, mode.holding (e.splice content))) ∨
    (e.place content.length ≤ content.length ∧ ¬mode.Room (e.splice content).length ∧
      ∃ x, e.perform (mode.holding content) = (e.refusal x, mode.holding content)) := by
  by_cases h : e.place content.length ≤ content.length
  · by_cases hroom : mode.Room (e.splice content).length
    · exact .inr (.inl ⟨h, hroom, perform_room h hroom⟩)
    · refine .inr (.inr ⟨h, hroom, ?_⟩)
      cases mode with
      | measuring => exact absurd trivial hroom
      | growable => exact absurd trivial hroom
      | fixed capacity => exact ⟨_, perform_full h (Nat.lt_of_not_le hroom)⟩
  · have hpast : (mode.holding content).size < e.place (mode.holding content).size := by
      rw [size_holding]
      exact Nat.lt_of_not_le h
    have hrefused := perform_past hpast
    rw [size_holding] at hrefused
    exact .inl ⟨Nat.lt_of_not_le h, hrefused⟩

/-- The first edit that there is no room for is told what a growing buffer would come to. -/
theorem perform_first_full {capacity : Nat} {e : Edit} {content : List UInt8} (h : content.length ≤ capacity)
    (hfull : capacity < (e.perform (.growable content)).2.size) :
    (e.perform (.fixed capacity content)).1 =
      e.refusal (.overflow (e.perform (.growable content)).2.size capacity) := by
  rcases perform_cases .growable e content with ⟨-, hp⟩ | ⟨hle, -, hp⟩ | ⟨-, hno, -⟩
  · have hp : e.perform (.growable content) = (_, .growable content) := hp
    rw [hp] at hfull
    exact absurd hfull (Nat.not_lt.mpr h)
  · have hp : e.perform (.growable content) = (_, .growable (e.splice content)) := hp
    rw [hp] at hfull ⊢
    rw [perform_full hle hfull]
    rfl
  · exact absurd trivial hno

theorem accepted_cons (e : Edit) (rest : List Edit) (r : Reply) (rs : List Reply) :
    accepted (e :: rest) (r :: rs) = if r.isRefusal then accepted rest rs else e :: accepted rest rs := by
  cases h : r.isRefusal <;> simp [accepted, h]

/-- A buffer holds what the edits that it took put together, and never more than there is room for. -/
theorem edited_holding (mode : Mode) (content : List UInt8) (edits : List Edit) (hroom : mode.Room content.length) :
    let kept := accepted edits (edited edits (mode.holding content)).1
    let made := kept.foldl (fun content e => e.splice content) content
    (edited edits (mode.holding content)).2 = mode.holding made ∧ mode.Room made.length := by
  induction edits generalizing content with
  | nil => exact ⟨rfl, hroom⟩
  | cons e rest ih =>
    have hrefused (x : Error) (h : e.perform (mode.holding content) = (e.refusal x, mode.holding content)) :
        edited (e :: rest) (mode.holding content) = (e.refusal x :: (edited rest (mode.holding content)).1,
          (edited rest (mode.holding content)).2) := by
      rw [edited, h]
    rcases perform_cases mode e content with ⟨-, h⟩ | ⟨-, hmore, h⟩ | ⟨-, -, x, h⟩
    · rw [hrefused _ h]
      simp only [accepted_cons, isRefusal_refusal, ite_true]
      exact ih _ hroom
    · rw [edited, h]
      simp only [accepted_cons, isRefusal_taken, Bool.false_eq_true, ite_false, List.foldl_cons]
      exact ih _ hmore
    · rw [hrefused _ h]
      simp only [accepted_cons, isRefusal_refusal, ite_true]
      exact ih _ hroom

/-- What a growing buffer comes to hold, which is never less than before. -/
theorem edited_growable (edits : List Edit) (content : List UInt8) : ∃ more, content.length ≤ more.length ∧
    (edited edits (.growable content)).2 = .growable more := by
  induction edits generalizing content with
  | nil => exact ⟨content, Nat.le_refl _, rfl⟩
  | cons e rest ih =>
    rcases perform_cases .growable e content with ⟨-, h⟩ | ⟨hle, -, h⟩ | ⟨-, hfull, -⟩
    · obtain ⟨more, hmore, hrest⟩ := ih content
      refine ⟨more, hmore, ?_⟩
      show (edited rest (e.perform (Mode.growable.holding content)).2).2 = _
      rw [h]
      exact hrest
    · obtain ⟨more, hmore, hrest⟩ := ih (e.splice content)
      rw [length_splice hle] at hmore
      refine ⟨more, Nat.le_trans (Nat.le_add_right ..) hmore, ?_⟩
      show (edited rest (e.perform (Mode.growable.holding content)).2).2 = _
      rw [h]
      exact hrest
    · exact absurd trivial hfull

/-- With room for all that a growing buffer comes to hold, every kind of buffer does as it does. -/
theorem edited_mode (mode : Mode) {content more : List UInt8} (edits : List Edit)
    (hmore : (edited edits (.growable content)).2 = .growable more) (hroom : mode.Room more.length) :
    edited edits (mode.holding content) = ((edited edits (.growable content)).1, mode.holding more) := by
  induction edits generalizing content with
  | nil =>
    cases hmore
    rfl
  | cons e rest ih =>
    have hstep : edited (e :: rest) (.growable content) =
        ((e.perform (Mode.growable.holding content)).1 ::
          (edited rest (e.perform (Mode.growable.holding content)).2).1,
          (edited rest (e.perform (Mode.growable.holding content)).2).2) := rfl
    rw [hstep] at hmore ⊢
    rw [edited]
    rcases perform_cases .growable e content with ⟨hpast, h⟩ | ⟨hle, -, h⟩ | ⟨-, hfull, -⟩
    · have hsame : e.perform (mode.holding content) =
          (e.refusal (.structural (.insertPastEnd (e.place content.length) content.length)), mode.holding content) := by
        rcases perform_cases mode e content with ⟨-, h'⟩ | ⟨hle, -⟩ | ⟨hle, -⟩
        · exact h'
        · exact absurd hpast (Nat.not_lt.mpr hle)
        · exact absurd hpast (Nat.not_lt.mpr hle)
      rw [h] at hmore ⊢
      rw [hsame]
      simp only [ih hmore]
      rfl
    · rw [h] at hmore ⊢
      -- what is put in now is still there at the end, so there is room for it
      obtain ⟨most, hmost, hlast⟩ := edited_growable rest (e.splice content)
      obtain rfl : most = more := Buffer.growable.inj (hlast.symm.trans hmore)
      rw [perform_room hle (hroom.mono hmost)]
      simp only [ih hmore]
      rfl
    · exact absurd trivial hfull

end ClaimRelay.Buffer
