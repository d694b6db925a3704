import ClaimRelay.Proofs.Buffer.Edits

/-!
# Sinks and the buffers they stand for

A sink has three parts that could contradict each other. Each call does to the parts what it does to the buffer that
they are the record of, so they never do: what is counted is what is stored, and a capacity is kept to. A refused call
leaves all three as they were, whether they agree or not.
-/

namespace ClaimRelay

open Buffer (Edit Mode Reply)

/-! ## The record of a buffer -/

def Buffer.sink : Buffer → Sink
  | measuring count => { mode := .measuring, len := count }
  | fixed capacity content => { mode := .fixed capacity, bytes := content, len := content.length }
  | growable content => { mode := .growable, bytes := content, len := content.length }

namespace Sink

section
variable (b : Buffer)

@[simp] theorem len_sink : b.sink.len = b.size := by cases b <;> rfl

@[simp] theorem capacity_sink : b.sink.capacity? = b.capacity? := by cases b <;> rfl

@[simp] theorem isMeasuring_sink : b.sink.isMeasuring = b.isMeasuring := by cases b <;> rfl

@[simp] theorem intoBytes_sink : b.sink.intoBytes? = b.bytes? := by cases b <;> rfl

theorem sink_injective {b c : Buffer} (h : b.sink = c.sink) : b = c := by
  cases b <;> cases c <;> cases h <;> rfl

end

/-- Whether the parts agree. -/
structure Sound (s : Sink) : Prop where
  counted (h : s.mode = .measuring) : s.bytes = []
  stored (h : s.mode ≠ .measuring) : s.len = s.bytes.length
  bounded : s.mode.Room s.len

theorem sound_holding {mode : Mode} {content : List UInt8} (h : mode.Room content.length) :
    (mode.holding content).sink.Sound := by
  cases mode with
  | measuring => exact ⟨fun _ => rfl, fun hm => absurd rfl hm, trivial⟩
  | growable => exact ⟨nofun, fun _ => rfl, trivial⟩
  | fixed capacity => exact ⟨nofun, fun _ => rfl, h⟩

theorem Sound.holding {s : Sink} (h : s.Sound) :
    ∃ content, (s.mode.holding content).sink = s ∧ s.mode.Room content.length := by
  obtain ⟨hcounted, hstored, hbounded⟩ := h
  obtain ⟨mode, bytes, len⟩ := s
  cases mode with
  | measuring =>
    obtain rfl : bytes = [] := hcounted rfl
    refine ⟨.replicate len 0, ?_, trivial⟩
    simp only [Mode.holding, Buffer.sink, List.length_replicate]
  | growable =>
    obtain rfl : len = bytes.length := hstored nofun
    exact ⟨bytes, rfl, trivial⟩
  | fixed capacity =>
    obtain rfl : len = bytes.length := hstored nofun
    exact ⟨bytes, rfl, hbounded⟩

/-! ## Calls -/

section
variable {offset : Nat} {data content : List UInt8}

theorem store_within {s : Sink} (h : offset ≤ s.bytes.length) :
    store offset data s = (.ok (), { s with bytes := s.bytes.take offset ++ data ++ s.bytes.drop offset }) := by
  unfold store
  rw [Step.bind_of_ok (Step.get_apply s), if_neg (Nat.not_lt.mpr h)]
  rfl

theorem store_past {s : Sink} (h : s.bytes.length < offset) : store offset data s = (.error .halted, s) := by
  unfold store
  rw [Step.bind_of_ok (Step.get_apply s), if_pos h]
  rfl

theorem insert_past_len {s : Sink} (h : s.len < offset) :
    insert offset data s = (.error (.structural (.insertPastEnd offset s.len)), s) := by
  unfold insert
  rw [Step.bind_of_ok (Step.get_apply s), if_pos h]
  rfl

theorem insert_measuring {bytes : List UInt8} {len : Nat} (h : offset ≤ len) :
    insert offset data ⟨.measuring, bytes, len⟩ = (.ok (), ⟨.measuring, bytes, len + data.length⟩) := by
  unfold insert
  rw [Step.bind_of_ok (Step.get_apply _), if_neg (Nat.not_lt.mpr h)]
  rfl

theorem insert_full {bytes : List UInt8} {len capacity : Nat} (h : offset ≤ len)
    (hfull : capacity < len + data.length) :
    insert offset data ⟨.fixed capacity, bytes, len⟩ =
      (.error (.overflow (len + data.length) capacity), ⟨.fixed capacity, bytes, len⟩) := by
  unfold insert
  rw [Step.bind_of_ok (Step.get_apply _), if_neg (Nat.not_lt.mpr h)]
  show (if capacity < len + data.length then _ else _ : Step Sink Unit) _ = _
  rw [if_pos hfull]
  rfl

/-- Where bytes are stored, the offset that the number allows has to be one that they reach to. -/
theorem insert_stored (mode : Mode) {bytes : List UInt8} {len : Nat} (hmode : mode ≠ .measuring) (h : offset ≤ len)
    (hroom : mode.Room (len + data.length)) : insert offset data ⟨mode, bytes, len⟩ =
      if bytes.length < offset then (.error .halted, ⟨mode, bytes, len⟩)
      else (.ok (), ⟨mode, bytes.take offset ++ data ++ bytes.drop offset, len + data.length⟩) := by
  have hstored : (store offset data >>= fun _ => modify fun s => { s with len := len + data.length })
        ⟨mode, bytes, len⟩ =
      if bytes.length < offset then (.error .halted, ⟨mode, bytes, len⟩)
      else (.ok (), ⟨mode, bytes.take offset ++ data ++ bytes.drop offset, len + data.length⟩) := by
    by_cases hpast : bytes.length < offset
    · rw [if_pos hpast, Step.bind_of_error (store_past hpast)]
    · rw [if_neg hpast, Step.bind_of_ok (store_within (Nat.not_lt.mp hpast))]
      rfl
  unfold insert
  rw [Step.bind_of_ok (Step.get_apply _), if_neg (Nat.not_lt.mpr h)]
  cases mode with
  | measuring => exact absurd rfl hmode
  | growable => exact hstored
  | fixed capacity =>
    show (if capacity < len + data.length then _ else _ : Step Sink Unit) _ = _
    rw [if_neg (Nat.not_lt.mpr hroom)]
    exact hstored

/-- A call on the record is the call on the buffer, if it is taken and if it is not. -/
theorem insert_image (offset : Nat) (data : List UInt8) :
    Step.Image Buffer.sink (.update (Buffer.insert offset data)) (insert offset data) := by
  intro b
  by_cases hpast : b.size < offset
  · rw [insert_past_len (by rwa [len_sink])]
    simp only [Step.update, Buffer.insert_past hpast, len_sink]
  · have hle : offset ≤ b.size := Nat.not_lt.mp hpast
    simp only [Step.update, Buffer.insert_within hle]
    cases b with
    | measuring count => exact insert_measuring hle
    | growable content =>
      have hlen : (content.take offset ++ data ++ content.drop offset).length = _ := Buffer.length_inserted hle
      simp only [Buffer.grow, pure, Except.pure, Buffer.sink, hlen]
      have hmode : Mode.growable ≠ .measuring := fun h => Mode.noConfusion h
      exact (insert_stored _ hmode hle trivial).trans (if_neg hpast)
    | fixed capacity content =>
      have hlen : (content.take offset ++ data ++ content.drop offset).length = _ := Buffer.length_inserted hle
      simp only [Buffer.grow, pure, Except.pure, Buffer.sink]
      by_cases hfull : capacity < content.length + data.length
      · rw [if_pos hfull]
        exact insert_full hle hfull
      · rw [if_neg hfull]
        simp only [hlen]
        have hmode : Mode.fixed capacity ≠ .measuring := fun h => Mode.noConfusion h
        exact (insert_stored _ hmode hle (Nat.not_lt.mp hfull)).trans (if_neg hpast)

theorem append_image (data : List UInt8) :
    Step.Image Buffer.sink (.update (Buffer.append data)) (append data) := by
  intro b
  have hinsert := insert_image b.size data b
  simp only [Step.update, Buffer.append_eq_insert] at hinsert ⊢
  rw [← len_sink] at hinsert ⊢
  exact hinsert

/-- Whatever the parts of a record are, a refusal changes none of them. -/
theorem insert_refused {s : Sink} {e : Error} (h : (insert offset data s).1 = .error e) :
    (insert offset data s).2 = s := by
  by_cases hpast : s.len < offset
  · rw [insert_past_len hpast]
  have hle : offset ≤ s.len := Nat.not_lt.mp hpast
  obtain ⟨mode, bytes, len⟩ := s
  by_cases hmode : mode = .measuring
  · rw [hmode, insert_measuring hle] at h
    cases h
  by_cases hroom : mode.Room (len + data.length)
  · rw [insert_stored mode hmode hle hroom] at h ⊢
    split at h
    · rw [if_pos ‹_›]
    · cases h
  · cases mode with
    | measuring => exact absurd rfl hmode
    | growable => exact absurd trivial hroom
    | fixed capacity => rw [insert_full hle (Nat.lt_of_not_le hroom)]

end

/-! ## Edits -/

def perform (e : Edit) (s : Sink) : Reply × Sink :=
  match e with
  | .append data =>
    match append data s with
    | (.ok (), s) => (.done, s)
    | (.error e, s) => (.refused e, s)
  | .insert offset data =>
    match insert offset data s with
    | (.ok (), s) => (.done, s)
    | (.error e, s) => (.refused e, s)
  | .write data =>
    match write data s with
    | (.ok n, s) => (.written n, s)
    | (.error e, s) => (.broken e, s)

/-- What the edits come to, each made on the sink that the one before it left, refused or not. -/
def edited : List Edit → Sink → List Reply × Sink
  | [], s => ([], s)
  | e :: rest, s =>
    let (r, s) := perform e s
    let (rs, s) := edited rest s
    (r :: rs, s)

theorem perform_insert (e : Edit) (s : Sink) : perform e s =
    match insert (e.place s.len) e.data s with
    | (.ok (), t) => (e.taken, t)
    | (.error x, t) => (e.refusal x, t) := by
  cases e with
  | append data => rfl
  | insert offset data => rfl
  | write data =>
    have happend : append data s = insert s.len data s := rfl
    simp only [perform, write, happend, Edit.place, Edit.data]
    rcases insert s.len data s with ⟨_ | _, t⟩ <;> rfl

theorem perform_sink (e : Edit) (b : Buffer) : perform e b.sink = ((e.perform b).1, (e.perform b).2.sink) := by
  have himage := insert_image (e.place b.size) e.data b
  rw [perform_insert, len_sink, himage, Buffer.perform_eq, Step.update]
  cases b.insert (e.place b.size) e.data <;> rfl

theorem edited_sink (edits : List Edit) (b : Buffer) :
    edited edits b.sink = ((Buffer.edited edits b).1, (Buffer.edited edits b).2.sink) := by
  induction edits generalizing b with
  | nil => rfl
  | cons e rest ih =>
    rw [edited, perform_sink]
    simp only [ih, Buffer.edited]

theorem unchanged_of_refused {e : Edit} {s : Sink} (h : (perform e s).1.isRefusal = true) : (perform e s).2 = s := by
  rw [perform_insert] at h ⊢
  rcases hi : insert (e.place s.len) e.data s with ⟨x | _, t⟩
  · have hsame := insert_refused (congrArg Prod.fst hi)
    rwa [hi] at hsame
  · rw [hi, Buffer.isRefusal_taken] at h
    cases h

/-- An edit keeps the parts in step. -/
theorem sound_perform {s : Sink} (h : s.Sound) (e : Edit) : (perform e s).2.Sound := by
  obtain ⟨content, hs, hroom⟩ := h.holding
  rw [← hs, perform_sink]
  rcases Buffer.perform_cases s.mode e content with ⟨-, hp⟩ | ⟨-, hmore, hp⟩ | ⟨-, -, x, hp⟩
  · rw [hp]
    exact sound_holding hroom
  · rw [hp]
    exact sound_holding hmore
  · rw [hp]
    exact sound_holding hroom

theorem sound_edited {s : Sink} (h : s.Sound) (edits : List Edit) : (edited edits s).2.Sound := by
  induction edits generalizing s with
  | nil => exact h
  | cons e rest ih => exact ih (sound_perform h e)

theorem sound_empty (mode : Mode) : Sound { mode } where
  counted _ := rfl
  stored _ := rfl
  bounded := Mode.room_zero mode

theorem answer_of_sound {s : Sink} (h : s.Sound) (e : Edit) : (perform e s).1 = e.answer s.capacity? s.len := by
  obtain ⟨content, hs, -⟩ := h.holding
  rw [← hs, perform_sink, capacity_sink, len_sink]
  exact Buffer.perform_answer e _

/-! ## One content -/

/-- What edits come to on sinks of the three kinds, all of which start empty. The edits are any, so that this is said
of the sinks after every single one. -/
structure Agree (capacity : Nat) (edits : List Edit) : Prop where
  sound (mode : Mode) : (edited edits { mode }).2.Sound
  /-- The next edit is refused for one of two reasons, or taken. -/
  answers (mode : Mode) (e : Edit) :
    let s := (edited edits { mode }).2
    (perform e s).1 = e.answer s.capacity? s.len
  counted : (edited edits { mode := .measuring }).1 = (edited edits { mode := .growable }).1 ∧
    (edited edits { mode := .measuring }).2.len = (edited edits { mode := .growable }).2.len
  grown : let made := Buffer.spliced (Buffer.accepted edits (edited edits { mode := .growable }).1)
    (edited edits { mode := .growable }).2.intoBytes? = some made ∧
      (edited edits { mode := .growable }).2.len = made.length
  bounded : let made := Buffer.spliced (Buffer.accepted edits (edited edits { mode := .fixed capacity }).1)
    (edited edits { mode := .fixed capacity }).2.intoBytes? = some made ∧
      (edited edits { mode := .fixed capacity }).2.len = made.length ∧ made.length ≤ capacity
  /-- As long as there is room, which a growing sink never has less of later than now. -/
  room (h : (edited edits { mode := .growable }).2.len ≤ capacity) :
    (edited edits { mode := .fixed capacity }).1 = (edited edits { mode := .growable }).1 ∧
    (edited edits { mode := .fixed capacity }).2.intoBytes? = (edited edits { mode := .growable }).2.intoBytes? ∧
    (edited edits { mode := .fixed capacity }).2.len = (edited edits { mode := .growable }).2.len
  /-- The first edit that there is no room for. -/
  full (e : Edit) (h : (edited edits { mode := .growable }).2.len ≤ capacity)
    (hfull : capacity < (perform e (edited edits { mode := .growable }).2).2.len) :
    (perform e (edited edits { mode := .fixed capacity }).2).1 =
      e.refusal (.overflow (perform e (edited edits { mode := .growable }).2).2.len capacity)

theorem edited_empty (mode : Mode) (edits : List Edit) : edited edits { mode } =
    ((Buffer.edited edits (mode.holding [])).1, (Buffer.edited edits (mode.holding [])).2.sink) := by
  rw [← edited_sink]
  cases mode <;> rfl

/-- With room for all that a growing sink comes to hold, every kind of sink does as it does. -/
theorem edited_together (mode : Mode) {edits : List Edit} {more : List UInt8}
    (hmore : (Buffer.edited edits .emptyGrowable).2 = .growable more) (hroom : mode.Room more.length) :
    edited edits { mode } = ((edited edits { mode := .growable }).1, (mode.holding more).sink) := by
  rw [edited_empty, edited_empty, Buffer.edited_mode mode edits hmore hroom]
  rfl

/-- **One content.** Of sinks of every kind, under any edits. -/
theorem one_content (capacity : Nat) (edits : List Edit) : Agree capacity edits ∧
    (∀ (e : Edit) (s : Sink), (perform e s).1.isRefusal = true → (perform e s).2 = s) ∧
    ∀ (offset : Nat) (data : List UInt8) (s : Sink), s.len < offset → perform (.insert offset data) s =
      (.refused (.structural (.insertPastEnd offset s.len)), s) := by
  obtain ⟨more, -, hmore⟩ := Buffer.edited_growable edits []
  have hgrown : (edited edits { mode := .growable }).2 = (Buffer.growable more).sink := by
    rw [edited_together .growable hmore trivial]
    rfl
  have hcounted := edited_together .measuring hmore trivial
  have hroom (h : more.length ≤ capacity) := edited_together (.fixed capacity) hmore h
  refine ⟨⟨fun mode => sound_edited (sound_empty mode) edits, fun mode e => ?_, ?_, ?_, ?_, fun h => ?_,
    fun e h hfull => ?_⟩, fun _ _ => unchanged_of_refused, fun offset data s h => ?_⟩
  · exact answer_of_sound (sound_edited (sound_empty mode) edits) e
  · rw [hcounted, hgrown]
    exact ⟨rfl, rfl⟩
  · obtain ⟨hmade, -⟩ := Buffer.edited_holding .growable [] edits trivial
    rw [edited_empty, hmade]
    exact ⟨rfl, rfl⟩
  · obtain ⟨hmade, hwithin⟩ := Buffer.edited_holding (.fixed capacity) [] edits (Nat.zero_le capacity)
    rw [edited_empty, hmade]
    exact ⟨rfl, rfl, hwithin⟩
  · rw [hgrown] at h ⊢
    rw [hroom h]
    exact ⟨rfl, rfl, rfl⟩
  · rw [hgrown] at h
    rw [hgrown, perform_sink, len_sink] at hfull ⊢
    rw [hroom h]
    show (perform e (Buffer.fixed capacity more).sink).1 = _
    rw [perform_sink]
    exact Buffer.perform_first_full h hfull
  · simp only [perform, insert_past_len h]

/-- Edits with one past the end among them, and a write that there is no room for after them. -/
theorem one_content_full :
    let edits : List Edit := [.append [0x61, 0x64], .insert 3 [0x78], .insert 1 [0x62]]
    (edited edits { mode := .fixed 4 }).1 = [.done, .refused (.structural (.insertPastEnd 3 2)), .done] ∧
    (edited edits { mode := .fixed 4 }).2.intoBytes? = some [0x61, 0x62, 0x64] ∧
    (perform (.write [0x63, 0x65]) (edited edits { mode := .fixed 4 }).2).1 = .broken ⟨.overflow 5 4⟩ := by
  intro edits
  have hroom := (one_content 4 edits).1.room (by decide)
  have hfull := (one_content 4 edits).1.full (.write [0x63, 0x65]) (by decide) (by decide)
  exact ⟨hroom.1, hroom.2.1, hfull⟩

end Sink

end ClaimRelay
