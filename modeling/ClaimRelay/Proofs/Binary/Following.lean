import ClaimRelay.Proofs.Binary.Writing
import ClaimRelay.Proofs.Writer.Delivering

/-!
# The token writer follows a builder

With a buffer that grows, the bytes written and the frames are a function of what has been built: each level that
is open contributes its claims, the entries that are complete and the places where its bodies start.
-/

namespace ClaimRelay.Binary

theorem Puts.growing {α : Type} {p : Prop} {x : Step TokenWriter α} {s t : TokenWriter} {a : α}
    (h : Puts p x s a t) (hp : p) (ht : t.out.capacity? = none) : x s = (.ok a, t) :=
  h.written hp (Buffer.fits_of_unbounded ht)

namespace TokenWriter

/-! ## The image of a builder -/

def claimBytes (cs : List Claim) : List UInt8 := Node.encodeAll (cs.map claimNode)

def entryBytes (es : List Entry) : List UInt8 := Node.encodeAll (entryNodes es)

def sectionBytes (es : List Entry) : List UInt8 := Node.encodeAll (sectionNodes es)

/-- What there is before the body of a submodule, opened in a level whose body comes after `front`: the bytes and
the frames. -/
def descend (name : String) (above : OpenLevel) (front : List UInt8) (frames : List Frame) :
    List UInt8 × List Frame :=
  let claims := front ++ claimBytes above.claims
  let entries := claims ++ entryBytes above.entries
  (entries ++ element .utf8String (Text.utf8 name),
    .submodule entries.length :: .sect claims.length (above.entries.length + 1) :: .token front.length .running
      :: frames)

def under (name : String) : List OpenLevel → List UInt8 × List Frame
  | [] => ([], [])
  | above :: further => descend name above (under above.name further).1 (under above.name further).2

/-- A level whose body comes after `front`. -/
def inside (level : OpenLevel) (front : List UInt8) (frames : List Frame) (submodules : Nat) : TokenWriter :=
  let claims := front ++ claimBytes level.claims
  match level.status with
  | .pending => ⟨.growable claims, .token front.length .pending :: frames, submodules⟩
  | .running => ⟨.growable (claims ++ entryBytes level.entries),
    .sect claims.length level.entries.length :: .token front.length .running :: frames, submodules⟩
  | .ended => ⟨.growable (claims ++ sectionBytes level.entries), .token front.length .ended :: frames, submodules⟩

def ofBuilder (b : Builder) : TokenWriter :=
  inside b.top (under b.top.name b.outer).1 (under b.top.name b.outer).2 b.outer.length

/-- A location belongs under its label. -/
def reasons : Writer.Reasons where
  claim _ c := if c.Placed then none else some (.structural (.locationUnderLabel c.label))
  name _ _ := none

theorem reasons_claim_eq_none {before : List Claim} {c : Claim} : reasons.claim before c = none ↔ c.Placed := by
  simp [reasons]

theorem reasons_claim_eq_some {before : List Claim} {c : Claim} {e : Error} :
    reasons.claim before c = some e ↔ ¬c.Placed ∧ .structural (.locationUnderLabel c.label) = e := by
  simp [reasons]

theorem allowsClaims_iff (before cs : List Claim) : reasons.AllowsClaims before cs ↔ ∀ c ∈ cs, c.Placed := by
  induction cs generalizing before with
  | nil => exact iff_of_true trivial (List.forall_mem_nil _)
  | cons c cs ih => rw [Writer.Reasons.AllowsClaims, reasons_claim_eq_none, ih, List.forall_mem_cons]

mutual

theorem allowsEntry_iff : ∀ e : Entry, reasons.AllowsEntry e ↔ e.Placed
  | .submodule name cs es => by
    rw [Writer.Reasons.AllowsEntry, Entry.Placed, allowsClaims_iff, allowsEntries_iff es]
  | .token t => Iff.rfl

theorem allowsEntries_iff : ∀ (es : List Entry) {before : List String},
    reasons.AllowsEntries before es ↔ Entry.AllPlaced es
  | [], before => Iff.rfl
  | e :: rest, before => by
    rw [Writer.Reasons.AllowsEntries, Entry.AllPlaced, allowsEntry_iff e, allowsEntries_iff rest]
    exact and_iff_right rfl

end

theorem allows_iff (m : ClaimSet) : reasons.Allows m ↔ m.Placed := by
  rw [Writer.Reasons.Allows, ClaimSet.Placed, allowsClaims_iff, allowsEntries_iff]

/-! ## Single requests -/

theorem closeSubmodule_elsewhere {s : TokenWriter} {handle : Nat} (h : handle ≠ s.submodules ∨ s.submodules = 0) :
    closeSubmodule handle s = (.error (.structural (.closingDepth handle s.submodules)), s) := by
  unfold closeSubmodule
  rw [Step.bind_of_ok (Step.get_apply s), if_pos h]
  rfl

theorem closeSubmodule_early {s : TokenWriter} {handle start k : Nat} {outer : List Frame}
    (hf : s.frames = .sect start k :: outer) (hh : handle = s.submodules) (hs : s.submodules ≠ 0) :
    closeSubmodule handle s = (.error (.structural .closedWithSectionOpen), { s with frames := outer }) := by
  obtain ⟨out, frames, d⟩ := s
  obtain rfl : frames = .sect start k :: outer := hf
  have hdepth : ¬(handle ≠ d ∨ d = 0) := not_or.mpr ⟨fun hne => hne hh, hs⟩
  unfold closeSubmodule
  rw [Step.bind_of_ok (Step.get_apply _), if_neg hdepth]
  rfl

theorem entryNodes_append (xs ys : List Entry) : entryNodes (xs ++ ys) = entryNodes xs ++ entryNodes ys := by
  induction xs with
  | nil => simp [entryNodes]
  | cons x xs ih => simp [entryNodes, ih]

theorem claimBytes_concat (cs : List Claim) (c : Claim) :
    claimBytes (cs ++ [c]) = claimBytes cs ++ (claimNode c).encode := by
  rw [claimBytes, List.map_append, Node.encodeAll_append]
  simp [claimBytes, Node.encodeAll, Node.encode]

theorem entryBytes_concat (es : List Entry) (e : Entry) :
    entryBytes (es ++ [e]) = entryBytes es ++ (entryNode e).encode := by
  rw [entryBytes, entryNodes_append, Node.encodeAll_append]
  simp [entryBytes, entryNodes, Node.encodeAll, Node.encode]

section
variable {front : List UInt8} {frames : List Frame} {name : String} {cs : List Claim} {es : List Entry} {d : Nat}

theorem claim_inside {c : Claim} (hc : c.Placed) : claim c (inside ⟨name, cs, es, .pending⟩ front frames d) =
    (.ok (), inside ⟨name, cs ++ [c], es, .pending⟩ front frames d) := by
  have h := (claim_puts (.growable (front ++ claimBytes cs)) frames d front.length c).growing hc rfl
  simp only [inside, claimBytes_concat, ← List.append_assoc]
  exact h

theorem claim_refused {c : Claim} (hc : ¬c.Placed) : claim c (inside ⟨name, cs, es, .pending⟩ front frames d) =
    (.error (.structural (.locationUnderLabel c.label)), inside ⟨name, cs, es, .pending⟩ front frames d) := by
  unfold claim
  rw [Step.bind_of_ok (Step.get_apply _)]
  simp only [inside, encodeClaim_of_not_placed hc]
  rfl

theorem startSection_inside : startSection (inside ⟨name, cs, [], .pending⟩ front frames d) =
    (.ok (), inside ⟨name, cs, [], .running⟩ front frames d) := by
  have h := (startSection_puts (.growable (front ++ claimBytes cs)) frames d front.length).growing trivial rfl
  simp only [inside]
  rw [h]
  simp [entryBytes, entryNodes, Node.encodeAll, Buffer.size]

theorem endSection_inside : endSection (inside ⟨name, cs, es, .running⟩ front frames d) =
    (.ok (), inside ⟨name, cs, es, .ended⟩ front frames d) := by
  cases es with
  | nil =>
    have h := (endSection_empty (.growable (front ++ claimBytes cs)) frames d front.length).growing trivial rfl
    simp only [inside, entryBytes, entryNodes, sectionBytes, sectionNodes, Node.encodeAll, List.append_nil]
    exact h
  | cons first rest =>
    have h := (endSection_puts (.growable (front ++ claimBytes cs)) frames d rest.length front.length
      (entryBytes (first :: rest))).growing trivial rfl
    simp only [inside, sectionBytes, encode_sectionNodes]
    exact h

theorem openSubmodule_inside (inner : String) : openSubmodule inner (inside ⟨name, cs, es, .running⟩ front frames d) =
    (.ok (d + 1), inside { name := inner } (descend inner ⟨name, cs, es, .running⟩ front frames).1
      (descend inner ⟨name, cs, es, .running⟩ front frames).2 (d + 1)) := by
  have h := (openSubmodule_puts (.growable (front ++ claimBytes cs ++ entryBytes es))
    (.token front.length .running :: frames) d es.length (front ++ claimBytes cs).length inner).growing trivial rfl
  simp only [inside, descend]
  rw [h]
  simp [claimBytes, Node.encodeAll, Buffer.plus, Buffer.size]

theorem inside_entry (e : Entry) : inside ⟨name, cs, es ++ [e], .running⟩ front frames d =
    ⟨.growable (front ++ claimBytes cs ++ entryBytes es ++ (entryNode e).encode),
      .sect (front ++ claimBytes cs).length (es.length + 1) :: .token front.length .running :: frames, d⟩ := by
  simp [inside, entryBytes_concat]

theorem token_inside (t : NestedToken) : token t (inside ⟨name, cs, es, .running⟩ front frames d) =
    (.ok (), inside ⟨name, cs, es ++ [.token t], .running⟩ front frames d) := by
  rw [inside_entry, entryNode]
  exact (token_puts (.growable (front ++ claimBytes cs ++ entryBytes es)) (.token front.length .running :: frames) d
    es.length (front ++ claimBytes cs).length t).growing trivial rfl

/-- What a level holds whose section is not running: nothing is before the section or after it. -/
theorem inside_of_not_running {level : OpenLevel} (hs : level.status ≠ .running)
    (hp : level.status = .pending → level.entries = []) : inside level front frames d =
    ⟨.growable (front ++ (claimBytes level.claims ++ sectionBytes level.entries)),
      .token front.length level.status :: frames, d⟩ := by
  unfold inside
  cases hstatus : level.status with
  | pending => simp [hp hstatus, sectionBytes, sectionNodes, Node.encodeAll]
  | running => exact absurd hstatus hs
  | ended => simp

theorem closeSubmodule_inside {inner : OpenLevel} (hs : inner.status ≠ .running)
    (hp : inner.status = .pending → inner.entries = []) :
    closeSubmodule (d + 1) (inside inner (descend inner.name ⟨name, cs, es, .running⟩ front frames).1
      (descend inner.name ⟨name, cs, es, .running⟩ front frames).2 (d + 1)) =
    (.ok (), inside ⟨name, cs, es ++ [.submodule inner.name inner.claims inner.entries], .running⟩ front frames d) := by
  have h := (closeSubmodule_puts (.growable (front ++ claimBytes cs ++ entryBytes es))
    (.sect (front ++ claimBytes cs).length (es.length + 1) :: .token front.length .running :: frames) d
    (element .utf8String (Text.utf8 inner.name)) (claimBytes inner.claims ++ sectionBytes inner.entries)
    hs).growing trivial rfl
  rw [inside_of_not_running hs hp, inside_entry, encode_submodule]
  exact h

end

theorem writer_follows : renderer.toWriter.Follows ofBuilder reasons where
  takes {b r} hb h hr := by
    obtain ⟨⟨name, cs, es, status⟩, outer⟩ := b
    cases r with
    | claim c =>
      obtain rfl : status = .pending := h
      exact Step.bind_of_ok (claim_inside (reasons_claim_eq_none.mp hr))
    | startSection =>
      obtain rfl : status = .pending := h
      obtain rfl : es = [] := hb.pending rfl
      exact Step.bind_of_ok startSection_inside
    | endSection =>
      obtain rfl : status = .running := h
      exact Step.bind_of_ok endSection_inside
    | openSubmodule inner =>
      obtain rfl : status = .running := h
      exact Step.bind_of_ok (openSubmodule_inside inner)
    | token t =>
      obtain rfl : status = .running := h
      exact Step.bind_of_ok (token_inside t)
    | closeSubmodule handle =>
      cases outer with
      | nil => exact absurd rfl h.1
      | cons above outer =>
        obtain ⟨-, rfl, hs⟩ := h
        obtain ⟨n, cs', es', st⟩ := above
        obtain rfl : st = .running := hb.running _ (.head _)
        exact Step.bind_of_ok (closeSubmodule_inside hs hb.pending)
  refuses {b r e} hb h hr := by
    obtain ⟨⟨name, cs, es, status⟩, outer⟩ := b
    cases r with
    | claim c =>
      obtain rfl : status = .pending := h
      obtain ⟨hc, rfl⟩ := reasons_claim_eq_some.mp hr
      exact Step.bind_of_error (claim_refused hc)
    | startSection => cases hr
    | endSection => cases hr
    | openSubmodule name => cases hr
    | token t => cases hr
    | closeSubmodule handle => cases hr
  rejects {b r} hb h := by
    obtain ⟨⟨name, cs, es, status⟩, outer⟩ := b
    cases r with
    | claim c => cases status <;> first | exact absurd rfl h | exact ⟨_, _, rfl, .inr rfl⟩
    | startSection => cases status <;> first | exact absurd rfl h | exact ⟨_, _, rfl, .inr rfl⟩
    | endSection => cases status <;> first | exact absurd rfl h | exact ⟨_, _, rfl, .inl (.inl rfl)⟩
    | openSubmodule name => cases status <;> first | exact absurd rfl h | exact ⟨_, _, rfl, .inr rfl⟩
    | token t => cases status <;> first | exact absurd rfl h | exact ⟨_, _, rfl, .inr rfl⟩
    | closeSubmodule handle =>
      have hsub : (ofBuilder ⟨⟨name, cs, es, status⟩, outer⟩).submodules = outer.length := by
        cases status <;> rfl
      rcases Builder.closing_not_inOrder h with hdepth | ⟨hh, houter, hs⟩
      · rw [← hsub] at hdepth
        exact ⟨_, _, Step.bind_of_error (closeSubmodule_elsewhere hdepth), .inr rfl⟩
      · obtain rfl : status = .running := hs
        exact ⟨_, _, Step.bind_of_error (closeSubmodule_early rfl hh houter), .inl (.inr rfl)⟩

/-! ## Whole tokens -/

theorem finish_early {s : TokenWriter} {inner outer : Frame} {rest : List Frame}
    (h : s.frames = inner :: outer :: rest) : finish s = (.error (.structural .elementsStillOpen), s) := by
  have hcomplete : complete s = (.error (.structural .elementsStillOpen), s) := by
    unfold complete
    rw [Step.bind_of_ok (Step.get_apply s), h]
    cases inner with
    | token start status => cases start <;> rfl
    | sect start count => rfl
    | submodule start => rfl
  exact Step.bind_of_error hcomplete

theorem renderer_follows (s : TokenWriter) :
    renderer.Follows s ofBuilder reasons fun m => (tokenNode m).encode where
  toFollows := writer_follows
  starts := by
    show (Except.ok (), _) = (Except.ok (), _)
    simp [ofBuilder, inside, under, claimBytes, Node.encodeAll, Buffer.emptyGrowable]
  finishes {b m} hb h := by
    obtain ⟨top, outer⟩ := b
    obtain ⟨⟨rfl, hs⟩, rfl⟩ := Builder.finish_eq_ok.mp h
    have hclose := (close_puts (.growable []) [] 0 .token (claimBytes top.claims ++ sectionBytes top.entries)).growing
      trivial rfl
    have hbody : (tokenNode ⟨top.claims, top.entries⟩).encode =
        element .token (claimBytes top.claims ++ sectionBytes top.entries) := by
      rw [claimBytes, sectionBytes, ← Node.encodeAll_append]
      rfl
    have hcomplete : complete (ofBuilder ⟨top, []⟩) =
        (.ok (), ⟨.growable (element .token (claimBytes top.claims ++ sectionBytes top.entries)), [], 0⟩) := by
      unfold complete
      rw [ofBuilder, inside_of_not_running hs hb.pending, Step.bind_of_ok (Step.get_apply _)]
      simp only [under, List.nil_append, List.length_nil, hs, ite_false]
      exact hclose
    show (finish (ofBuilder ⟨top, []⟩)).1 = _
    unfold finish
    rw [Step.bind_of_ok hcomplete, hbody]
    rfl
  goesOn {b e} hb h := by
    have hwhole := Builder.not_whole_of_finish h
    obtain ⟨⟨name, cs, es, status⟩, outer⟩ := b
    have hframes : ∃ inner outer' rest,
        (ofBuilder ⟨⟨name, cs, es, status⟩, outer⟩).frames = inner :: outer' :: rest := by
      cases outer with
      | nil =>
        cases status with
        | running => exact ⟨_, _, _, rfl⟩
        | _ => exact absurd ⟨rfl, by simp⟩ hwhole
      | cons above further => cases status <;> exact ⟨_, _, _, rfl⟩
    obtain ⟨_, _, _, hframes⟩ := hframes
    exact ⟨_, congrArg Prod.fst (finish_early hframes)⟩

end TokenWriter

end ClaimRelay.Binary
