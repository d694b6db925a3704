import ClaimRelay.Proofs.Binary.TokenTree
import ClaimRelay.Proofs.Buffer
import ClaimRelay.Proofs.Walk.Delivery

/-!
# Writing a token

Headers are put in front of bodies that are written already, and how long a header is depends on how far the
output has come. What delivering a claim set leaves in the output is the tree of the claim set all the same,
in a buffer of any kind; nothing is refused but misplaced locations, nesting and want of room.
-/

namespace ClaimRelay.Binary

variable {α β : Type}

/-! ## Steps that write -/

/-- The refusals that a claim set itself causes. -/
def Unfit : Error → Prop
  | .tooDeep _ | .structural (.locationUnderLabel _) => True
  | _ => False

/-- What it is for a step to write its part of the output from the state `s`, answering `a` in the state `t`:
if `p` it does so as far as there is room, and otherwise it fails. -/
structure Puts (p : Prop) (x : Step TokenWriter α) (s : TokenWriter) (a : α) (t : TokenWriter) : Prop where
  capacity : t.out.capacity? = s.out.capacity?
  size : s.out.size ≤ t.out.size
  written (hp : p) (ht : t.out.Fits) : x s = (.ok a, t)
  overflow (hp : p) (hs : s.out.Fits) (ht : ¬t.out.Fits) : ∃ e s', x s = (.error e, s') ∧ s.out.Overflows e
  refused (hp : ¬p) (hs : s.out.Fits) : ∃ e s', x s = (.error e, s') ∧ (s.out.Overflows e ∨ Unfit e)

namespace Puts

variable {p q : Prop} {x : Step TokenWriter α} {s t u : TokenWriter} {a : α}

theorem quiet (h : x s = (.ok a, t)) (ht : t.out = s.out) : Puts True x s a t where
  capacity := by rw [ht]
  size := Nat.le_of_eq (congrArg Buffer.size ht.symm)
  written _ _ := h
  overflow _ hs hn := absurd (ht ▸ hs) hn
  refused hp _ := absurd trivial hp

theorem refuse {bytes : List UInt8} (hp : ¬p) (h : ∃ e s', x s = (.error e, s') ∧ Unfit e)
    (ht : t.out = s.out.plus bytes) : Puts p x s a t where
  capacity := by rw [ht, Buffer.capacity_plus]
  size := by simp [ht, Buffer.size_plus]
  written h _ := absurd h hp
  overflow h _ _ := absurd h hp
  refused _ _ := by
    obtain ⟨e, s', he, hu⟩ := h
    exact ⟨e, s', he, .inr hu⟩

theorem mono (hx : Puts p x s a t) (hp : q ↔ p) : Puts q x s a t := by
  rwa [propext hp]

theorem bind {f : α → Step TokenWriter β} {b : β} (hx : Puts p x s a t) (hf : Puts q (f a) t b u) :
    Puts (p ∧ q) (x >>= f) s b u where
  capacity := hf.capacity.trans hx.capacity
  size := Nat.le_trans hx.size hf.size
  written hp hu := by
    have ht : t.out.Fits := hu.mono hf.capacity hf.size
    rw [Step.bind_of_ok (hx.written hp.1 ht)]
    exact hf.written hp.2 hu
  overflow hp hs hu := by
    by_cases ht : t.out.Fits
    · obtain ⟨e, s', he, ho⟩ := hf.overflow hp.2 ht hu
      exact ⟨e, s', by rw [Step.bind_of_ok (hx.written hp.1 ht), he], ho.congr hx.capacity⟩
    · obtain ⟨e, s', he, ho⟩ := hx.overflow hp.1 hs ht
      exact ⟨e, s', Step.bind_of_error he, ho⟩
  refused hp hs := by
    by_cases hp₁ : p
    · by_cases ht : t.out.Fits
      · obtain ⟨e, s', he, ho⟩ := hf.refused (fun hq => hp ⟨hp₁, hq⟩) ht
        exact ⟨e, s', by rw [Step.bind_of_ok (hx.written hp₁ ht), he], ho.imp_left fun h => h.congr hx.capacity⟩
      · obtain ⟨e, s', he, ho⟩ := hx.overflow hp₁ hs ht
        exact ⟨e, s', Step.bind_of_error he, .inl ho⟩
    · obtain ⟨e, s', he, ho⟩ := hx.refused hp₁ hs
      exact ⟨e, s', Step.bind_of_error he, ho⟩

theorem next {f : α → Step TokenWriter β} {b : β} (hx : Puts True x s a t) (hf : Puts q (f a) t b u) :
    Puts q (x >>= f) s b u := (hx.bind hf).mono (true_and q).symm.to_iff

theorem after {f : α → Step TokenWriter β} {b : β} (h : x s = (.ok a, t)) (ht : t.out = s.out)
    (hf : Puts q (f a) t b u) : Puts q (x >>= f) s b u := (quiet h ht).next hf

end Puts

namespace TokenWriter

/-! ## Single calls -/

variable (out : Buffer) (frames outer : List Frame) (d k start : Nat)

theorem put_puts (bytes : List UInt8) :
    Puts True (put bytes) ⟨out, frames, d⟩ () ⟨out.plus bytes, frames, d⟩ where
  capacity := out.capacity_plus bytes
  size := by
    show out.size ≤ (out.plus bytes).size
    rw [Buffer.size_plus]
    exact Nat.le_add_right ..
  written _ ht := by
    unfold put Step.update
    simp only [Buffer.append_of_fits ht, ok_bind]
    rfl
  overflow _ _ ht := by
    obtain ⟨e, he, ho⟩ := Buffer.append_of_not_fits ht
    refine ⟨e, ⟨out, frames, d⟩, ?_, ho⟩
    unfold put Step.update
    simp only [he, error_bind]
  refused hp _ := absurd trivial hp

/-- The header in front of a body is that of the body, wherever in the output it starts. -/
theorem close_puts (tag : Tag) (body : List UInt8) :
    Puts True (close tag out.size) ⟨out.plus body, frames, d⟩ () ⟨out.plus (element tag body), frames, d⟩ where
  capacity := by
    show (out.plus _).capacity? = (out.plus _).capacity?
    rw [Buffer.capacity_plus, Buffer.capacity_plus]
  size := by
    show (out.plus _).size ≤ (out.plus _).size
    rw [Buffer.size_plus, Buffer.size_plus]
    exact Nat.add_le_add_left (Nat.le_of_lt (body_lt_element tag body)) _
  written _ ht := by
    have hlen : (out.plus body).size - out.size = body.length := by
      rw [Buffer.size_plus, Nat.add_sub_cancel_left]
    unfold close Step.update
    simp only [hlen, Buffer.insert_of_fits ht, ok_bind]
    rfl
  overflow _ _ ht := by
    have hlen : (out.plus body).size - out.size = body.length := by
      rw [Buffer.size_plus, Nat.add_sub_cancel_left]
    obtain ⟨e, he, ho⟩ := Buffer.insert_of_not_fits ht
    refine ⟨e, ⟨out.plus body, frames, d⟩, ?_, ho.congr (out.capacity_plus body).symm⟩
    unfold close Step.update
    simp only [hlen, he, error_bind]
  refused hp _ := absurd trivial hp

theorem encode_puts (c : Claim) :
    Puts c.Placed (Step.ofExcept (encodeClaim c)) ⟨out, frames, d⟩ (claimNode c).encode ⟨out, frames, d⟩ where
  capacity := rfl
  size := Nat.le_refl _
  written h _ := by
    rw [encodeClaim_of_placed h]
    rfl
  overflow _ hs ht := absurd hs ht
  refused h _ := by
    rw [encodeClaim_of_not_placed h]
    exact ⟨_, _, rfl, .inr trivial⟩

theorem claim_puts (c : Claim) : Puts c.Placed (claim c) ⟨out, .token start .pending :: outer, d⟩ ()
    ⟨out.plus (claimNode c).encode, .token start .pending :: outer, d⟩ :=
  .after rfl rfl (.mono (.bind (encode_puts ..) (put_puts ..)) (and_true _).symm.to_iff)

theorem startSection_puts : Puts True startSection ⟨out, .token start .pending :: outer, d⟩ ()
    ⟨out, .sect out.size 0 :: .token start .running :: outer, d⟩ := .quiet rfl rfl

theorem endSection_empty : Puts True endSection ⟨out, .sect out.size 0 :: .token start .running :: outer, d⟩ ()
    ⟨out, .token start .ended :: outer, d⟩ := .quiet rfl rfl

theorem endSection_puts (body : List UInt8) :
    Puts True endSection ⟨out.plus body, .sect out.size (k + 1) :: .token start .running :: outer, d⟩ ()
      ⟨out.plus (element .sect body), .token start .ended :: outer, d⟩ := by
  refine .after rfl rfl ?_
  exact .next (close_puts ..) (.quiet rfl rfl)

theorem openSubmodule_puts (name : String) :
    Puts True (openSubmodule name) ⟨out, .sect start k :: outer, d⟩ (d + 1)
    ⟨out.plus (element .utf8String (Text.utf8 name)),
      .token (out.plus (element .utf8String (Text.utf8 name))).size .pending :: .submodule out.size ::
        .sect start (k + 1) :: outer, d + 1⟩ := by
  refine .after rfl rfl (.after rfl rfl (.after rfl rfl ?_))
  exact .next (put_puts ..) (.quiet rfl rfl)

theorem closeSubmodule_puts (name body : List UInt8) {status : Section} (hs : status ≠ .running) :
    Puts True (closeSubmodule (d + 1))
      ⟨(out.plus name).plus body, .token (out.plus name).size status :: .submodule out.size :: outer, d + 1⟩ ()
      ⟨out.plus (element .submodule (name ++ element .token body)), outer, d⟩ := by
  have hdepth : ¬ (d + 1 ≠ d + 1 ∨ d + 1 = 0) := by omega
  refine .after rfl rfl ?_
  rw [if_neg hdepth]
  refine .after rfl rfl ?_
  simp only [List.head?_cons, hs, ite_false]
  refine .next (close_puts ..) (.after rfl rfl ?_)
  rw [Buffer.plus_plus]
  exact .next (close_puts ..) (.quiet rfl rfl)

theorem token_puts (t : NestedToken) : Puts True (token t) ⟨out, .sect start k :: outer, d⟩ ()
    ⟨out.plus (nestedNode t).encode, .sect start (k + 1) :: outer, d⟩ := by
  rw [encode_nestedNode]
  exact .after rfl rfl (put_puts ..)

/-! ## Whole claim sets -/

theorem claims_puts (cs : List Claim) : Puts (∀ c ∈ cs, c.Placed) (renderer.claims cs)
    ⟨out, .token start .pending :: outer, d⟩ ()
    ⟨out.plus (Node.encodeAll (cs.map claimNode)), .token start .pending :: outer, d⟩ := by
  induction cs generalizing out with
  | nil =>
    rw [List.map_nil, Node.encodeAll, Buffer.plus_nil]
    exact .mono (.quiet rfl rfl) (by simp)
  | cons c cs ih =>
    rw [List.map_cons, Node.encodeAll, ← Buffer.plus_plus, Writer.claims]
    exact .mono (.bind (claim_puts ..) (ih _)) List.forall_mem_cons

def lastStatus : List Entry → Section
  | [] => .pending
  | _ :: _ => .ended

theorem lastStatus_ne_running (es : List Entry) : lastStatus es ≠ .running := by
  cases es <;> exact nofun

variable {limit : Nat}

theorem within_max {depth a b : Nat} {p q : Prop} : depth + max a b ≤ limit ∧ p ∧ q ↔
    (depth + a ≤ limit ∧ p) ∧ depth + b ≤ limit ∧ q := by
  have hmax : depth + max a b ≤ limit ↔ depth + a ≤ limit ∧ depth + b ≤ limit := by omega
  rw [hmax]
  exact and_and_and_comm

mutual

theorem entry_puts : ∀ (e : Entry) {depth : Nat} (out : Buffer) (outer : List Frame) (d k start : Nat),
    depth ≤ limit → Puts (depth + e.depth ≤ limit ∧ e.Placed) (renderer.entry limit depth e)
      ⟨out, .sect start k :: outer, d⟩ ()
      ⟨out.plus (entryNode e).encode, .sect start (k + 1) :: outer, d⟩
  | .token t, depth, out, outer, d, k, start, hd => by
    rw [Writer.entry, entryNode]
    exact .mono (.after rfl rfl (token_puts ..)) (iff_true_intro ⟨hd, trivial⟩)
  | .submodule name cs es, depth, out, outer, d, k, start, hd => by
    rw [Writer.entry, Entry.depth, Entry.Placed]
    by_cases hl : limit ≤ depth
    · rw [if_pos hl]
      exact .refuse (by omega) ⟨.tooDeep limit, _, rfl, trivial⟩ rfl
    · rw [if_neg hl, encode_submodule]
      have hinner := bracket_puts es (((out.plus (element .utf8String (Text.utf8 name))).plus
        (Node.encodeAll (cs.map claimNode)))) (.submodule out.size :: .sect start (k + 1) :: outer) (d + 1)
        (out.plus (element .utf8String (Text.utf8 name))).size
        (Nat.lt_of_not_le hl)
      rw [Buffer.plus_plus _ (Node.encodeAll (cs.map claimNode))] at hinner
      refine .mono (.next (openSubmodule_puts ..) (.bind (claims_puts _ _ _ _ cs) (.bind hinner
        (closeSubmodule_puts _ _ _ _ _ (lastStatus_ne_running es))))) ?_
      rw [and_true, Nat.succ_add_eq_add_succ]
      exact and_left_comm

theorem bracket_puts : ∀ (es : List Entry) {depth : Nat} (out : Buffer) (outer : List Frame) (d start : Nat),
    depth ≤ limit → Puts (depth + Entry.deepest es ≤ limit ∧ Entry.AllPlaced es) (renderer.bracket limit depth es)
      ⟨out, .token start .pending :: outer, d⟩ ()
      ⟨out.plus (Node.encodeAll (sectionNodes es)), .token start (lastStatus es) :: outer, d⟩
  | [], depth, out, outer, d, start, hd => by
    rw [Writer.bracket, sectionNodes, Node.encodeAll, Buffer.plus_nil]
    exact .mono (.quiet rfl rfl) (iff_true_intro ⟨hd, trivial⟩)
  | first :: rest, depth, out, outer, d, start, hd => by
    have hbody : (Node.encodeAll (sectionNodes (first :: rest))) =
        element .sect ((entryNode first).encode ++ Node.encodeAll (entryNodes rest)) := by
      rw [encode_sectionNodes, entryNodes]
      rfl
    have hrest := entries_puts rest (out.plus (entryNode first).encode) (.token start .running :: outer) d (0 + 1)
      out.size hd
    rw [Buffer.plus_plus, Nat.zero_add, Nat.add_comm 1] at hrest
    rw [Writer.bracket, hbody, Entry.deepest, Entry.AllPlaced]
    refine .mono (.next (startSection_puts ..) (.bind (entry_puts first out _ d 0 _ hd) (.bind hrest
      (endSection_puts ..)))) ?_
    rw [and_true]
    exact within_max

theorem entries_puts : ∀ (es : List Entry) {depth : Nat} (out : Buffer) (outer : List Frame) (d k start : Nat),
    depth ≤ limit → Puts (depth + Entry.deepest es ≤ limit ∧ Entry.AllPlaced es) (renderer.entries limit depth es)
      ⟨out, .sect start k :: outer, d⟩ ()
      ⟨out.plus (Node.encodeAll (entryNodes es)), .sect start (k + es.length) :: outer, d⟩
  | [], depth, out, outer, d, k, start, hd => by
    rw [Writer.entries, entryNodes, Node.encodeAll, Buffer.plus_nil]
    exact .mono (.quiet rfl rfl) (iff_true_intro ⟨hd, trivial⟩)
  | first :: rest, depth, out, outer, d, k, start, hd => by
    rw [Writer.entries, entryNodes, Node.encodeAll, ← Buffer.plus_plus, Entry.deepest, Entry.AllPlaced,
      List.length_cons, Nat.add_comm rest.length, ← Nat.add_assoc]
    refine .mono (.bind (entry_puts first out outer d k start hd) ?_) within_max
    exact entries_puts rest _ outer d (k + 1) start hd

end

theorem deliver_puts (m : ClaimSet) : Puts (m.depth ≤ limit ∧ m.Placed) (renderer.deliver limit m)
    ⟨out, [.token 0 .pending], d⟩ () ⟨out.plus (tokenNode m).content, [.token 0 .ended], d⟩ := by
  obtain ⟨cs, es⟩ := m
  have hcontent : (tokenNode ⟨cs, es⟩).content =
      Node.encodeAll (cs.map claimNode) ++ Node.encodeAll (sectionNodes es) := by
    rw [tokenNode, Node.content, Node.encodeAll_append]
  rw [hcontent, ← Buffer.plus_plus, Writer.deliver, ClaimSet.depth, ClaimSet.Placed]
  generalize hbase : out.plus (Node.encodeAll (cs.map claimNode)) = base
  have hclaims := claims_puts out [] d 0 cs
  rw [hbase] at hclaims
  refine .mono (.bind hclaims (.next (startSection_puts ..) ?_)) and_left_comm
  cases es with
  | nil =>
    rw [Writer.entries, sectionNodes, Node.encodeAll, Buffer.plus_nil]
    exact .mono (.after rfl rfl (endSection_empty ..)) (iff_true_intro ⟨Nat.zero_le _, trivial⟩)
  | cons first rest =>
    have hentries := entries_puts (first :: rest) base [.token 0 .running] d 0 base.size (Nat.zero_le limit)
    rw [Nat.zero_add] at hentries
    rw [encode_sectionNodes]
    refine .mono (.bind hentries (endSection_puts ..)) ?_
    rw [and_true]

variable {out} {m : ClaimSet}

theorem complete_puts (hout : out.size = 0) : Puts (m.depth ≤ limit ∧ m.Placed)
    (do renderer.deliver limit m; complete) ⟨out, [.token 0 .pending], d⟩ ()
      ⟨out.plus (tokenNode m).encode, [], d⟩ := by
  have hclose := close_puts out [] d .token (tokenNode m).content
  rw [hout] at hclose
  exact .mono (.bind (deliver_puts ..) (.after rfl rfl (.after rfl rfl hclose))) (and_true _).symm.to_iff

/-- A pass over a claim set that is known. -/
def whole (limit : Nat) (m : ClaimSet) (out : Buffer) : Step TokenWriter Buffer := do
  TokenWriter.start out
  renderer.deliver limit m
  finish

theorem whole_apply (t : TokenWriter) : whole limit m out t = (do
    (do renderer.deliver limit m; complete)
    modifyGet fun (s : TokenWriter) => (s.out, { s with out := .emptyMeasuring }))
      ⟨out, [.token 0 .pending], 0⟩ := by
  rw [bind_assoc]
  rfl

theorem whole_of_fits (hm : m.depth ≤ limit ∧ m.Placed) (hout : out.size = 0)
    (hfits : (out.plus (tokenNode m).encode).Fits) (t : TokenWriter) :
    whole limit m out t = (.ok (out.plus (tokenNode m).encode), {}) := by
  rw [whole_apply, Step.bind_of_ok ((complete_puts 0 hout).written hm hfits)]
  rfl

theorem whole_overflows (hm : m.depth ≤ limit ∧ m.Placed) (hout : out.size = 0) (hroom : out.Fits)
    (hfits : ¬(out.plus (tokenNode m).encode).Fits) (t : TokenWriter) :
    ∃ e t', whole limit m out t = (.error e, t') ∧ out.Overflows e := by
  obtain ⟨e, t', he, ho⟩ := (complete_puts 0 hout).overflow hm hroom hfits
  exact ⟨e, t', by rw [whole_apply, Step.bind_of_error he], ho⟩

theorem whole_refused (hm : ¬(m.depth ≤ limit ∧ m.Placed)) (hout : out.size = 0) (hroom : out.Fits)
    (t : TokenWriter) : ∃ e t', whole limit m out t = (.error e, t') ∧ (out.Overflows e ∨ Unfit e) := by
  obtain ⟨e, t', he, ho⟩ := (complete_puts 0 hout).refused hm hroom
  exact ⟨e, t', by rw [whole_apply, Step.bind_of_error he], ho⟩

end TokenWriter

end ClaimRelay.Binary
