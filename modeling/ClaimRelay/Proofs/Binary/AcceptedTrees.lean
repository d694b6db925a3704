import ClaimRelay.Binary.Token
import ClaimRelay.Proofs.Binary.Grammar

/-!
# Trees that are accepted

Reading goes by way of a tree of elements that any tag may be in. Here is which bytes have which tree, and, for
each part of a token, what shape the trees have that are accepted for it.
-/

namespace ClaimRelay.Binary

theorem Tag.byte_ofByte (b : UInt8) : (Tag.ofByte b).byte = b := by
  unfold Tag.ofByte
  cases h : Tag.known.find? (·.byte == b) with
  | none => rfl
  | some tag =>
    have hfound := List.find?_some h
    exact eq_of_beq hfound

/-! ## Trees -/

namespace Node

/-- Whether bytes are one element with the tree `node`, in which branches may still nest so deep. -/
def Reads (nesting : Nat) (node : Node) (bytes : List UInt8) : Prop :=
  ∃ x : Element, Nonempty (ElementOf x.tag x.body bytes) ∧ ofElement nesting x = .ok node

inductive ReadsAll (nesting : Nat) : List Node → List UInt8 → Prop
  | nil : ReadsAll nesting [] []
  | cons {node : Node} {nodes : List Node} {bytes rest : List UInt8} (h : Reads nesting node bytes)
    (hs : ReadsAll nesting nodes rest) : ReadsAll nesting (node :: nodes) (bytes ++ rest)

variable {n : Nat} {tag : Tag} {node : Node} {nodes : List Node} {bytes body : List UInt8}

theorem readsAll_iff :
    ReadsAll n nodes body ↔ (splitAll body).2 = none ∧ (splitAll body).1.mapM (ofElement n) = .ok nodes := by
  constructor
  · intro h
    induction h with
    | nil =>
      rw [splitAll]
      exact ⟨rfl, rfl⟩
    | cons h _ ih =>
      obtain ⟨x, ⟨e⟩, hx⟩ := h
      rw [splitAll_cons e]
      exact ⟨ih.1, mapM_cons_eq_ok.mpr ⟨_, _, hx, ih.2, rfl⟩⟩
  · rintro ⟨hnone, hok⟩
    fun_induction splitAll body generalizing nodes with
    | case1 bytes hempty =>
      cases hok
      obtain rfl := List.isEmpty_iff.mp hempty
      exact .nil
    | case2 bytes _ refusal hs => cases hnone
    | case3 bytes _ x rest hs _ more refusal hm ih =>
      obtain ⟨front, rfl, e⟩ := splitElement_eq_ok hs
      obtain ⟨node, nodes, hx, hmore, rfl⟩ := mapM_cons_eq_ok.mp hok
      rw [hm] at ih
      exact .cons ⟨x, e, hx⟩ (ih hnone hmore)

theorem ofElement_eq_ok {x : Element} : ofElement n x = .ok node ↔
    (Tag.isConstructed x.tag = false ∧ node = leaf (.ofByte x.tag) x.body) ∨
      (Tag.isConstructed x.tag = true ∧ ∃ m nodes, n = m + 1 ∧ node = branch (.ofByte x.tag) nodes ∧
        ReadsAll m nodes x.body) := by
  unfold ofElement
  cases hx : Tag.isConstructed x.tag with
  | false => simp [pure_eq_ok, eq_comm]
  | true =>
    cases n with
    | zero => exact ⟨nofun, fun h => by rcases h with ⟨h, _⟩ | ⟨_, _, _, h, _⟩ <;> cases h⟩
    | succ n =>
      rcases hs : splitAll x.body with ⟨parts, refusal⟩
      have hall (nodes : List Node) :
          ReadsAll n nodes x.body ↔ refusal = none ∧ parts.mapM (ofElement n) = .ok nodes := by
        rw [readsAll_iff, hs]
      constructor
      · intro h
        obtain ⟨children, hc, h⟩ := bind_eq_ok.mp h
        cases refusal with
        | some refusal => cases h
        | none =>
          cases h
          exact .inr ⟨rfl, n, children, rfl, rfl, (hall _).mpr ⟨rfl, hc⟩⟩
      · rintro (⟨h, _⟩ | ⟨_, m, nodes, hm, rfl, hr⟩)
        · cases h
        · cases hm
          obtain ⟨rfl, hc⟩ := (hall nodes).mp hr
          simp only [ite_true, hc, ok_bind]
          rfl

theorem reads_leaf : Reads n (leaf tag body) bytes ↔
    (Tag.ofByte tag.byte = tag ∧ Tag.isConstructed tag.byte = false) ∧ Nonempty (ElementOf tag.byte body bytes) := by
  unfold Reads
  simp only [ofElement_eq_ok]
  constructor
  · rintro ⟨x, e, ⟨hleaf, heq⟩ | ⟨_, _, _, _, heq, _⟩⟩
    · cases heq
      rw [Tag.byte_ofByte]
      exact ⟨⟨rfl, hleaf⟩, e⟩
    · cases heq
  · rintro ⟨⟨htag, hleaf⟩, e⟩
    exact ⟨⟨tag.byte, body⟩, e, .inl ⟨hleaf, by rw [htag]⟩⟩

theorem reads_branch : Reads n (branch tag nodes) bytes ↔
    (Tag.ofByte tag.byte = tag ∧ Tag.isConstructed tag.byte = true) ∧ ∃ m body, n = m + 1 ∧
      Nonempty (ElementOf tag.byte body bytes) ∧ ReadsAll m nodes body := by
  unfold Reads
  simp only [ofElement_eq_ok]
  constructor
  · rintro ⟨x, e, ⟨_, heq⟩ | ⟨hbranch, m, _, rfl, heq, hs⟩⟩
    · cases heq
    · cases heq
      rw [Tag.byte_ofByte]
      exact ⟨⟨rfl, hbranch⟩, m, x.body, rfl, e, hs⟩
  · rintro ⟨⟨htag, hbranch⟩, m, body, rfl, e, hs⟩
    exact ⟨⟨tag.byte, body⟩, e, .inr ⟨hbranch, m, nodes, rfl, by rw [htag], hs⟩⟩

theorem reads_parts (h : Tag.ofByte tag.byte = tag ∧ Tag.isConstructed tag.byte = true)
    (e : ElementOf tag.byte body bytes) (hs : ReadsAll n nodes body) : Reads (n + 1) (branch tag nodes) bytes :=
  reads_branch.mpr ⟨h, n, body, rfl, ⟨e⟩, hs⟩

theorem ReadsAll.single (hr : ReadsAll n [node] bytes) : Reads n node bytes := by
  cases hr with
  | cons h hs =>
    cases hs
    rwa [List.append_nil]

theorem ReadsAll.append {more : List Node} (hr : ReadsAll n (nodes ++ more) bytes) :
    ∃ front back, bytes = front ++ back ∧ ReadsAll n nodes front ∧ ReadsAll n more back := by
  induction nodes generalizing bytes with
  | nil => exact ⟨[], bytes, rfl, .nil, hr⟩
  | cons node nodes ih =>
    cases hr with
    | cons h hs =>
      obtain ⟨front, back, rfl, hfront, hback⟩ := ih hs
      exact ⟨_, back, (List.append_assoc ..).symm, .cons h hfront, hback⟩

theorem ReadsAll.one (h : Reads n node bytes) : ReadsAll n [node] bytes := by
  have := ReadsAll.cons h .nil
  rwa [List.append_nil] at this

theorem ReadsAll.both {more : List Node} {rest : List UInt8} (hs : ReadsAll n nodes bytes)
    (hm : ReadsAll n more rest) : ReadsAll n (nodes ++ more) (bytes ++ rest) := by
  induction hs with
  | nil => exact hm
  | cons h _ ih =>
    rw [List.append_assoc]
    exact .cons h ih

/-! ## Accepted trees, by their shapes -/

theorem data_eq_ok {place : Place} : node.data tag place = .ok body ↔ node = leaf tag body := by
  unfold data
  split
  · rename_i t bytes
    split
    · simp_all [pure_eq_ok]
    · rename_i hne
      exact ⟨nofun, fun h => absurd (leaf.inj h).1 hne⟩
  · exact ⟨nofun, nofun⟩

theorem text_eq_ok {place : Place} {s : String} : node.text place = .ok s ↔ node = leaf .utf8String (Text.utf8 s) := by
  unfold text
  simp only [bind_eq_ok, data_eq_ok, decodeText_eq_ok]
  exact ⟨fun ⟨_, h, hs⟩ => hs ▸ h, fun h => ⟨_, h, rfl⟩⟩

theorem plainValue_eq_ok {v : Value} :
    node.plainValue = .ok v ↔ ∃ tag body, node = leaf tag body ∧ Primitive tag v body := by
  constructor
  · intro h
    unfold plainValue at h
    split at h
    · cases h
    · rename_i body
      split at h
      · rename_i hb
        cases h
        exact ⟨_, _, rfl, hb ▸ .boolean false⟩
      · split at h
        · rename_i hb
          cases h
          exact ⟨_, _, rfl, hb ▸ .boolean true⟩
        · cases h
    · obtain ⟨v, hv, rfl⟩ := map_eq_ok.mp h
      obtain ⟨hlen, hvalue⟩ := decodeSigned_eq_ok.mp hv
      exact ⟨_, _, rfl, .integer hlen hvalue⟩
    · obtain ⟨v, hv, rfl⟩ := map_eq_ok.mp h
      obtain ⟨hlen, hvalue⟩ := decodeUnsigned_eq_ok.mp hv
      exact ⟨_, _, rfl, .unsigned hlen hvalue⟩
    · obtain ⟨v, hv, rfl⟩ := map_eq_ok.mp h
      obtain ⟨hlen, hvalue⟩ := decodeDouble_eq_ok.mp hv
      exact ⟨_, _, rfl, .double hlen hvalue⟩
    · obtain ⟨s, hs, rfl⟩ := map_eq_ok.mp h
      exact ⟨_, _, rfl, decodeText_eq_ok.mp hs ▸ .text s⟩
    · cases h
      exact ⟨_, _, rfl, .octets _⟩
    · split at h
      · rename_i hb
        cases h
        exact ⟨_, _, rfl, hb ▸ .null⟩
      · cases h
    · cases h
  · rintro ⟨tag, body, rfl, hp⟩
    cases hp with
    | boolean v => cases v <;> rfl
    | integer hlen hv => exact map_eq_ok.mpr ⟨_, decodeSigned_eq_ok.mpr ⟨hlen, hv⟩, rfl⟩
    | unsigned hlen hv => exact map_eq_ok.mpr ⟨_, decodeUnsigned_eq_ok.mpr ⟨hlen, hv⟩, rfl⟩
    | double hlen hv => exact map_eq_ok.mpr ⟨_, decodeDouble_eq_ok.mpr ⟨hlen, hv⟩, rfl⟩
    | text s => exact map_eq_ok.mpr ⟨_, decodeText_utf8 s, rfl⟩
    | octets => rfl
    | null => rfl

theorem addFields_eq_ok {p q : PartialLocation} :
    addFields p nodes = .ok q ↔ ∃ cs, nodes.mapM claim = .ok cs ∧ cs.foldlM PartialLocation.addField p = .ok q := by
  induction nodes generalizing p with
  | nil =>
    rw [addFields]
    exact ⟨fun h => ⟨[], rfl, h⟩, fun ⟨cs, hcs, h⟩ => by cases hcs; exact h⟩
  | cons node rest ih =>
    rw [addFields]
    simp only [bind_eq_ok, ih, mapM_cons_eq_ok]
    constructor
    · intro ⟨c, hc, p', hp, cs, hcs, h⟩
      refine ⟨c :: cs, ⟨c, cs, hc, hcs, rfl⟩, ?_⟩
      rw [List.foldlM_cons]
      exact bind_eq_ok.mpr ⟨p', hp, h⟩
    · rintro ⟨_, ⟨c, cs, hc, hcs, rfl⟩, h⟩
      rw [List.foldlM_cons] at h
      obtain ⟨p', hp, h⟩ := bind_eq_ok.mp h
      exact ⟨c, hc, p', hp, cs, hcs, h⟩

theorem value_eq_ok {label : Label} {v : Value} : value label node = .ok v ↔
    (∃ tag body, node = leaf tag body ∧ Primitive tag v body) ∨
      ∃ nodes cs l, node = branch .location nodes ∧ label = locationLabel ∧ v = .location l ∧
        nodes.mapM claim = .ok cs ∧ Fields l cs := by
  constructor
  · intro h
    unfold value at h
    split at h
    · rename_i fields
      split at h
      · rename_i hlabel
        obtain ⟨p, hp, h⟩ := bind_eq_ok.mp h
        obtain ⟨l, hl, rfl⟩ := map_eq_ok.mp h
        obtain ⟨cs, hcs, hread⟩ := addFields_eq_ok.mp hp
        exact .inr ⟨_, cs, l, rfl, hlabel, rfl, hcs, PartialLocation.complete_fields.mp ⟨p, hread, hl⟩⟩
      · cases h
    · exact .inl (plainValue_eq_ok.mp h)
  · rintro (⟨tag, body, rfl, hp⟩ | ⟨nodes, cs, l, rfl, rfl, rfl, hcs, hf⟩)
    · exact plainValue_eq_ok.mpr ⟨tag, body, rfl, hp⟩
    · obtain ⟨p, hread, hl⟩ := PartialLocation.complete_fields.mpr hf
      have hp : addFields {} nodes = .ok p := addFields_eq_ok.mpr ⟨cs, hcs, hread⟩
      rw [value, if_pos rfl, hp, ok_bind, hl]
      rfl

theorem claim_eq_ok {c : Claim} : claim node = .ok c ↔ ∃ body inner, node = branch .claim [leaf .integer body, inner] ∧
    Primitive .integer (.int c.label) body ∧ value c.label inner = .ok c.value := by
  constructor
  · intro h
    unfold claim at h
    split at h
    · rename_i label inner
      obtain ⟨body, hb, h⟩ := bind_eq_ok.mp h
      obtain ⟨k, hk, h⟩ := bind_eq_ok.mp h
      obtain ⟨v, hv, h⟩ := bind_eq_ok.mp h
      cases h
      obtain rfl := data_eq_ok.mp hb
      obtain ⟨hlen, hvalue⟩ := decodeSigned_eq_ok.mp hk
      exact ⟨body, inner, rfl, .integer hlen hvalue, hv⟩
    · cases h
    · cases h
    · cases h
  · rintro ⟨body, inner, rfl, hp, hv⟩
    cases hp with
    | integer hlen hvalue =>
      have hk := decodeSigned_eq_ok.mpr ⟨hlen, hvalue⟩
      rw [claim, data_eq_ok.mpr rfl, ok_bind, hk, ok_bind, hv]
      rfl

theorem entries_eq_mapM (nodes : List Node) : entries nodes = nodes.mapM entry := by
  induction nodes with
  | nil =>
    rw [entries]
    rfl
  | cons node rest ih =>
    rw [entries, List.mapM_cons, ih]

theorem body_true_eq_ok {p : List Claim × List Entry} : Node.body true nodes = .ok p ↔ nodes = [] ∧ p = ([], []) := by
  cases nodes with
  | nil =>
    rw [Node.body]
    exact ⟨fun h => ⟨rfl, (Except.ok.inj h).symm⟩, fun h => h.2 ▸ rfl⟩
  | cons node rest =>
    refine ⟨fun h => ?_, nofun⟩
    rw [Node.body.eq_def] at h
    simp only at h
    split at h <;> cases h

/-- Claims, then at most one section. -/
theorem body_eq_ok {cs : List Claim} {es : List Entry} : Node.body false nodes = .ok (cs, es) ↔
    ∃ claimNodes rest, nodes = claimNodes ++ rest ∧ claimNodes.mapM claim = .ok cs ∧
      (rest = [] ∧ es = [] ∨ ∃ inner, rest = [branch .sect inner] ∧ inner.mapM entry = .ok es) := by
  constructor
  · intro h
    induction nodes generalizing cs with
    | nil =>
      rw [Node.body] at h
      cases h
      exact ⟨[], [], rfl, rfl, .inl ⟨rfl, rfl⟩⟩
    | cons node rest ih =>
      rw [Node.body.eq_def] at h
      simp only at h
      split at h
      · obtain ⟨c, hc, h⟩ := bind_eq_ok.mp h
        obtain ⟨⟨cs, es⟩, hrest, h⟩ := bind_eq_ok.mp h
        cases h
        obtain ⟨claimNodes, tail, rfl, hcs, htail⟩ := ih hrest
        exact ⟨_ :: claimNodes, tail, rfl, mapM_cons_eq_ok.mpr ⟨c, cs, hc, hcs, rfl⟩, htail⟩
      · obtain ⟨here, hhere, h⟩ := bind_eq_ok.mp h
        obtain ⟨⟨cs, more⟩, hrest, h⟩ := bind_eq_ok.mp h
        cases h
        obtain ⟨rfl, hnone⟩ := body_true_eq_ok.mp hrest
        cases hnone
        rw [entries_eq_mapM] at hhere
        exact ⟨[], _, rfl, rfl, .inr ⟨_, rfl, by rw [hhere, List.append_nil]⟩⟩
      · cases h
      · cases h
  · rintro ⟨claimNodes, rest, rfl, hcs, hrest⟩
    induction claimNodes generalizing cs with
    | nil =>
      cases hcs
      rcases hrest with ⟨rfl, rfl⟩ | ⟨inner, rfl, hes⟩
      · rw [List.nil_append, Node.body]
        rfl
      · rw [List.nil_append, Node.body, entries_eq_mapM, hes]
        simp only [Bool.false_eq_true, ite_false, ok_bind, body_true_eq_ok.mpr ⟨rfl, rfl⟩, List.append_nil]
        rfl
    | cons node claimNodes ih =>
      obtain ⟨c, cs, hc, hmore, rfl⟩ := mapM_cons_eq_ok.mp hcs
      obtain ⟨labelBody, inner, rfl, -⟩ := claim_eq_ok.mp hc
      rw [List.cons_append, Node.body, hc]
      simp only [Bool.false_eq_true, ite_false, ok_bind, ih hmore, pure_eq_ok]

theorem claimSet_eq_ok {m : ClaimSet} : claimSet node = .ok m ↔
    ∃ parts, node = branch .token parts ∧ Node.body false parts = .ok (m.claims, m.entries) := by
  constructor
  · intro h
    unfold claimSet at h
    split at h
    · obtain ⟨⟨cs, es⟩, hbody, h⟩ := bind_eq_ok.mp h
      cases h
      exact ⟨_, rfl, hbody⟩
    · cases h
    · cases h
  · rintro ⟨parts, rfl, hbody⟩
    rw [claimSet, hbody]
    rfl

theorem entry_eq_ok {entry : Entry} : Node.entry node = .ok entry ↔
    (∃ name inner m, node = branch .submodule [leaf .utf8String (Text.utf8 name), inner] ∧ claimSet inner = .ok m ∧
      entry = .submodule name m.claims m.entries) ∨
    ∃ name kind kindBody content, node = branch .nested [leaf .utf8String (Text.utf8 name), leaf .integer kindBody,
        leaf .octetString content] ∧ Primitive .integer (.int kind) kindBody ∧
      (0 ≤ kind.toInt ∧ kind.toInt < UInt32.size) ∧
      entry = .token ⟨.ofCode (UInt32.ofNat kind.toInt.toNat), name, content⟩ := by
  have hcode (kind : Int64) : ¬(kind < 0 ∨ UInt32.size ≤ kind.toInt) ↔ 0 ≤ kind.toInt ∧ kind.toInt < UInt32.size := by
    rw [Int64.lt_iff_toInt_lt, Int64.toInt_zero]
    omega
  constructor
  · intro h
    unfold Node.entry at h
    split at h
    · obtain ⟨name, hname, h⟩ := bind_eq_ok.mp h
      obtain ⟨m, hm, h⟩ := bind_eq_ok.mp h
      cases h
      obtain rfl := text_eq_ok.mp hname
      exact .inl ⟨name, _, m, rfl, hm, rfl⟩
    · cases h
    · obtain ⟨kindBody, hbody, h⟩ := bind_eq_ok.mp h
      obtain ⟨kind, hkind, h⟩ := bind_eq_ok.mp h
      split at h
      · cases h
      · rename_i hrange
        obtain ⟨name, hname, h⟩ := bind_eq_ok.mp h
        obtain ⟨content, hcontent, h⟩ := bind_eq_ok.mp h
        cases h
        obtain rfl := data_eq_ok.mp hbody
        obtain rfl := text_eq_ok.mp hname
        obtain rfl := data_eq_ok.mp hcontent
        obtain ⟨hlen, hvalue⟩ := decodeSigned_eq_ok.mp hkind
        exact .inr ⟨name, kind, kindBody, content, rfl, .integer hlen hvalue, (hcode kind).mp hrange, rfl⟩
    · cases h
    · cases h
    · cases h
  · rintro (⟨name, inner, m, rfl, hm, rfl⟩ | ⟨name, kind, kindBody, content, rfl, hp, hrange, rfl⟩)
    · rw [Node.entry, text_eq_ok.mpr rfl, ok_bind, hm]
      rfl
    · cases hp with
      | integer hlen hvalue =>
        rw [Node.entry, data_eq_ok.mpr rfl, ok_bind, decodeSigned_eq_ok.mpr ⟨hlen, hvalue⟩, ok_bind,
          if_neg ((hcode kind).mpr hrange), text_eq_ok.mpr rfl, data_eq_ok.mpr rfl]
        rfl

end Node

end ClaimRelay.Binary
