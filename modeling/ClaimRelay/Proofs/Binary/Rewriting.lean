import ClaimRelay.Proofs.Binary.Acceptance
import ClaimRelay.Proofs.Binary.RoundTrip
import ClaimRelay.Proofs.Binary.Shortest

/-!
# Tokens written again

A claim set has many tokens: lengths and integers have longer spellings, a section can be there without an entry,
and the fields of a location can come in any order. What is written is one of them and none is shorter. So a token
that is read and written again shrinks to one that stays as it is.
-/

namespace ClaimRelay.Binary

/-! ## What is read can be written -/

theorem PrimitiveOf.plain {tag : Tag} {v : Value} {bytes : List UInt8} (d : PrimitiveOf tag v bytes) :
    v.ownLabel? = none := by
  obtain ⟨hp, -⟩ := d
  cases hp <;> rfl

theorem ClaimOf.placed {n : Nat} {c : Claim} {bytes : List UInt8} (d : ClaimOf n c bytes) : c.Placed := by
  intro own ho
  cases d with
  | claim l d e =>
    cases d with
    | primitive d =>
      rw [d.plain] at ho
      cases ho
    | location d h e =>
      cases ho
      rfl

theorem ClaimsOf.placed : ∀ {n : Nat} {cs : List Claim} {bytes : List UInt8}, ClaimsOf n cs bytes →
    ∀ c ∈ cs, c.Placed
  | _, [], _, .nil => List.forall_mem_nil _
  | _, _ :: _, _, .cons d ds => List.forall_mem_cons.mpr ⟨d.placed, ds.placed⟩

mutual

theorem TokenOf.placed : ∀ {n : Nat} {cs : List Claim} {es : List Entry} {bytes : List UInt8}, TokenOf n cs es bytes →
    (∀ c ∈ cs, c.Placed) ∧ Entry.AllPlaced es
  | _, _, _, _, .token d s _ => ⟨d.placed, s.placed⟩

theorem SectionOf.placed : ∀ {n : Nat} {es : List Entry} {bytes : List UInt8}, SectionOf n es bytes →
    Entry.AllPlaced es
  | _, _, _, .absent => trivial
  | _, _, _, .present d _ => d.placed

theorem EntriesOf.placed : ∀ {n : Nat} {es : List Entry} {bytes : List UInt8}, EntriesOf n es bytes →
    Entry.AllPlaced es
  | _, _, _, .nil => trivial
  | _, _, _, .cons d ds => ⟨d.placed, ds.placed⟩

theorem EntryOf.placed : ∀ {n : Nat} {entry : Entry} {bytes : List UInt8}, EntryOf n entry bytes → entry.Placed
  | _, _, _, .submodule _ d _ => d.placed
  | _, _, _, .nested .. => trivial

end

/-! ## Fields in the order they are written -/

theorem mapM_fieldNode {cs : List Claim} (h : ∀ c ∈ cs, c.value.ownLabel? = none) :
    (cs.map fieldNode).mapM Node.claim = .ok cs := by
  induction cs with
  | nil => rfl
  | cons c cs ih =>
    obtain ⟨hc, hcs⟩ := List.forall_mem_cons.mp h
    have hread : Node.claim (fieldNode c) = .ok c := claim_labelledNode _ (value_plainNode _ hc)
    exact mapM_cons_eq_ok.mpr ⟨c, cs, hread, ih hcs, rfl⟩

theorem fields_locationFields (l : Location) : Fields l (locationFields l) := by
  obtain ⟨cs, hcs, hread⟩ := Node.addFields_eq_ok.mp (addFields_location l)
  rw [mapM_fieldNode (locationFields_plain l)] at hcs
  cases hcs
  exact PartialLocation.complete_fields.mp ⟨_, hread, rfl⟩

theorem Fields.perm {l : Location} {xs ys : List Claim} (hx : Fields l xs) (hy : Fields l ys) : xs.Perm ys := by
  have nodup {zs : List Claim} (hz : Fields l zs) : zs.Nodup :=
    (List.pairwise_map.mp hz.distinct).imp fun hne heq => hne (congrArg Claim.label heq)
  refine (List.perm_ext_iff_of_nodup (nodup hx) (nodup hy)).mpr fun c => ?_
  exact (hx.found c.label c.value).trans (hy.found c.label c.value).symm

theorem length_encodeAll_perm {xs ys : List Claim} (h : xs.Perm ys) :
    (Node.encodeAll (xs.map claimNode)).length = (Node.encodeAll (ys.map claimNode)).length := by
  induction h with
  | nil => rfl
  | cons c _ ih => simp only [List.map_cons, Node.encodeAll, List.length_append, ih]
  | swap c d cs =>
    simp only [List.map_cons, Node.encodeAll, List.length_append]
    omega
  | trans _ _ ih₁ ih₂ => exact ih₁.trans ih₂

/-! ## The shortest derivation -/

/-- Whether `short` has a derivation too, and is no longer. -/
structure Shortens (P : List UInt8 → Type) (short bytes : List UInt8) : Prop where
  derived : Nonempty (P short)
  le : short.length ≤ bytes.length

theorem append_le {xs ys xs' ys' : List UInt8} (hx : xs.length ≤ xs'.length) (hy : ys.length ≤ ys'.length) :
    (xs ++ ys).length ≤ (xs' ++ ys').length := by
  rw [List.length_append, List.length_append]
  exact Nat.add_le_add hx hy

theorem ElementOf.shortens {tag : Tag} {body shorter bytes : List UInt8} (e : ElementOf tag.byte body bytes)
    (h : shorter.length ≤ body.length) : Shortens (ElementOf tag.byte shorter) (element tag shorter) bytes :=
  ⟨elementOf_element tag (Nat.lt_of_le_of_lt h e.lt_size), e.element_le h⟩

theorem Primitive.shortest {tag : Tag} {v : Value} {body : List UInt8} (h : Primitive tag v body) :
    ∃ shorter, encodePlain v = element tag shorter ∧ Primitive tag v shorter ∧ shorter.length ≤ body.length := by
  cases h with
  | boolean v => exact ⟨_, rfl, .boolean v, Nat.le_refl _⟩
  | @integer v _ hlen hv =>
    obtain ⟨hshort, hvalue⟩ := decodeSigned_eq_ok.mp (decodeSigned_encodeSigned v)
    have hle := (strips_sign.length (List.ne_nil_of_length_pos hlen.1)).2
    exact ⟨_, rfl, .integer hshort hvalue, encodeSigned_eq hlen hv ▸ hle⟩
  | @unsigned v _ hlen hv =>
    obtain ⟨hshort, hvalue⟩ := decodeUnsigned_eq_ok.mp (decodeUnsigned_encodeUnsigned v)
    have hle := (strips_zeros.length (List.ne_nil_of_length_pos hlen.1)).2
    exact ⟨_, rfl, .unsigned hshort hvalue, encodeUnsigned_eq hlen hv ▸ hle⟩
  | @double x _ hlen hv =>
    obtain ⟨hshort, hvalue⟩ := decodeDouble_eq_ok.mp (decodeDouble_encodeDouble x)
    exact ⟨_, rfl, .double hshort hvalue, Nat.le_of_eq (hshort.trans hlen.symm)⟩
  | text s => exact ⟨_, rfl, .text s, Nat.le_refl _⟩
  | octets body => exact ⟨_, rfl, .octets body, Nat.le_refl _⟩
  | null => exact ⟨_, rfl, .null, Nat.le_refl _⟩

theorem PrimitiveOf.shortens {tag : Tag} {v : Value} {bytes : List UInt8} (d : PrimitiveOf tag v bytes) :
    Shortens (PrimitiveOf tag v) (encodePlain v) bytes := by
  obtain ⟨hp, e⟩ := d
  obtain ⟨shorter, heq, hs, hle⟩ := hp.shortest
  obtain ⟨⟨e'⟩, hle'⟩ := e.shortens hle
  rw [heq]
  exact ⟨⟨hs, e'⟩, hle'⟩

theorem claimsOf_encodeAll {n : Nat} {cs : List Claim}
    (h : ∀ c ∈ cs, Nonempty (ClaimOf n c (claimNode c).encode)) :
    Nonempty (ClaimsOf n cs (Node.encodeAll (cs.map claimNode))) := by
  induction cs with
  | nil => exact ⟨.nil⟩
  | cons c cs ih =>
    obtain ⟨⟨d⟩, hcs⟩ := List.forall_mem_cons.mp h
    obtain ⟨ds⟩ := ih hcs
    exact ⟨.cons d ds⟩

theorem encode_location (l : Location) : (valueNode (.location l)).encode =
    element .location (Node.encodeAll ((locationFields l).map claimNode)) := by
  have hfields : (locationFields l).map fieldNode = (locationFields l).map claimNode := by
    apply List.map_congr_left
    intro c hc
    rw [fieldNode, claimNode, valueNode_plain (locationFields_plain l c hc)]
  rw [valueNode, hfields]
  rfl

mutual

theorem ClaimOf.shortens : ∀ {n : Nat} {c : Claim} {bytes : List UInt8}, ClaimOf n c bytes →
    Shortens (ClaimOf n c) (claimNode c).encode bytes
  | _, ⟨label, v⟩, _, .claim l d e => by
    obtain ⟨⟨l'⟩, hl⟩ := l.shortens
    obtain ⟨⟨d'⟩, hd⟩ := d.shortens
    obtain ⟨⟨e'⟩, he⟩ := e.shortens (append_le hl hd)
    rw [claimNode, encode_labelledNode]
    exact ⟨⟨.claim l' d' e'⟩, he⟩

theorem ValueOf.shortens : ∀ {n : Nat} {label : Label} {v : Value} {bytes : List UInt8}, ValueOf n label v bytes →
    Shortens (ValueOf n label v) (valueNode v).encode bytes
  | _, _, v, _, .primitive d => by
    obtain ⟨⟨d'⟩, hd⟩ := d.shortens
    rw [valueNode_plain d.plain, encode_plainNode d.plain]
    exact ⟨⟨.primitive d'⟩, hd⟩
  | _, _, .location l, _, .location d h e => by
    -- the fields are the same as those that are written, in some other order
    obtain ⟨hfields, hle⟩ := d.shortens
    have hperm := h.perm (fields_locationFields l)
    rw [length_encodeAll_perm hperm] at hle
    obtain ⟨ds⟩ := claimsOf_encodeAll fun c hc => hfields c (hperm.mem_iff.mpr hc)
    obtain ⟨⟨e'⟩, he⟩ := e.shortens hle
    rw [encode_location]
    exact ⟨⟨.location ds (fields_locationFields l) e'⟩, he⟩

theorem ClaimsOf.shortens : ∀ {n : Nat} {cs : List Claim} {bytes : List UInt8}, ClaimsOf n cs bytes →
    (∀ c ∈ cs, Nonempty (ClaimOf n c (claimNode c).encode)) ∧
      (Node.encodeAll (cs.map claimNode)).length ≤ bytes.length
  | _, _, _, .nil => ⟨List.forall_mem_nil _, Nat.le_refl _⟩
  | _, _, _, .cons d ds => by
    obtain ⟨hd, hle⟩ := d.shortens
    obtain ⟨hds, hles⟩ := ds.shortens
    exact ⟨List.forall_mem_cons.mpr ⟨hd, hds⟩, append_le hle hles⟩

end

theorem ofNat_code {kind : Int64} (h : 0 ≤ kind.toInt ∧ kind.toInt < UInt32.size) :
    Int64.ofNat (TokenKind.ofCode (UInt32.ofNat kind.toInt.toNat)).code.toNat = kind := by
  have hnat : kind.toInt.toNat < UInt32.size := by omega
  apply Int64.toInt_inj.mp
  rw [TokenKind.code_ofCode, UInt32.toNat_ofNat_of_lt' hnat, Int64.toInt_ofNat_of_lt (Nat.lt_trans hnat (by decide))]
  omega

mutual

theorem TokenOf.shortens : ∀ {n : Nat} {cs : List Claim} {es : List Entry} {bytes : List UInt8},
    TokenOf n cs es bytes → Shortens (TokenOf n cs es) (tokenNode ⟨cs, es⟩).encode bytes
  | _, cs, es, _, .token d s e => by
    obtain ⟨hd, hle⟩ := d.shortens
    obtain ⟨ds⟩ := claimsOf_encodeAll hd
    obtain ⟨⟨s'⟩, hs⟩ := s.shortens
    obtain ⟨⟨e'⟩, he⟩ := e.shortens (append_le hle hs)
    have htoken : (tokenNode ⟨cs, es⟩).encode = element .token
        (Node.encodeAll (cs.map claimNode) ++ Node.encodeAll (sectionNodes es)) := by
      rw [← Node.encodeAll_append]
      rfl
    rw [htoken]
    exact ⟨⟨.token ds s' e'⟩, he⟩

theorem SectionOf.shortens : ∀ {n : Nat} {es : List Entry} {bytes : List UInt8}, SectionOf n es bytes →
    Shortens (SectionOf n es) (Node.encodeAll (sectionNodes es)) bytes
  | _, _, _, .absent => ⟨⟨.absent⟩, Nat.zero_le _⟩
  | _, [], _, .present _ _ => ⟨⟨.absent⟩, Nat.zero_le _⟩
  | _, first :: rest, _, .present d e => by
    obtain ⟨⟨d'⟩, hle⟩ := d.shortens
    obtain ⟨⟨e'⟩, he⟩ := e.shortens hle
    rw [encode_sectionNodes]
    exact ⟨⟨.present d' e'⟩, he⟩

theorem EntriesOf.shortens : ∀ {n : Nat} {es : List Entry} {bytes : List UInt8}, EntriesOf n es bytes →
    Shortens (EntriesOf n es) (Node.encodeAll (entryNodes es)) bytes
  | _, _, _, .nil => ⟨⟨.nil⟩, Nat.zero_le _⟩
  | _, _, _, .cons d ds => by
    obtain ⟨⟨d'⟩, hle⟩ := d.shortens
    obtain ⟨⟨ds'⟩, hles⟩ := ds.shortens
    exact ⟨⟨.cons d' ds'⟩, append_le hle hles⟩

theorem EntryOf.shortens : ∀ {n : Nat} {entry : Entry} {bytes : List UInt8}, EntryOf n entry bytes →
    Shortens (EntryOf n entry) (entryNode entry).encode bytes
  | _, .submodule name cs es, _, .submodule s d e => by
    obtain ⟨⟨s'⟩, hs⟩ := s.shortens
    obtain ⟨⟨d'⟩, hd⟩ := d.shortens
    obtain ⟨⟨e'⟩, he⟩ := e.shortens (append_le hs hd)
    have hentry : (entryNode (.submodule name cs es)).encode =
        element .submodule (encodePlain (.text name) ++ (tokenNode ⟨cs, es⟩).encode) := by
      rw [encode_submodule, ← Node.encodeAll_append]
      rfl
    rw [hentry]
    exact ⟨⟨.submodule s' d' e'⟩, he⟩
  | _, _, _, .nested s k h d e => by
    obtain ⟨⟨s'⟩, hs⟩ := s.shortens
    obtain ⟨⟨k'⟩, hk⟩ := k.shortens
    obtain ⟨⟨d'⟩, hd⟩ := d.shortens
    obtain ⟨⟨e'⟩, he⟩ := e.shortens (append_le (append_le hs hk) hd)
    rw [entryNode, encode_nestedNode, encodeNested, ofNat_code h]
    exact ⟨⟨.nested s' k' h d' e'⟩, he⟩

end

/-! ## Rewriting -/

/-- Reads a token and writes it again. -/
def rewrite (limit : Nat) (bytes : List UInt8) : Except Error (List UInt8) := do
  let cursor ← (open? bytes).mapError Refusal.toError
  render limit Cursor.reader cursor

theorem open?_eq_ok {bytes : List UInt8} {m : ClaimSet} :
    open? bytes = .ok { root := m } ↔ Nonempty (Derivation m bytes) := by
  unfold open?
  simp only [bind_eq_ok, ← decode_eq_ok]
  exact ⟨fun ⟨_, h, hm⟩ => by cases hm; exact h, fun h => ⟨m, h, rfl⟩⟩

theorem rewrite_of_open? {limit : Nat} {bytes : List UInt8} {m : ClaimSet} (h : open? bytes = .ok { root := m })
    (hl : m.depth ≤ limit) : rewrite limit bytes = .ok (tokenNode m).encode := by
  obtain ⟨d⟩ := open?_eq_ok.mp h
  unfold rewrite
  rw [h]
  exact render_cursor ⟨hl, d.placed⟩

/-- **Rewriting.** The tokens of a claim set are all written again as one of them, which is as short as any. -/
theorem rewrite_shortens (m : ClaimSet) (bytes : List UInt8) (h : open? bytes = .ok { root := m }) :
    ∃ short, open? short = .ok { root := m } ∧ short.length ≤ bytes.length ∧
      (∀ limit, m.depth ≤ limit → rewrite limit bytes = .ok short ∧ rewrite limit short = .ok short) ∧
      ∀ other, open? other = .ok { root := m } →
        short.length ≤ other.length ∧ ∀ limit, m.depth ≤ limit → rewrite limit other = .ok short := by
  have shortest {bytes : List UInt8} (h : open? bytes = .ok { root := m }) :
      Shortens (Derivation m) (tokenNode m).encode bytes := by
    obtain ⟨d⟩ := open?_eq_ok.mp h
    exact d.shortens
  have hshort : open? (tokenNode m).encode = .ok { root := m } := open?_eq_ok.mpr (shortest h).derived
  refine ⟨_, hshort, (shortest h).le, fun limit hl => ?_, fun other ho => ?_⟩
  · exact ⟨rewrite_of_open? h hl, rewrite_of_open? hshort hl⟩
  · exact ⟨(shortest ho).le, fun limit hl => rewrite_of_open? ho hl⟩

/-- A length and a label in more bytes than they need, the longitude before the latitude, and a section without
an entry. -/
def spelledOut : List UInt8 :=
  [0x30, 0x81, 0x30, 0xa0, 0x06, 0x02, 0x02, 0x00, 0x07, 0x05, 0x00,
    0xa0, 0x24, 0x02, 0x02, 0x01, 0x08, 0x31, 0x1e,
    0xa0, 0x0d, 0x02, 0x01, 0x02, 0x09, 0x08, 0x40, 0x02, 0xcc, 0xcc, 0xcc, 0xcc, 0xcc, 0xcd,
    0xa0, 0x0d, 0x02, 0x01, 0x01, 0x09, 0x08, 0x40, 0x49, 0x00, 0x00, 0x00, 0x00, 0x00, 0x00,
    0xa1, 0x00]

theorem rewrite_shortens_spelledOut :
    let m : ClaimSet := { claims := [⟨7, .null⟩,
      ⟨264, .location { latitude := ⟨0x4049000000000000⟩, longitude := ⟨0x4002cccccccccccd⟩ }⟩] }
    open? spelledOut = .ok { root := m } ∧ ∃ short, rewrite 0 spelledOut = .ok short ∧
      short.length ≤ spelledOut.length ∧ open? short = .ok { root := m } ∧ rewrite 0 short = .ok short := by
  intro m
  have hopen : open? spelledOut = .ok { root := m } := by with_unfolding_all rfl
  obtain ⟨short, hshort, hle, hrewrite, -⟩ := rewrite_shortens m spelledOut hopen
  obtain ⟨hfirst, hagain⟩ := hrewrite 0 (Nat.le_refl _)
  exact ⟨hopen, short, hfirst, hle, hshort, hagain⟩

end ClaimRelay.Binary
