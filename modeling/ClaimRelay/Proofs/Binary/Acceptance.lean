import ClaimRelay.Proofs.Binary.AcceptedTrees

/-!
# What is accepted

A tree that is accepted has a derivation, and what has a derivation has a tree that is accepted. So reading
accepts the grammar, neither more nor less, and finds the one claim set that the bytes are a token of.
-/

namespace ClaimRelay.Binary

namespace Node

variable {n : Nat} {tag : Tag} {node : Node} {nodes : List Node} {bytes body : List UInt8}

/-! ## From trees to derivations

A tree does not show the bytes it was read from, so the recursion is on how deep branches may still nest.
-/

theorem Reads.primitive {v : Value} (hr : Reads n (leaf tag body) bytes) (hp : Primitive tag v body) :
    Nonempty (PrimitiveOf tag v bytes) := by
  obtain ⟨-, ⟨e⟩⟩ := reads_leaf.mp hr
  exact ⟨hp, e⟩

/-- What holds of the values of a list, read one after the other, if adding one more keeps it. -/
theorem ReadsAll.values {α : Type} {f : Node → Except Refusal α} {P : List α → List UInt8 → Prop} (hnil : P [] [])
    (hcons : ∀ {node : Node} {a : α} {as : List α} {bytes rest : List UInt8}, Reads n node bytes → f node = .ok a →
      P as rest → P (a :: as) (bytes ++ rest))
    {as : List α} (hr : ReadsAll n nodes bytes) (hok : nodes.mapM f = .ok as) : P as bytes := by
  induction hr generalizing as with
  | nil =>
    cases hok
    exact hnil
  | cons hnode _ ih =>
    obtain ⟨a, as, ha, has, rfl⟩ := mapM_cons_eq_ok.mp hok
    exact hcons hnode ha (ih has)

theorem claims_derived {cs : List Claim}
    (h : ∀ {node : Node} {c : Claim} {bytes : List UInt8}, Reads n node bytes → claim node = .ok c →
      Nonempty (ClaimOf n c bytes))
    (hr : ReadsAll n nodes bytes) (hok : nodes.mapM claim = .ok cs) : Nonempty (ClaimsOf n cs bytes) := by
  refine ReadsAll.values (P := fun cs bytes => Nonempty (ClaimsOf n cs bytes)) ⟨.nil⟩ ?_ hr hok
  intro node c cs bytes rest hnode hc ⟨ds⟩
  obtain ⟨d⟩ := h hnode hc
  exact ⟨.cons d ds⟩

mutual

theorem claim_derived : ∀ (n : Nat) {node : Node} {c : Claim} {bytes : List UInt8}, Reads n node bytes →
    claim node = .ok c → Nonempty (ClaimOf n c bytes)
  | n, _, _, _, hr, h => by
    obtain ⟨_, _, rfl, hlabel, hvalue⟩ := claim_eq_ok.mp h
    obtain ⟨-, m, _, rfl, ⟨e⟩, hs⟩ := reads_branch.mp hr
    cases hs with
    | cons hl hs =>
      obtain ⟨l⟩ := hl.primitive hlabel
      obtain ⟨d⟩ := value_derived m hs.single hvalue
      exact ⟨.claim l d e⟩

theorem value_derived : ∀ (n : Nat) {label : Label} {node : Node} {v : Value} {bytes : List UInt8},
    Reads n node bytes → value label node = .ok v → Nonempty (ValueOf n label v bytes)
  | n, _, _, _, _, hr, h => by
    rcases value_eq_ok.mp h with ⟨tag, body, rfl, hp⟩ | ⟨nodes, cs, l, rfl, rfl, rfl, hcs, hf⟩
    · obtain ⟨d⟩ := hr.primitive hp
      exact ⟨.primitive d⟩
    · obtain ⟨-, m, _, rfl, ⟨e⟩, hs⟩ := reads_branch.mp hr
      obtain ⟨d⟩ := claims_derived (claim_derived m) hs hcs
      exact ⟨.location d hf e⟩

end

theorem entries_derived {es : List Entry}
    (h : ∀ {node : Node} {e : Entry} {bytes : List UInt8}, Reads n node bytes → entry node = .ok e →
      Nonempty (EntryOf n e bytes))
    (hr : ReadsAll n nodes bytes) (hok : nodes.mapM entry = .ok es) : Nonempty (EntriesOf n es bytes) := by
  refine ReadsAll.values (P := fun es bytes => Nonempty (EntriesOf n es bytes)) ⟨.nil⟩ ?_ hr hok
  intro node e es bytes rest hnode he ⟨ds⟩
  obtain ⟨d⟩ := h hnode he
  exact ⟨.cons d ds⟩

mutual

theorem token_derived : ∀ (n : Nat) {node : Node} {m : ClaimSet} {bytes : List UInt8}, Reads n node bytes →
    claimSet node = .ok m → Nonempty (TokenOf n m.claims m.entries bytes)
  | n, _, _, _, hr, h => by
    obtain ⟨_, rfl, hbody⟩ := claimSet_eq_ok.mp h
    obtain ⟨-, k, _, rfl, ⟨e⟩, hs⟩ := reads_branch.mp hr
    obtain ⟨claimNodes, rest, rfl, hcs, hrest⟩ := body_eq_ok.mp hbody
    obtain ⟨front, back, rfl, hfront, hback⟩ := hs.append
    obtain ⟨d⟩ := claims_derived (claim_derived k) hfront hcs
    rcases hrest with ⟨rfl, hes⟩ | ⟨inner, rfl, hes⟩
    · cases hback
      rw [hes]
      exact ⟨.token d .absent e⟩
    · obtain ⟨-, j, _, rfl, ⟨eSect⟩, hs⟩ := reads_branch.mp hback.single
      obtain ⟨ds⟩ := entries_derived (entry_derived j) hs hes
      exact ⟨.token d (.present ds eSect) e⟩

theorem entry_derived : ∀ (n : Nat) {node : Node} {entry : Entry} {bytes : List UInt8}, Reads n node bytes →
    Node.entry node = .ok entry → Nonempty (EntryOf n entry bytes)
  | n, _, _, _, hr, h => by
    rcases entry_eq_ok.mp h with
      ⟨name, inner, m, rfl, hm, rfl⟩ | ⟨name, kind, kindBody, content, rfl, hkind, hrange, rfl⟩
    · obtain ⟨-, k, _, rfl, ⟨e⟩, hs⟩ := reads_branch.mp hr
      cases hs with
      | cons hname hs =>
        obtain ⟨s⟩ := hname.primitive (.text name)
        obtain ⟨d⟩ := token_derived k hs.single hm
        exact ⟨.submodule s d e⟩
    · obtain ⟨-, k, _, rfl, ⟨e⟩, hs⟩ := reads_branch.mp hr
      cases hs with
      | cons hname hs =>
        cases hs with
        | cons hk hs =>
          obtain ⟨s⟩ := hname.primitive (.text name)
          obtain ⟨k⟩ := hk.primitive hkind
          obtain ⟨d⟩ := hs.single.primitive (.octets content)
          rw [← List.append_assoc] at e
          exact ⟨.nested s k hrange d e⟩

end

/-! ## From derivations to trees -/

theorem reads_primitive {v : Value} (d : PrimitiveOf tag v bytes) (n : Nat) :
    ∃ body, Primitive tag v body ∧ Reads n (leaf tag body) bytes := by
  obtain ⟨hp, e⟩ := d
  exact ⟨_, hp, reads_leaf.mpr ⟨hp.proper, ⟨e⟩⟩⟩

mutual

theorem accepted_claim : ∀ {n : Nat} {c : Claim} {bytes : List UInt8}, ClaimOf n c bytes →
    ∃ node, Reads n node bytes ∧ claim node = .ok c
  | _, _, _, .claim l d e => by
    obtain ⟨body, hp, hl⟩ := reads_primitive l _
    obtain ⟨inner, hd, hv⟩ := accepted_value d
    exact ⟨_, reads_parts ⟨rfl, rfl⟩ e (.cons hl (.one hd)), claim_eq_ok.mpr ⟨body, inner, rfl, hp, hv⟩⟩

theorem accepted_value : ∀ {n : Nat} {label : Label} {v : Value} {bytes : List UInt8}, ValueOf n label v bytes →
    ∃ node, Reads n node bytes ∧ value label node = .ok v
  | n, _, _, _, .primitive d => by
    obtain ⟨body, hp, hr⟩ := reads_primitive d n
    exact ⟨_, hr, value_eq_ok.mpr (.inl ⟨_, body, rfl, hp⟩)⟩
  | _, _, _, _, .location d h e => by
    obtain ⟨nodes, hs, hcs⟩ := accepted_claims d
    exact ⟨_, reads_parts ⟨rfl, rfl⟩ e hs, value_eq_ok.mpr (.inr ⟨nodes, _, _, rfl, rfl, rfl, hcs, h⟩)⟩

theorem accepted_claims : ∀ {n : Nat} {cs : List Claim} {bytes : List UInt8}, ClaimsOf n cs bytes →
    ∃ nodes, ReadsAll n nodes bytes ∧ nodes.mapM claim = .ok cs
  | _, _, _, .nil => ⟨[], .nil, rfl⟩
  | _, _, _, .cons d ds => by
    obtain ⟨node, hr, hc⟩ := accepted_claim d
    obtain ⟨nodes, hs, hcs⟩ := accepted_claims ds
    exact ⟨node :: nodes, .cons hr hs, mapM_cons_eq_ok.mpr ⟨_, _, hc, hcs, rfl⟩⟩

end

mutual

theorem accepted_token : ∀ {n : Nat} {cs : List Claim} {es : List Entry} {bytes : List UInt8}, TokenOf n cs es bytes →
    ∃ node, Reads n node bytes ∧ claimSet node = .ok ⟨cs, es⟩
  | _, _, _, _, .token d s e => by
    obtain ⟨nodes, hs, hcs⟩ := accepted_claims d
    obtain ⟨rest, hrest, hes⟩ := accepted_section s
    exact ⟨_, reads_parts ⟨rfl, rfl⟩ e (hs.both hrest),
      claimSet_eq_ok.mpr ⟨_, rfl, body_eq_ok.mpr ⟨nodes, rest, rfl, hcs, hes⟩⟩⟩

theorem accepted_section : ∀ {n : Nat} {es : List Entry} {bytes : List UInt8}, SectionOf n es bytes →
    ∃ nodes, ReadsAll n nodes bytes ∧
      (nodes = [] ∧ es = [] ∨ ∃ inner, nodes = [branch .sect inner] ∧ inner.mapM entry = .ok es)
  | _, _, _, .absent => ⟨[], .nil, .inl ⟨rfl, rfl⟩⟩
  | _, _, _, .present d e => by
    obtain ⟨inner, hs, hes⟩ := accepted_entries d
    exact ⟨_, .one (reads_parts ⟨rfl, rfl⟩ e hs), .inr ⟨inner, rfl, hes⟩⟩

theorem accepted_entries : ∀ {n : Nat} {es : List Entry} {bytes : List UInt8}, EntriesOf n es bytes →
    ∃ nodes, ReadsAll n nodes bytes ∧ nodes.mapM entry = .ok es
  | _, _, _, .nil => ⟨[], .nil, rfl⟩
  | _, _, _, .cons d ds => by
    obtain ⟨node, hr, he⟩ := accepted_entry d
    obtain ⟨nodes, hs, hes⟩ := accepted_entries ds
    exact ⟨node :: nodes, .cons hr hs, mapM_cons_eq_ok.mpr ⟨_, _, he, hes, rfl⟩⟩

theorem accepted_entry : ∀ {n : Nat} {entry : Entry} {bytes : List UInt8}, EntryOf n entry bytes →
    ∃ node, Reads n node bytes ∧ Node.entry node = .ok entry
  | _, _, _, .submodule s d e => by
    obtain ⟨_, hname, hs⟩ := reads_primitive s _
    cases hname
    obtain ⟨inner, hd, hm⟩ := accepted_token d
    exact ⟨_, reads_parts ⟨rfl, rfl⟩ e (.cons hs (.one hd)), entry_eq_ok.mpr (.inl ⟨_, inner, _, rfl, hm, rfl⟩)⟩
  | _, _, _, .nested s k h d e => by
    obtain ⟨_, hname, hs⟩ := reads_primitive s _
    obtain ⟨kindBody, hp, hk⟩ := reads_primitive k _
    obtain ⟨_, hcontent, hd⟩ := reads_primitive d _
    cases hname
    cases hcontent
    rw [List.append_assoc] at e
    exact ⟨_, reads_parts ⟨rfl, rfl⟩ e (.cons hs (.cons hk (.one hd))),
      entry_eq_ok.mpr (.inr ⟨_, _, kindBody, _, rfl, hp, h, rfl⟩)⟩

end

end Node

/-! ## Whole tokens -/

/-- A derivation of bytes as the token of a claim set. -/
abbrev Derivation (m : ClaimSet) (bytes : List UInt8) : Type := TokenOf maxNesting m.claims m.entries bytes

theorem parse_eq_ok {node : Node} {bytes rest : List UInt8} : Node.parse bytes = .ok (node, rest) ↔
    ∃ front, bytes = front ++ rest ∧ node.Reads maxNesting front := by
  unfold Node.parse
  constructor
  · intro h
    obtain ⟨⟨x, after⟩, hsplit, h⟩ := bind_eq_ok.mp h
    obtain ⟨node, hnode, h⟩ := bind_eq_ok.mp h
    cases h
    obtain ⟨front, rfl, e⟩ := splitElement_eq_ok hsplit
    exact ⟨front, rfl, x, e, hnode⟩
  · rintro ⟨front, rfl, x, ⟨e⟩, hnode⟩
    have hsplit : splitElement (front ++ rest) = .ok (x, rest) := splitElement_of e rest
    simp only [hsplit, hnode, ok_bind]
    rfl

theorem decode_eq_ok {bytes : List UInt8} {m : ClaimSet} : decode bytes = .ok m ↔ Nonempty (Derivation m bytes) := by
  have hwhole : decode bytes = .ok m ↔ ∃ node, Node.parse bytes = .ok (node, []) ∧ node.claimSet = .ok m := by
    unfold decode
    cases bytes with
    | nil => exact ⟨nofun, fun ⟨_, h, _⟩ => nomatch h⟩
    | cons first bytes =>
      simp only [List.isEmpty_cons, Bool.false_eq_true, ite_false, ne_eq, ite_not, bind_eq_ok, Prod.exists]
      constructor
      · rintro ⟨node, rest, hparse, h⟩
        split at h
        · rename_i hrest
          exact ⟨node, hrest ▸ hparse, h⟩
        · obtain ⟨_, h, -⟩ := h
      · rintro ⟨node, hparse, h⟩
        exact ⟨node, [], hparse, h⟩
  rw [hwhole]
  constructor
  · rintro ⟨node, hparse, h⟩
    obtain ⟨front, rfl, hr⟩ := parse_eq_ok.mp hparse
    rw [List.append_nil]
    exact Node.token_derived _ hr h
  · rintro ⟨d⟩
    obtain ⟨node, hr, h⟩ := Node.accepted_token d
    exact ⟨node, parse_eq_ok.mpr ⟨bytes, (List.append_nil _).symm, hr⟩, h⟩

/-- **Acceptance.** A token is accepted exactly when it has a derivation, and it has one derivation at most. -/
theorem open_iff_derivation (bytes : List UInt8) :
    (∀ s : Cursor, open? bytes = .ok s ↔ ∃ m, s = { root := m } ∧ Nonempty (Derivation m bytes)) ∧
      Subsingleton ((m : ClaimSet) × Derivation m bytes) := by
  refine ⟨fun s => ?_, ⟨fun ⟨m, d⟩ ⟨m', d'⟩ => ?_⟩⟩
  · unfold open?
    simp only [bind_eq_ok, decode_eq_ok]
    exact ⟨fun ⟨m, d, hs⟩ => ⟨m, (Except.ok.inj hs).symm, d⟩, fun ⟨m, hs, d⟩ => ⟨m, d, hs ▸ rfl⟩⟩
  · obtain ⟨cs, es⟩ := m
    obtain ⟨cs', es'⟩ := m'
    cases d.unique d' (congrArg (· ++ []) rfl)
    rfl

end ClaimRelay.Binary
