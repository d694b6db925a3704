import ClaimRelay.Proofs.Binary.AcceptedTrees
import ClaimRelay.Proofs.Binary.Node

/-!
# Reading one element after the other

A tree may also be read by descent: an element is split off, and if it has parts, each of them is read one level
deeper before the next is split off. The calls that this takes are as many as the bytes allow, and none is deeper
than the limit. What comes out is the same tree, in which every byte that was read has its one place.
-/

namespace ClaimRelay.Binary.Node

/-! ## Descent -/

mutual

/-- Reads the parts of an element at the depth after `depth`. With what is answered come the depths of the calls. -/
def descend (depth : Nat) (x : Element) : List Nat × Except Refusal Node :=
  if Tag.isConstructed x.tag then
    if maxNesting ≤ depth then ([], .error (.tooDeep maxNesting))
    else
      let (calls, parts) := descendAll (depth + 1) x.body
      (calls, parts.map (branch (.ofByte x.tag)))
  else ([], .ok (leaf (.ofByte x.tag) x.body))
termination_by 2 * x.body.length + 1

/-- Reads elements at `depth` for as long as there are bytes. -/
def descendAll (depth : Nat) (bytes : List UInt8) : List Nat × Except Refusal (List Node) :=
  if bytes.isEmpty then ([], .ok [])
  else
    match h : splitElement bytes with
    | .error refusal => ([depth], .error refusal)
    | .ok (x, rest) =>
      have := splitElement_length h
      match descend depth x with
      | (calls, .error refusal) => (depth :: calls, .error refusal)
      | (calls, .ok node) =>
        let (more, nodes) := descendAll depth rest
        (depth :: calls ++ more, nodes.map (node :: ·))
termination_by 2 * bytes.length

end

def readAt (depth : Nat) (bytes : List UInt8) : List Nat × Except Refusal (Node × List UInt8) :=
  match splitElement bytes with
  | .error refusal => ([depth], .error refusal)
  | .ok (x, rest) =>
    let (calls, node) := descend depth x
    (depth :: calls, node.map fun node => (node, rest))

/-- Parses bytes that stand inside so many branches already. -/
def parseAt (depth : Nat) (bytes : List UInt8) : Except Refusal (Node × List UInt8) := do
  let (x, rest) ← splitElement bytes
  pure (← ofElement (maxNesting - depth) x, rest)

theorem parseAt_zero : parseAt 0 = parse := rfl

theorem descendAll_nil (depth : Nat) : descendAll depth [] = ([], .ok []) := by
  rw [descendAll]
  rfl

theorem descendAll_of_error {depth : Nat} {bytes : List UInt8} {refusal : Refusal} (hb : bytes ≠ [])
    (h : splitElement bytes = .error refusal) : descendAll depth bytes = ([depth], .error refusal) := by
  rw [descendAll, if_neg (by simpa using hb)]
  split
  · rename_i h'
    cases h.symm.trans h'
    rfl
  · rename_i h'
    cases h.symm.trans h'

theorem descendAll_of_ok {depth : Nat} {bytes rest : List UInt8} {x : Element}
    (h : splitElement bytes = .ok (x, rest)) : descendAll depth bytes = match descend depth x with
      | (calls, .error refusal) => (depth :: calls, .error refusal)
      | (calls, .ok node) =>
        (depth :: calls ++ (descendAll depth rest).1, (descendAll depth rest).2.map (node :: ·)) := by
  have hb : bytes.isEmpty = false := by
    cases bytes with
    | nil => cases h
    | cons _ _ => rfl
  rw [descendAll, hb]
  simp only [Bool.false_eq_true, ite_false]
  split
  · rename_i h'
    cases h.symm.trans h'
  · rename_i h'
    cases h.symm.trans h'
    rfl

theorem descendAll_of_refusal {depth : Nat} {bytes rest : List UInt8} {x : Element} {calls : List Nat}
    {refusal : Refusal} (h : splitElement bytes = .ok (x, rest)) (hx : descend depth x = (calls, .error refusal)) :
    descendAll depth bytes = (depth :: calls, .error refusal) := by
  rw [descendAll_of_ok h, hx]

theorem descendAll_of_node {depth : Nat} {bytes rest : List UInt8} {x : Element} {calls : List Nat} {node : Node}
    (h : splitElement bytes = .ok (x, rest)) (hx : descend depth x = (calls, .ok node)) :
    descendAll depth bytes =
      (depth :: calls ++ (descendAll depth rest).1, (descendAll depth rest).2.map (node :: ·)) := by
  rw [descendAll_of_ok h, hx]

/-! ## The same tree -/

theorem splitAll_of_error {bytes : List UInt8} {refusal : Refusal} (hb : bytes ≠ [])
    (h : splitElement bytes = .error refusal) : splitAll bytes = ([], some refusal) := by
  rw [splitAll, if_neg (by simpa using hb)]
  split
  · rename_i h'
    cases h.symm.trans h'
    rfl
  · rename_i h'
    cases h.symm.trans h'

/-- The trees of the elements that bytes are made of. -/
def allOf (nesting : Nat) (bytes : List UInt8) : Except Refusal (List Node) := do
  let (parts, refusal) := splitAll bytes
  let children ← parts.mapM (ofElement nesting)
  match refusal with
  | none => pure children
  | some refusal => throw refusal

theorem allOf_cons {nesting : Nat} {bytes rest : List UInt8} {x : Element} (h : splitElement bytes = .ok (x, rest)) :
    allOf nesting bytes = (do
      let node ← ofElement nesting x
      let nodes ← allOf nesting rest
      pure (node :: nodes)) := by
  obtain ⟨front, rfl, ⟨e⟩⟩ := splitElement_eq_ok h
  simp only [allOf, splitAll_cons e, List.mapM_cons, bind_assoc, pure_bind]
  congr 1
  funext node
  congr 1
  funext nodes
  cases (splitAll rest).2 <;> rfl

theorem ofElement_leaf (nesting : Nat) {x : Element} (h : Tag.isConstructed x.tag = false) :
    ofElement nesting x = .ok (leaf (.ofByte x.tag) x.body) := ofElement_eq_ok.mpr (.inl ⟨h, rfl⟩)

theorem ofElement_too_deep {x : Element} (h : Tag.isConstructed x.tag = true) :
    ofElement 0 x = .error (.tooDeep maxNesting) := by
  unfold ofElement
  rw [if_pos h]
  rfl

theorem ofElement_branch {nesting : Nat} {x : Element} (h : Tag.isConstructed x.tag = true) :
    ofElement (nesting + 1) x = (allOf nesting x.body).map (branch (.ofByte x.tag)) := by
  rw [ofElement, if_pos h]
  simp only [allOf]
  cases (splitAll x.body).1.mapM (ofElement nesting) with
  | error refusal => rfl
  | ok children => cases (splitAll x.body).2 <;> rfl

mutual

theorem descend_eq (depth : Nat) (x : Element) : (descend depth x).2 = ofElement (maxNesting - depth) x := by
  rw [descend]
  by_cases hx : Tag.isConstructed x.tag = true
  · rw [if_pos hx]
    by_cases hdeep : maxNesting ≤ depth
    · rw [if_pos hdeep, Nat.sub_eq_zero_of_le hdeep, ofElement_too_deep hx]
    · have hless : maxNesting - depth = maxNesting - (depth + 1) + 1 := by omega
      rw [if_neg hdeep, hless, ofElement_branch hx, ← descendAll_eq (depth + 1) x.body]
  · rw [if_neg hx, ofElement_leaf _ (Bool.eq_false_iff.mpr hx)]
termination_by 2 * x.body.length + 1

theorem descendAll_eq (depth : Nat) (bytes : List UInt8) :
    (descendAll depth bytes).2 = allOf (maxNesting - depth) bytes := by
  by_cases hb : bytes = []
  · rw [hb, descendAll_nil, allOf, splitAll]
    rfl
  · cases h : splitElement bytes with
    | error refusal =>
      rw [descendAll_of_error hb h]
      simp only [allOf, splitAll_of_error hb h]
      rfl
    | ok p =>
      obtain ⟨x, rest⟩ := p
      have hless := splitElement_length h
      have hfirst := descend_eq depth x
      have hrest := descendAll_eq depth rest
      rw [allOf_cons h, ← hfirst, ← hrest]
      rcases hx : descend depth x with ⟨calls, refusal | node⟩
      · rw [descendAll_of_refusal h hx]
        rfl
      · rw [descendAll_of_node h hx]
        cases (descendAll depth rest).2 <;> rfl
termination_by 2 * bytes.length

end

theorem readAt_eq (depth : Nat) (bytes : List UInt8) : (readAt depth bytes).2 = parseAt depth bytes := by
  unfold readAt parseAt
  cases splitElement bytes with
  | error refusal => rfl
  | ok p =>
    obtain ⟨x, rest⟩ := p
    simp only [descend_eq, ok_bind]
    cases ofElement (maxNesting - depth) x <;> rfl

/-! ## Bounds -/

/-- What calls on `n` bytes come to: none is too deep, and each but a last one that fails has two bytes of its own. -/
structure Bounded {α : Type} (n : Nat) (p : List Nat × Except Refusal α) : Prop where
  shallow : ∀ depth ∈ p.1, depth ≤ maxNesting
  few : 2 * p.1.length ≤ n + 2
  done (a : α) (h : p.2 = .ok a) : 2 * p.1.length ≤ n

theorem Bounded.nothing {α : Type} (n : Nat) (answer : Except Refusal α) : Bounded n ([], answer) :=
  ⟨List.forall_mem_nil _, Nat.zero_le _, fun _ _ => Nat.zero_le _⟩

theorem Bounded.map {α β : Type} {n : Nat} {calls : List Nat} {answer : Except Refusal α} (f : α → β)
    (h : Bounded n (calls, answer)) : Bounded n (calls, answer.map f) := by
  refine ⟨h.shallow, h.few, fun b hb => ?_⟩
  cases answer with
  | error refusal => cases hb
  | ok a => exact h.done a rfl

section
variable {α β : Type} {m n k depth : Nat} {calls more : List Nat}
variable {answer : Except Refusal α} {others : Except Refusal β}

/-- One more call, around others. -/
theorem Bounded.call (h : Bounded m (calls, answer)) (hd : depth ≤ maxNesting) (hn : m + 2 ≤ n) :
    Bounded n (depth :: calls, answer) := by
  have hfew := h.few
  refine ⟨List.forall_mem_cons.mpr ⟨hd, h.shallow⟩, ?_, fun a ha => ?_⟩
  · simp only [List.length_cons] at hfew ⊢
    omega
  · have hdone := h.done a ha
    simp only [List.length_cons] at hdone ⊢
    omega

/-- A call that fails where it stands. -/
theorem Bounded.failed (n : Nat) (hd : depth ≤ maxNesting) (refusal : Refusal) :
    Bounded (α := α) n ([depth], .error refusal) :=
  ⟨List.forall_mem_singleton.mpr hd, Nat.le_add_left 2 n, nofun⟩

theorem Bounded.append {a : α} (h : Bounded m (calls, Except.ok a)) (hs : Bounded k (more, others)) (hn : m + k ≤ n) :
    Bounded n (calls ++ more, others) := by
  have hdone := h.done a rfl
  have hfew := hs.few
  refine ⟨List.forall_mem_append.mpr ⟨h.shallow, hs.shallow⟩, ?_, fun b hb => ?_⟩
  · simp only [List.length_append] at hfew hdone ⊢
    omega
  · have hrest := hs.done b hb
    simp only [List.length_append] at hrest hdone ⊢
    omega

end

mutual

theorem descend_bounded (depth : Nat) (x : Element) : Bounded x.body.length (descend depth x) := by
  rw [descend]
  split
  · split
    · exact .nothing _ _
    · have hless : depth + 1 ≤ maxNesting := by omega
      exact (descendAll_bounded hless x.body).map _
  · exact .nothing _ _
termination_by 2 * x.body.length + 1

theorem descendAll_bounded {depth : Nat} (hd : depth ≤ maxNesting) (bytes : List UInt8) :
    Bounded bytes.length (descendAll depth bytes) := by
  by_cases hb : bytes = []
  · rw [hb, descendAll_nil]
    exact .nothing _ _
  · cases h : splitElement bytes with
    | error refusal =>
      rw [descendAll_of_error hb h]
      exact .failed _ hd refusal
    | ok p =>
      obtain ⟨x, rest⟩ := p
      have hless := splitElement_length h
      have hfirst := descend_bounded depth x
      have hrest := descendAll_bounded hd rest
      rcases hx : descend depth x with ⟨calls, refusal | node⟩ <;> rw [hx] at hfirst
      · rw [descendAll_of_refusal h hx]
        have hcall := hfirst.call (n := bytes.length) hd (by omega)
        exact hcall.map List.singleton
      · rw [descendAll_of_node h hx]
        -- the element pays for its own call with tag and length, and for those on its parts with its body
        have hcall := hfirst.call (n := x.body.length + 2) hd (Nat.le_refl _)
        exact hcall.append (hrest.map _) (by omega)
termination_by 2 * bytes.length

end

theorem readAt_bounded {depth : Nat} (hd : depth ≤ maxNesting) (bytes : List UInt8) :
    Bounded bytes.length (readAt depth bytes) := by
  unfold readAt
  cases h : splitElement bytes with
  | error refusal => exact .failed _ hd refusal
  | ok p =>
    obtain ⟨x, rest⟩ := p
    have hless := splitElement_length h
    have hcall : Bounded bytes.length (depth :: (descend depth x).1, (descend depth x).2) :=
      (descend_bounded depth x).call hd (by omega)
    exact hcall.map _

/-! ## Trees and their bytes -/

mutual

/-- Whether every byte has its one place in the tree: a leaf has the body as it is, and the bytes of the children of a
branch stand side by side in its body, with nothing between them. -/
inductive Tiles : Node → List UInt8 → Prop
  | leaf {tag : UInt8} {body bytes : List UInt8} (h : Tag.isConstructed tag = false) (e : ElementOf tag body bytes) :
    Tiles (leaf (.ofByte tag) body) bytes
  | branch {tag : UInt8} {nodes : List Node} {body bytes : List UInt8} (h : Tag.isConstructed tag = true)
    (e : ElementOf tag body bytes) (hs : TilesAll nodes body) : Tiles (branch (.ofByte tag) nodes) bytes

inductive TilesAll : List Node → List UInt8 → Prop
  | nil : TilesAll [] []
  | cons {node : Node} {nodes : List Node} {bytes rest : List UInt8} (h : Tiles node bytes)
    (hs : TilesAll nodes rest) : TilesAll (node :: nodes) (bytes ++ rest)

end

mutual

/-- The number of elements in a tree. -/
def size : Node → Nat
  | leaf _ _ => 1
  | branch _ children => total children + 1

def total : List Node → Nat
  | [] => 0
  | node :: rest => node.size + total rest

end

theorem length_elementOf {tag : UInt8} {body bytes : List UInt8} (e : ElementOf tag body bytes) :
    body.length + 2 ≤ bytes.length := by
  have hsplit := splitElement_of e []
  have hless := splitElement_length hsplit
  simp only [List.append_nil, List.length_nil] at hless
  omega

mutual

theorem Tiles.two_each {node : Node} {bytes : List UInt8} : Tiles node bytes → 2 * node.size ≤ bytes.length
  | .leaf _ e => by
    have := length_elementOf e
    rw [size]
    omega
  | .branch _ e hs => by
    have := length_elementOf e
    have := TilesAll.two_each hs
    rw [size]
    omega

theorem TilesAll.two_each {nodes : List Node} {bytes : List UInt8} :
    TilesAll nodes bytes → 2 * total nodes ≤ bytes.length
  | .nil => Nat.le_refl 0
  | .cons h hs => by
    have := Tiles.two_each h
    have := TilesAll.two_each hs
    rw [total, List.length_append]
    omega

end

section
variable {n : Nat} {node : Node} {nodes : List Node} {bytes : List UInt8}

theorem ReadsAll.tiles (h : ∀ {node bytes}, Reads n node bytes → Tiles node bytes ∧ node.height ≤ n)
    (hr : ReadsAll n nodes bytes) : TilesAll nodes bytes ∧ tallest nodes ≤ n := by
  induction hr with
  | nil => exact ⟨.nil, Nat.zero_le n⟩
  | cons hnode _ ih =>
    obtain ⟨htiles, hheight⟩ := h hnode
    exact ⟨.cons htiles ih.1, Nat.max_le.mpr ⟨hheight, ih.2⟩⟩

/-- A tree does not show its bytes, so the recursion is on how deep branches may nest. -/
theorem Reads.tiles : ∀ {n : Nat} {node : Node} {bytes : List UInt8}, Reads n node bytes →
    Tiles node bytes ∧ node.height ≤ n
  | n, .leaf tag body, bytes, hr => by
    obtain ⟨⟨htag, hleaf⟩, ⟨e⟩⟩ := reads_leaf.mp hr
    have htiles := Tiles.leaf hleaf e
    rw [htag] at htiles
    exact ⟨htiles, Nat.zero_le n⟩
  | n, .branch tag nodes, bytes, hr => by
    obtain ⟨⟨htag, hbranch⟩, m, body, rfl, ⟨e⟩, hs⟩ := reads_branch.mp hr
    obtain ⟨hall, htallest⟩ := ReadsAll.tiles Reads.tiles hs
    have htiles := Tiles.branch hbranch e hall
    rw [htag] at htiles
    exact ⟨htiles, Nat.succ_le_succ htallest⟩

end

/-- A tree with the bytes that it was read from, inside so many branches. -/
structure ReadFrom (depth : Nat) (node : Node) (bytes : List UInt8) : Prop where
  least : 2 ≤ bytes.length
  /-- What follows the bytes has no part in the tree. -/
  alone (rest : List UInt8) : parseAt depth (bytes ++ rest) = .ok (node, rest)
  size : 2 * node.size ≤ bytes.length
  height : node.height ≤ maxNesting - depth
  tiles : Tiles node bytes

theorem parseAt_eq_ok {depth : Nat} {node : Node} {bytes rest : List UInt8}
    (h : parseAt depth bytes = .ok (node, rest)) : ∃ front, bytes = front ++ rest ∧ ReadFrom depth node front := by
  obtain ⟨⟨x, _⟩, hsplit, h⟩ := bind_eq_ok.mp h
  obtain ⟨_, hx, h⟩ := bind_eq_ok.mp h
  cases h
  obtain ⟨front, rfl, ⟨e⟩⟩ := splitElement_eq_ok hsplit
  obtain ⟨htiles, hheight⟩ := Reads.tiles ⟨x, ⟨e⟩, hx⟩
  have hlength := length_elementOf e
  refine ⟨front, rfl, Nat.le_of_add_left_le hlength, fun other => ?_, htiles.two_each, hheight, htiles⟩
  unfold parseAt
  rw [splitElement_of e other, ok_bind]
  simp only [hx, ok_bind]
  rfl

/-- **Bounded descent.** Of any bytes, inside any number of branches that there may be. -/
theorem descent_bounded (depth : Nat) (h : depth ≤ maxNesting) (bytes : List UInt8) :
    (readAt depth bytes).2 = parseAt depth bytes ∧
    (∀ d ∈ (readAt depth bytes).1, d ≤ maxNesting) ∧ 2 * (readAt depth bytes).1.length ≤ bytes.length + 2 ∧
    ∀ node rest, parseAt depth bytes = .ok (node, rest) → ∃ front, bytes = front ++ rest ∧ ReadFrom depth node front :=
  have hbounded := readAt_bounded h bytes
  ⟨readAt_eq depth bytes, hbounded.shallow, hbounded.few, fun _ _ => parseAt_eq_ok⟩

/-- A branch and what follows it, at the depth where its leaf is the deepest that there may be. -/
theorem descent_bounded_last : parseAt 63 [0x30, 2, 5, 0, 7] = .ok (.branch .token [.leaf .null []], [7]) ∧
    (readAt 63 [0x30, 2, 5, 0, 7]).1 = [63, 64] ∧
    ∃ front, [0x30, 2, 5, 0, 7] = front ++ [7] ∧ ReadFrom 63 (.branch .token [.leaf .null []]) front := by
  have hproper : Proper (.branch .token [.leaf .null []]) := ⟨⟨rfl, rfl⟩, ⟨rfl, rfl⟩, trivial⟩
  have hnode : ofElement 1 ⟨0x30, [5, 0]⟩ = .ok (.branch .token [.leaf .null []]) :=
    ofElement_toElement 1 hproper (by decide)
  have hread : parseAt 63 [0x30, 2, 5, 0, 7] = .ok (.branch .token [.leaf .null []], [7]) :=
    congrArg (Except.map (·, [7])) hnode
  have h := descent_bounded 63 (by decide) [0x30, 2, 5, 0, 7]
  exact ⟨hread, by decide +kernel, h.2.2.2 _ _ hread⟩

end ClaimRelay.Binary.Node
