import ClaimRelay.Binary.Token
import ClaimRelay.Binary.TokenWriter
import ClaimRelay.Proofs.Binary.Node
import ClaimRelay.Proofs.ClaimSet.Shape

/-!
# The tree of a token

What is read from the bytes of a token is the tree of its claim set, and a claim set is read from that tree,
each value as it was and each kind of token under its name.
-/

namespace ClaimRelay.Binary

/-! ## Trees -/

def plainNode : Value → Node
  | .int v => .leaf .integer (encodeSigned v)
  | .uint v => .leaf .unsigned (encodeUnsigned v)
  | .double v => .leaf .double (encodeDouble v)
  | .text v => .leaf .utf8String (Text.utf8 v)
  | .bytes v => .leaf .octetString v
  | .bool v => .leaf .boolean [if v then 0xff else 0x00]
  | .null | .location _ => .leaf .null []

def labelledNode (label : Label) (value : Node) : Node :=
  .branch .claim [.leaf .integer (encodeSigned label), value]

def fieldNode (c : Claim) : Node := labelledNode c.label (plainNode c.value)

def valueNode : Value → Node
  | .location l => .branch .location ((locationFields l).map fieldNode)
  | v => plainNode v

def claimNode (c : Claim) : Node := labelledNode c.label (valueNode c.value)

def nestedNode (t : NestedToken) : Node :=
  .branch .nested [.leaf .utf8String (Text.utf8 t.name),
    .leaf .integer (encodeSigned (Int64.ofNat t.kind.code.toNat)), .leaf .octetString t.bytes]

mutual

def entryNode : Entry → Node
  | .submodule name claims entries => .branch .submodule
    [.leaf .utf8String (Text.utf8 name), .branch .token (claims.map claimNode ++ sectionNodes entries)]
  | .token t => nestedNode t

/-- The section, if there is an entry. -/
def sectionNodes : List Entry → List Node
  | [] => []
  | first :: rest => [.branch .sect (entryNode first :: entryNodes rest)]

def entryNodes : List Entry → List Node
  | [] => []
  | first :: rest => entryNode first :: entryNodes rest

end

def tokenNode (m : ClaimSet) : Node := .branch .token (m.claims.map claimNode ++ sectionNodes m.entries)

/-! ## Bytes -/

theorem locationFields_eq (l : Location) : locationFields l =
    ⟨1, .double l.latitude⟩ :: ⟨2, .double l.longitude⟩ ::
      ((l.altitude.map fun v => (⟨3, .double v⟩ : Claim)).toList ++
      ((l.accuracy.map fun v => (⟨4, .double v⟩ : Claim)).toList ++
      ((l.altitudeAccuracy.map fun v => (⟨5, .double v⟩ : Claim)).toList ++
      ((l.heading.map fun v => (⟨6, .double v⟩ : Claim)).toList ++
      ((l.speed.map fun v => (⟨7, .double v⟩ : Claim)).toList ++
      ((l.timestamp.map fun v => (⟨8, .int v⟩ : Claim)).toList ++
      ((l.age.map fun v => (⟨9, .uint v⟩ : Claim)).toList ++ []))))))) := by
  unfold locationFields
  cases l.altitude <;> cases l.accuracy <;> cases l.altitudeAccuracy <;> cases l.heading <;> cases l.speed <;> simp

theorem locationFields_plain (l : Location) : ∀ c ∈ locationFields l, c.value.ownLabel? = none := by
  intro c hc
  simp only [locationFields_eq, List.mem_cons, List.mem_append, Option.mem_toList, Option.map_eq_some_iff,
    List.not_mem_nil, or_false] at hc
  rcases hc with rfl | rfl | ⟨v, _, rfl⟩ | ⟨v, _, rfl⟩ | ⟨v, _, rfl⟩ | ⟨v, _, rfl⟩ | ⟨v, _, rfl⟩ | ⟨v, _, rfl⟩ |
    ⟨v, _, rfl⟩ <;> rfl

theorem encode_plainNode {v : Value} (h : v.ownLabel? = none) : (plainNode v).encode = encodePlain v := by
  cases v <;> first | rfl | cases h

theorem encode_labelledNode (label : Label) (node : Node) :
    (labelledNode label node).encode = encodeLabelled label node.encode := by
  show element .claim (element .integer (encodeSigned label) ++ (node.encode ++ [])) = _
  rw [List.append_nil]
  rfl

theorem encodeAll_fields {cs : List Claim} (h : ∀ c ∈ cs, c.value.ownLabel? = none) :
    Node.encodeAll (cs.map fieldNode) = cs.flatMap fun c => encodeLabelled c.label (encodePlain c.value) := by
  induction cs with
  | nil => rfl
  | cons c cs ih =>
    obtain ⟨hplain, hcs⟩ := List.forall_mem_cons.mp h
    have hc := encode_labelledNode c.label (plainNode c.value)
    rw [encode_plainNode hplain] at hc
    rw [List.map_cons, Node.encodeAll, List.flatMap_cons, ih hcs]
    exact congrArg (· ++ _) hc

theorem valueNode_plain {v : Value} (h : v.ownLabel? = none) : valueNode v = plainNode v := by
  cases v <;> first | rfl | cases h

theorem encodeClaim_plain {label : Label} {v : Value} (h : v.ownLabel? = none) :
    encodeClaim ⟨label, v⟩ = .ok (encodeLabelled label (encodePlain v)) := by
  cases v <;> first | rfl | cases h

theorem encode_locationNode (l : Location) : (valueNode (.location l)).encode = encodeLocation l := by
  show element .location (Node.encodeAll _) = _
  rw [encodeAll_fields (locationFields_plain l)]
  rfl

theorem encodeClaim_of_placed {c : Claim} (h : c.Placed) : encodeClaim c = .ok (claimNode c).encode := by
  obtain ⟨label, v⟩ := c
  rw [claimNode, encode_labelledNode]
  rcases v.plain_or_location with hv | ⟨l, rfl⟩
  · rw [encodeClaim_plain hv, valueNode_plain hv, encode_plainNode hv]
  · have hlabel : label = locationLabel := h _ rfl
    rw [encode_locationNode]
    exact if_pos hlabel

theorem encodeClaim_of_not_placed {c : Claim} (h : ¬c.Placed) :
    encodeClaim c = .error (.structural (.locationUnderLabel c.label)) := by
  obtain ⟨label, v⟩ := c
  rcases v.plain_or_location with hv | ⟨l, rfl⟩
  · have hplaced : Claim.Placed ⟨label, v⟩ := by
      intro own ho
      rw [hv] at ho
      cases ho
    exact absurd hplaced h
  · have hlabel : label ≠ locationLabel := by
      intro hl
      apply h
      intro own ho
      cases ho
      exact hl
    exact if_neg hlabel

theorem encode_nestedNode (t : NestedToken) : (nestedNode t).encode = encodeNested t := by
  show element .nested (element _ _ ++ (element _ _ ++ (element _ _ ++ []))) = _
  rw [List.append_nil, ← List.append_assoc]
  rfl

theorem encode_submodule (name : String) (cs : List Claim) (es : List Entry) :
    (entryNode (.submodule name cs es)).encode = element .submodule (element .utf8String (Text.utf8 name) ++
      element .token (Node.encodeAll (cs.map claimNode) ++ Node.encodeAll (sectionNodes es))) := by
  rw [entryNode, ← Node.encodeAll_append]
  show element .submodule (element .utf8String _ ++ (element .token _ ++ [])) = _
  rw [List.append_nil]
  rfl

theorem encode_sectionNodes (first : Entry) (rest : List Entry) : Node.encodeAll (sectionNodes (first :: rest)) =
    element .sect (Node.encodeAll (entryNodes (first :: rest))) := by
  rw [sectionNodes, entryNodes, Node.encodeAll, Node.encodeAll, List.append_nil]
  rfl

/-! ## Tags -/

theorem plainNode_proper (v : Value) : (plainNode v).Proper := by
  cases v <;> exact ⟨rfl, rfl⟩

theorem labelledNode_proper (label : Label) {node : Node} (h : node.Proper) : (labelledNode label node).Proper :=
  ⟨⟨rfl, rfl⟩, ⟨rfl, rfl⟩, h, trivial⟩

theorem allProper_map {α : Type} {f : α → Node} (h : ∀ a, (f a).Proper) (xs : List α) :
    Node.AllProper (xs.map f) := by
  induction xs with
  | nil => trivial
  | cons x xs ih => exact ⟨h x, ih⟩

theorem claimNode_proper (c : Claim) : (claimNode c).Proper := by
  have hfields (l : Location) : Node.AllProper ((locationFields l).map fieldNode) :=
    allProper_map (fun f => labelledNode_proper _ (plainNode_proper _)) _
  apply labelledNode_proper
  unfold valueNode
  split
  · exact ⟨⟨rfl, rfl⟩, hfields _⟩
  · apply plainNode_proper

mutual

theorem entryNode_proper : ∀ e : Entry, (entryNode e).Proper
  | .submodule name claims entries => by
    rw [entryNode]
    exact ⟨⟨rfl, rfl⟩, ⟨rfl, rfl⟩, ⟨⟨rfl, rfl⟩,
      Node.allProper_append (allProper_map claimNode_proper _) (sectionNodes_proper entries)⟩, trivial⟩
  | .token t => by
    rw [entryNode]
    exact ⟨⟨rfl, rfl⟩, ⟨rfl, rfl⟩, ⟨rfl, rfl⟩, ⟨rfl, rfl⟩, trivial⟩

theorem sectionNodes_proper : ∀ es : List Entry, Node.AllProper (sectionNodes es)
  | [] => by
    rw [sectionNodes]
    trivial
  | first :: rest => by
    rw [sectionNodes]
    exact ⟨⟨⟨rfl, rfl⟩, entryNode_proper first, entryNodes_proper rest⟩, trivial⟩

theorem entryNodes_proper : ∀ es : List Entry, Node.AllProper (entryNodes es)
  | [] => by
    rw [entryNodes]
    trivial
  | first :: rest => by
    rw [entryNodes]
    exact ⟨entryNode_proper first, entryNodes_proper rest⟩

end

theorem tokenNode_proper (m : ClaimSet) : (tokenNode m).Proper :=
  ⟨⟨rfl, rfl⟩, Node.allProper_append (allProper_map claimNode_proper _) (sectionNodes_proper _)⟩

/-! ## Nesting -/

theorem plainNode_height (v : Value) : (plainNode v).height = 0 := by
  cases v <;> rfl

theorem fieldNode_height (c : Claim) : (fieldNode c).height = 1 := by
  unfold fieldNode labelledNode
  simp only [Node.height, Node.tallest, plainNode_height]
  rfl

theorem tallest_fields (c : Claim) (rest : List Claim) : Node.tallest ((c :: rest).map fieldNode) = 1 := by
  induction rest generalizing c with
  | nil => simp [Node.tallest, fieldNode_height]
  | cons c' rest ih =>
    rw [List.map_cons, Node.tallest, fieldNode_height, ih]
    rfl

theorem locationNode_height (l : Location) : (valueNode (.location l)).height = 2 := by
  rw [valueNode, Node.height, locationFields, List.append_assoc, List.append_assoc]
  exact congrArg (· + 1) (tallest_fields ..)

theorem claimNode_height (c : Claim) : (claimNode c).height = c.nesting := by
  obtain ⟨label, v⟩ := c
  unfold claimNode labelledNode
  simp only [Node.height, Node.tallest]
  rcases v.plain_or_location with hv | ⟨l, rfl⟩
  · rw [valueNode_plain hv, plainNode_height]
    cases v <;> first | rfl | cases hv
  · rw [locationNode_height]
    rfl

theorem tallest_claims (cs : List Claim) : Node.tallest (cs.map claimNode) = Claim.deepest cs := by
  induction cs with
  | nil => rfl
  | cons c cs ih =>
    rw [List.map_cons, Node.tallest, claimNode_height, ih]
    rfl

mutual

theorem entryNode_height : ∀ e : Entry, (entryNode e).height + 1 = e.nesting
  | .submodule name claims entries => by
    have hs := sectionNodes_tallest entries
    have hc := tallest_claims claims
    rw [entryNode, Entry.nesting]
    simp only [Node.height, Node.tallest, Node.tallest_append]
    omega
  | .token t => by
    rw [entryNode, Entry.nesting]
    rfl

theorem sectionNodes_tallest : ∀ es : List Entry, Node.tallest (sectionNodes es) = Entry.mostNesting es
  | [] => by
    rw [sectionNodes]
    rfl
  | first :: rest => by
    have hfirst := entryNode_height first
    have hrest := entryNodes_tallest rest
    rw [sectionNodes, Entry.mostNesting]
    simp only [Node.height, Node.tallest]
    omega

theorem entryNodes_tallest : ∀ es : List Entry, Node.tallest (entryNodes es) = Entry.mostNesting es - 1
  | [] => by
    rw [entryNodes]
    rfl
  | first :: rest => by
    have hfirst := entryNode_height first
    have hrest := entryNodes_tallest rest
    rw [entryNodes, Entry.mostNesting, Node.tallest]
    omega

end

theorem tokenNode_height (m : ClaimSet) : (tokenNode m).height = m.nesting := by
  rw [tokenNode, Node.height, Node.tallest_append, tallest_claims, sectionNodes_tallest, ClaimSet.nesting,
    Nat.add_comm]

/-! ## Claims read from their trees -/

theorem plainValue_plainNode {v : Value} (h : v.ownLabel? = none) : (plainNode v).plainValue = .ok v := by
  unfold plainNode Node.plainValue
  cases v with
  | int v => simp [decodeSigned_encodeSigned, Functor.map, Except.map]
  | uint v => simp [decodeUnsigned_encodeUnsigned, Functor.map, Except.map]
  | double v => simp [decodeDouble_encodeDouble, Functor.map, Except.map]
  | text v => simp [decodeText_utf8, Functor.map, Except.map]
  | bytes v => rfl
  | bool v => cases v <;> rfl
  | null => rfl
  | location l => cases h

theorem value_plainNode (label : Label) {v : Value} (h : v.ownLabel? = none) :
    Node.value label (plainNode v) = .ok v := by
  rw [← plainValue_plainNode h]
  cases v <;> rfl

theorem claim_labelledNode (label : Label) {node : Node} {v : Value} (h : Node.value label node = .ok v) :
    Node.claim (labelledNode label node) = .ok ⟨label, v⟩ := by
  unfold labelledNode Node.claim
  simp only [Node.data, ite_true, pure_eq_ok, ok_bind, decodeSigned_encodeSigned, h]

theorem addFields_field {p p' : PartialLocation} {c : Claim} (hplain : c.value.ownLabel? = none)
    (hhas : p.has? c.label = some false) (hput : p.put? c.label c.value = some p') (rest : List Node) :
    Node.addFields p (fieldNode c :: rest) = Node.addFields p' rest := by
  have hclaim : Node.claim (fieldNode c) = .ok c := claim_labelledNode _ (value_plainNode _ hplain)
  rw [Node.addFields, hclaim, ok_bind]
  simp only [PartialLocation.addField, hhas, hput, pure_eq_ok, ok_bind]

theorem addFields_optional {β : Type} (field : β → Claim) (put : Option β → PartialLocation) (v? : Option β)
    (rest : List Node) (hplain : ∀ v, (field v).value.ownLabel? = none)
    (hhas : ∀ v, (put none).has? (field v).label = some false)
    (hput : ∀ v, (put none).put? (field v).label (field v).value = some (put (some v))) :
    Node.addFields (put none) ((v?.map field).toList.map fieldNode ++ rest) = Node.addFields (put v?) rest := by
  cases v? with
  | none => rfl
  | some v => exact addFields_field (hplain v) (hhas v) (hput v) rest

theorem addFields_location (l : Location) : Node.addFields {} ((locationFields l).map fieldNode) = .ok
    { latitude := l.latitude, longitude := l.longitude, altitude := l.altitude, accuracy := l.accuracy,
      altitudeAccuracy := l.altitudeAccuracy, heading := l.heading, speed := l.speed, timestamp := l.timestamp,
      age := l.age } := by
  let p : PartialLocation := { latitude := l.latitude, longitude := l.longitude }
  let q : PartialLocation :=
    { p with
      altitude := l.altitude, accuracy := l.accuracy, altitudeAccuracy := l.altitudeAccuracy, heading := l.heading,
      speed := l.speed }
  simp only [locationFields_eq, List.map_cons, List.map_append, List.map_nil]
  -- one field after the other; what has been read so far is the location without those that follow
  rw [addFields_field rfl rfl rfl, addFields_field rfl rfl rfl]
  refine (addFields_optional _ (fun v => { p with altitude := v }) l.altitude _ ?_ ?_ ?_).trans ?_
  any_goals exact fun _ => rfl
  refine (addFields_optional _ (fun v => { p with altitude := l.altitude, accuracy := v }) l.accuracy
    _ ?_ ?_ ?_).trans ?_
  any_goals exact fun _ => rfl
  refine (addFields_optional _ (fun v => { q with altitudeAccuracy := v, heading := none, speed := none })
    l.altitudeAccuracy _ ?_ ?_ ?_).trans ?_
  any_goals exact fun _ => rfl
  refine (addFields_optional _ (fun v => { q with heading := v, speed := none }) l.heading _ ?_ ?_ ?_).trans ?_
  any_goals exact fun _ => rfl
  refine (addFields_optional _ (fun v => { q with speed := v }) l.speed _ ?_ ?_ ?_).trans ?_
  any_goals exact fun _ => rfl
  refine (addFields_optional _ (fun v => { q with timestamp := v }) l.timestamp _ ?_ ?_ ?_).trans ?_
  any_goals exact fun _ => rfl
  refine (addFields_optional _ (fun v => { q with timestamp := l.timestamp, age := v }) l.age _ ?_ ?_ ?_).trans ?_
  any_goals exact fun _ => rfl
  rw [Node.addFields]
  rfl

theorem value_valueNode {label : Label} {v : Value} (h : Claim.Placed ⟨label, v⟩) :
    Node.value label (valueNode v) = .ok v := by
  rcases v.plain_or_location with hv | ⟨l, rfl⟩
  · rw [valueNode_plain hv]
    exact value_plainNode label hv
  · have hlabel : label = locationLabel := h _ rfl
    rw [valueNode, Node.value, if_pos hlabel, addFields_location, ok_bind]
    rfl

theorem claim_claimNode {c : Claim} (h : c.Placed) : Node.claim (claimNode c) = .ok c :=
  claim_labelledNode _ (value_valueNode h)

/-! ## Claim sets read from their trees -/

theorem entry_nestedNode (t : NestedToken) :
    Node.entry (nestedNode t) = .ok (.token { t with kind := t.kind.named }) := by
  have hcode : t.kind.code.toNat < UInt32.size := t.kind.code.toNat_lt
  have hint : (Int64.ofNat t.kind.code.toNat).toInt = t.kind.code.toNat := by
    apply Int64.toInt_ofNat_of_lt
    exact Nat.lt_trans hcode (by decide)
  have hok : ¬ (Int64.ofNat t.kind.code.toNat < 0 ∨ UInt32.size ≤ (Int64.ofNat t.kind.code.toNat).toInt) := by
    rw [Int64.lt_iff_toInt_lt, hint, Int64.toInt_zero]
    omega
  have hkind : TokenKind.ofCode (UInt32.ofNat (Int64.ofNat t.kind.code.toNat).toInt.toNat) = t.kind.named := by
    rw [hint, Int.toNat_natCast, UInt32.ofNat_toNat, TokenKind.ofCode_code]
  unfold nestedNode Node.entry
  simp only [Node.data, Node.text, ite_true, pure_eq_ok, ok_bind, decodeSigned_encodeSigned, decodeText_utf8,
    hkind]
  rw [if_neg hok]

theorem body_claims (sectionNode : List Node) {claims : List Claim} (h : ∀ c ∈ claims, c.Placed) :
    Node.body false (claims.map claimNode ++ sectionNode) =
      (fun p => (claims ++ p.1, p.2)) <$> Node.body false sectionNode := by
  induction claims with
  | nil =>
    rw [List.map_nil, List.nil_append]
    cases Node.body false sectionNode <;> rfl
  | cons c claims ih =>
    obtain ⟨hplaced, hrest⟩ := List.forall_mem_cons.mp h
    have hc := claim_claimNode hplaced
    unfold claimNode labelledNode at hc
    rw [List.map_cons, List.cons_append, claimNode, labelledNode, Node.body]
    simp only [Bool.false_eq_true, ite_false, hc, ok_bind, ih hrest]
    cases Node.body false sectionNode <;> rfl

mutual

theorem body_sectionNodes : ∀ {es : List Entry}, Entry.AllPlaced es →
    Node.body false (sectionNodes es) = .ok ([], Entry.allNamed es)
  | [], _ => by
    rw [sectionNodes, Node.body, Entry.allNamed]
    rfl
  | first :: rest, h => by
    rw [sectionNodes, Node.body, Node.entries, entry_entryNode h.1, ok_bind, entries_entryNodes h.2, ok_bind,
      Node.body, Entry.allNamed]
    simp only [Bool.false_eq_true, ite_false, pure_eq_ok, ok_bind, List.append_nil]

theorem entry_entryNode : ∀ {e : Entry}, e.Placed → Node.entry (entryNode e) = .ok e.named
  | .submodule name claims entries, h => by
    rw [entryNode, Node.entry, Entry.named]
    simp only [Node.text, Node.data, ite_true, pure_eq_ok, ok_bind, decodeText_utf8]
    rw [Node.claimSet, body_claims _ h.1, body_sectionNodes h.2]
    simp only [Functor.map, Except.map, ok_bind, List.append_nil]
    rfl
  | .token t, _ => by
    rw [entryNode, Entry.named]
    exact entry_nestedNode t

theorem entries_entryNodes : ∀ {es : List Entry}, Entry.AllPlaced es →
    Node.entries (entryNodes es) = .ok (Entry.allNamed es)
  | [], _ => by
    rw [entryNodes, Node.entries, Entry.allNamed]
    rfl
  | first :: rest, h => by
    rw [entryNodes, Node.entries, entry_entryNode h.1, ok_bind, entries_entryNodes h.2, Entry.allNamed]
    rfl

end

theorem claimSet_tokenNode {m : ClaimSet} (h : m.Placed) : Node.claimSet (tokenNode m) = .ok m.named := by
  rw [tokenNode, Node.claimSet, body_claims _ h.1, body_sectionNodes h.2]
  simp only [Functor.map, Except.map, ok_bind, List.append_nil]
  rfl

/-- **Reading a token.** The bytes of a claim set's tree are read back, unless they nest too deep. -/
theorem decode_tokenNode {m : ClaimSet} (h : m.Placed) (hsize : (tokenNode m).encode.length < UInt64.size) :
    decode (tokenNode m).encode =
      if m.nesting ≤ maxNesting then .ok m.named else .error (.tooDeep maxNesting) := by
  have hsome : (tokenNode m).encode.isEmpty = false := rfl
  unfold decode
  rw [hsome, Node.parse_encode (tokenNode_proper m) hsize, tokenNode_height]
  by_cases hn : m.nesting ≤ maxNesting
  · rw [if_pos hn, if_pos hn]
    simp only [Bool.false_eq_true, ite_false, ok_bind, ne_eq, not_true_eq_false, claimSet_tokenNode h]
  · rw [if_neg hn, if_neg hn]
    rfl

end ClaimRelay.Binary
