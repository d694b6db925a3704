import ClaimRelay.Binary.Node
import ClaimRelay.Proofs.Binary.Element

/-!
# Trees of elements read back

The bytes of a tree are read back into the tree when it nests no deeper than is allowed, and are refused for
the depth otherwise, wherever in the bytes the deepest branch stands (`parse_encode`).
-/

namespace ClaimRelay.Binary

namespace Node

mutual

def content : Node → List UInt8
  | leaf _ data => data
  | branch _ children => encodeAll children

def encodeAll : List Node → List UInt8
  | [] => []
  | node :: rest => element node.tag node.content ++ encodeAll rest

end

def encode (node : Node) : List UInt8 := element node.tag node.content

def toElement (node : Node) : Element := ⟨node.tag.byte, node.content⟩

mutual

/-- How deep branches nest, the node itself included. -/
def height : Node → Nat
  | leaf _ _ => 0
  | branch _ children => tallest children + 1

def tallest : List Node → Nat
  | [] => 0
  | node :: rest => max node.height (tallest rest)

end

mutual

/-- Whether branches have the tags of branches, and leaves those of leaves. -/
def Proper : Node → Prop
  | leaf tag _ => Tag.ofByte tag.byte = tag ∧ Tag.isConstructed tag.byte = false
  | branch tag children => (Tag.ofByte tag.byte = tag ∧ Tag.isConstructed tag.byte = true) ∧ AllProper children

def AllProper : List Node → Prop
  | [] => True
  | node :: rest => node.Proper ∧ AllProper rest

end

theorem encodeAll_append (xs ys : List Node) : encodeAll (xs ++ ys) = encodeAll xs ++ encodeAll ys := by
  induction xs with
  | nil => rfl
  | cons x xs ih => simp [encodeAll, ih]

theorem tallest_append (xs ys : List Node) : tallest (xs ++ ys) = max (tallest xs) (tallest ys) := by
  induction xs with
  | nil => simp [tallest]
  | cons x xs ih => simp [tallest, ih, Nat.max_assoc]

theorem allProper_append {xs ys : List Node} (hx : AllProper xs) (hy : AllProper ys) : AllProper (xs ++ ys) := by
  induction xs with
  | nil => exact hy
  | cons x xs ih => exact ⟨hx.1, ih hx.2⟩

theorem content_lt_encode (node : Node) : node.content.length < node.encode.length := body_lt_element ..

theorem splitAll_encodeAll {nodes : List Node} (h : (encodeAll nodes).length < UInt64.size) :
    splitAll (encodeAll nodes) = (nodes.map toElement, none) := by
  induction nodes with
  | nil =>
    rw [splitAll]
    rfl
  | cons node rest ih =>
    have hnode := content_lt_encode node
    unfold encode at hnode
    rw [encodeAll, List.length_append] at h
    obtain ⟨d⟩ : Nonempty (ElementOf node.tag.byte node.content node.encode) := elementOf_element _ (by omega)
    have hsplit : splitAll (encodeAll (node :: rest)) = (node.toElement :: _, _) := splitAll_cons d _
    rw [hsplit, ih (by omega)]
    rfl

mutual

theorem ofElement_toElement : ∀ {node : Node} (nesting : Nat), node.Proper → node.content.length < UInt64.size →
    ofElement nesting node.toElement = if node.height ≤ nesting then .ok node else .error (.tooDeep maxNesting)
  | leaf tag data, nesting, hp, _ => by
    unfold ofElement toElement
    simp only [Node.tag, hp.1, hp.2, height, content, Nat.zero_le, Bool.false_eq_true, ite_true, ite_false]
    rfl
  | branch tag children, 0, hp, _ => by
    unfold ofElement toElement
    simp only [Node.tag, hp.1.2, height, ite_true]
    rfl
  | branch tag children, nesting + 1, hp, h => by
    have hsplit : splitAll (branch tag children).content = (children.map toElement, none) := splitAll_encodeAll h
    unfold ofElement toElement
    simp only [Node.tag, hp.1.1, hp.1.2, height, ite_true, hsplit, Nat.add_le_add_iff_right]
    rw [mapM_toElement nesting hp.2 h]
    split <;> rfl

theorem mapM_toElement : ∀ {nodes : List Node} (nesting : Nat), AllProper nodes →
    (encodeAll nodes).length < UInt64.size →
    (nodes.map toElement).mapM (ofElement nesting) =
      if tallest nodes ≤ nesting then .ok nodes else .error (.tooDeep maxNesting)
  | [], nesting, _, _ => by
    rw [tallest, if_pos (Nat.zero_le _)]
    rfl
  | node :: rest, nesting, hp, h => by
    have hnode := content_lt_encode node
    rw [encodeAll, List.length_append] at h
    unfold encode at hnode
    rw [List.map_cons, List.mapM_cons, ofElement_toElement nesting hp.1 (by omega), tallest]
    by_cases hfirst : node.height ≤ nesting
    · rw [if_pos hfirst, mapM_toElement nesting hp.2 (by omega)]
      simp only [Nat.max_le, hfirst, true_and]
      split <;> rfl
    · rw [if_neg hfirst, if_neg fun hmax => hfirst (Nat.le_trans (Nat.le_max_left ..) hmax)]
      rfl

end

theorem parse_encode {node : Node} (hp : node.Proper) (h : node.encode.length < UInt64.size) :
    parse node.encode =
      if node.height ≤ maxNesting then .ok (node, []) else .error (.tooDeep maxNesting) := by
  have hcontent := Nat.lt_trans (content_lt_encode node) h
  have hsplit : splitElement node.encode = .ok (node.toElement, []) := by
    have := splitElement_element node.tag hcontent []
    rwa [List.append_nil] at this
  unfold parse
  rw [hsplit, ok_bind]
  simp only [ofElement_toElement maxNesting hp hcontent]
  by_cases hh : node.height ≤ maxNesting
  · rw [if_pos hh, if_pos hh]
    rfl
  · rw [if_neg hh, if_neg hh]
    rfl

end Node

end ClaimRelay.Binary
