import ClaimRelay.Proofs.Json.Keys

/-!
# The document of a claim set

A claim set as a JSON value, and the text of a value by recursion on it: what a serializer with the layout writes.
The writer never has the value as a whole; where it does put one, it puts its text.
-/

namespace ClaimRelay

/-! ## Values -/

def Claim.field (c : Claim) : String × Json := (c.key, .ofValue c.value)

mutual

def Entry.json : Entry → Json
  | .submodule _ claims entries => .object (claims.map Claim.field ++ Entry.sectionFields entries)
  | .token t => .object [("kind", .int t.kind.code.toNat), ("token", .ofBytes t.bytes)]

def Entry.sectionFields : List Entry → List (String × Json)
  | [] => []
  | first :: rest => [(Json.entriesKey, .object ((first.name, first.json) :: Entry.fields rest))]

def Entry.fields : List Entry → List (String × Json)
  | [] => []
  | e :: rest => (e.name, e.json) :: Entry.fields rest

end

namespace ClaimSet

def fields (m : ClaimSet) : List (String × Json) := m.claims.map Claim.field ++ Entry.sectionFields m.entries

def json (m : ClaimSet) : Json := .object m.fields

end ClaimSet

theorem Entry.fields_eq_map (es : List Entry) : Entry.fields es = es.map fun e => (e.name, e.json) := by
  induction es with
  | nil => rfl
  | cons e es ih => rw [Entry.fields, ih, List.map_cons]

namespace Json

/-! ## Text -/

namespace Layout

def lineBreak (unit : List Char) (depth : Nat) : List Char := '\n' :: (List.replicate depth unit).flatten

/-- Where a line is begun, with as many objects around it as `depth`. -/
def margin (depth : Nat) : Layout → List Char
  | compact => []
  | indented unit => lineBreak unit depth

def colon : Layout → List Char
  | compact => [':']
  | indented _ => [':', ' ']

end Layout

def scalarText (v : Json) : List Char := v.scalarPieces.flatten

def keyText (l : Layout) (depth : Nat) (first : Bool) (key : String) : List Char :=
  (if first then [] else [',']) ++ l.margin depth ++ scalarText (.string key) ++ l.colon

/-- What stands before the end of an object. -/
def trail (l : Layout) (depth : Nat) (hasField : Bool) : List Char := if hasField then l.margin depth else []

mutual

def text (l : Layout) (depth : Nat) : Json → List Char
  | .object fields =>
    '\x7b' :: (fieldsText l (depth + 1) true fields ++ trail l depth (!fields.isEmpty) ++ ['\x7d'])
  | v => scalarText v

def fieldsText (l : Layout) (depth : Nat) (first : Bool) : List (String × Json) → List Char
  | [] => []
  | (key, v) :: rest => keyText l depth first key ++ text l depth v ++ fieldsText l depth false rest

end

theorem fieldsText_append (l : Layout) (depth : Nat) (first : Bool) (xs ys : List (String × Json)) :
    fieldsText l depth first (xs ++ ys) =
      fieldsText l depth first xs ++ fieldsText l depth (first && xs.isEmpty) ys := by
  induction xs generalizing first with
  | nil => simp [fieldsText]
  | cons x xs ih => simp [fieldsText, ih]

def document (l : Layout) (v : Json) : List UInt8 := Text.utf8 (String.ofList (text l 0 v))

/-! ## Putting a value -/

namespace TextWriter

def holding (f : Format) (written : List Char) (frames : List Frame) (submodules : Nat) : TextWriter :=
  ⟨f, .growable (Text.utf8 (String.ofList written)), frames, submodules⟩

@[simp] theorem holding_submodules (f : Format) (written : List Char) (frames : List Frame) (n : Nat) :
    (holding f written frames n).submodules = n := rfl

@[simp] theorem holding_frames (f : Format) (written : List Char) (frames : List Frame) (n : Nat) :
    (holding f written frames n).frames = frames := rfl

/-- A step that writes a text, whatever is written already, and takes the format from `f` to `g`. -/
def Adds (x : Step TextWriter Unit) (f : Format) (piece : List Char) (g : Format) : Prop :=
  ∀ written frames n, x (holding f written frames n) = (.ok (), holding g (written ++ piece) frames n)

namespace Adds

variable {x y : Step TextWriter Unit} {f g h : Format} {p q : List Char}

theorem bind (hx : Adds x f p g) (hy : Adds y g q h) : Adds (do x; y) f (p ++ q) h := by
  intro written frames n
  rw [Step.bind_of_ok (hx ..), hy, List.append_assoc]

theorem look {k : TextWriter → Step TextWriter Unit} (hk : ∀ written frames n, k (holding f written frames n) = y)
    (hy : Adds y f p g) : Adds (get >>= k) f p g := by
  intro written frames n
  rw [Step.bind_of_ok (Step.get_apply _), hk]
  exact hy ..

theorem nothing : Adds (pure ()) f [] f := by
  intro written frames n
  rw [List.append_nil]
  rfl

theorem reformat (change : Format → Format) : Adds (reformat change) f [] (change f) := by
  intro written frames n
  rw [List.append_nil]
  rfl

end Adds

variable {f : Format}

theorem put_adds (part : Part) (piece : List Char) : Adds (put part piece) f piece f := by
  intro written frames n
  simp [put, Step.update, holding, Buffer.append, Buffer.grow, Text.utf8, pure, Except.pure]

theorem putCopies_adds (piece : List Char) (count : Nat) :
    Adds (putCopies piece count) f (List.replicate count piece).flatten f := by
  induction count with
  | zero => exact .nothing
  | succ count ih => exact (put_adds .mark piece).bind ih

theorem putScalar_adds (v : Json) : Adds (putScalar v) f (scalarText v) f := by
  unfold putScalar scalarText
  induction v.scalarPieces with
  | nil => exact .nothing
  | cons piece rest ih => exact (put_adds .scalar piece).bind ih

theorem putIndented_adds (mark unit : List Char) :
    Adds (putIndented mark unit) f (mark ++ (List.replicate f.depth unit).flatten) f :=
  (put_adds .mark mark).bind (.look (fun _ _ _ => rfl) (putCopies_adds unit f.depth))

theorem beginObject_adds : Adds beginObject f ['\x7b'] f.objectBegun :=
  (Adds.reformat .objectBegun).bind (put_adds .mark ['\x7b'])

theorem countEnded_adds (l : Layout) (depth : Nat) (hasField : Bool) :
    Adds countEnded ⟨l, depth + 1, hasField⟩ [] ⟨l, depth, hasField⟩ := by
  intro written frames n
  rw [List.append_nil]
  exact countEnded_of_some (Format.objectEnded?_succ l depth hasField)

/-- With an object begun, which the end of it takes off the count. -/
theorem endObject_adds (l : Layout) (depth : Nat) (hasField : Bool) :
    Adds endObject ⟨l, depth + 1, hasField⟩ (trail l depth hasField ++ ['\x7d']) ⟨l, depth, hasField⟩ := by
  have hmark := put_adds (f := ⟨l, depth, hasField⟩) .mark ['\x7d']
  refine (countEnded_adds l depth hasField).bind ?_
  cases hasField with
  | false => cases l <;> exact .look (fun _ _ _ => rfl) (Adds.nothing.bind hmark)
  | true =>
    cases l with
    | compact => exact .look (fun _ _ _ => rfl) (Adds.nothing.bind hmark)
    | indented unit => exact .look (fun _ _ _ => rfl) ((putIndented_adds ['\n'] unit).bind hmark)

theorem beginField_adds (first : Bool) (key : String) :
    Adds (beginField first key) f (keyText f.layout f.depth first key) f := by
  obtain ⟨l, depth, hasField⟩ := f
  simp only [keyText, List.append_assoc]
  cases l with
  | compact =>
    have hrest := (putScalar_adds (f := ⟨.compact, depth, hasField⟩) (.string key)).bind (put_adds .mark [':'])
    cases first with
    | true => exact .look (fun _ _ _ => rfl) (Adds.nothing.bind hrest)
    | false => exact .look (fun _ _ _ => rfl) ((put_adds .mark [',']).bind hrest)
  | indented unit =>
    have hrest := (putScalar_adds (f := ⟨.indented unit, depth, hasField⟩) (.string key)).bind
      (put_adds .mark [':', ' '])
    cases first with
    | true => exact .look (fun _ _ _ => rfl) ((putIndented_adds ['\n'] unit).bind hrest)
    | false => exact .look (fun _ _ _ => rfl) ((putIndented_adds [',', '\n'] unit).bind hrest)

theorem endField_adds : Adds endField f [] f.fieldEnded := .reformat .fieldEnded

mutual

theorem putValue_adds : ∀ (v : Json) (f : Format),
    ∃ hasField, Adds (putValue v) f (text f.layout f.depth v) { f with hasField }
  | .object fields, f => by
    refine ⟨!fields.isEmpty, ?_⟩
    have hend := endObject_adds f.layout f.depth (!fields.isEmpty)
    have h := beginObject_adds.bind ((putFields_adds true fields f.objectBegun).bind hend)
    simp only [Format.objectBegun, ← List.append_assoc] at h
    exact h
  | .null, f => ⟨f.hasField, putScalar_adds .null⟩
  | .bool b, f => ⟨f.hasField, putScalar_adds (.bool b)⟩
  | .int v, f => ⟨f.hasField, putScalar_adds (.int v)⟩
  | .double v, f => ⟨f.hasField, putScalar_adds (.double v)⟩
  | .string v, f => ⟨f.hasField, putScalar_adds (.string v)⟩

theorem putField_adds (first : Bool) (key : String) (v : Json) (f : Format) :
    Adds (do beginField first key; putValue v; endField) f
      (keyText f.layout f.depth first key ++ text f.layout f.depth v) f.fieldEnded := by
  obtain ⟨b, hv⟩ := putValue_adds v f
  have h := (beginField_adds first key).bind (hv.bind endField_adds)
  rw [List.append_nil] at h
  exact h

theorem putFields_adds (first : Bool) : ∀ (fields : List (String × Json)) (f : Format),
    Adds (putFields first fields) f (fieldsText f.layout f.depth first fields)
      { f with hasField := f.hasField || !fields.isEmpty }
  | [], f => by
    simp only [List.isEmpty_nil, Bool.not_true, Bool.or_false]
    exact .nothing
  | (key, v) :: rest, f => by
    have h := (putField_adds first key v f).bind (putFields_adds false rest f.fieldEnded)
    simp only [bind_assoc] at h
    simp only [List.isEmpty_cons, Bool.not_false, Bool.or_true]
    exact h

end

theorem putValue_document (l : Layout) (v : Json) :
    (putValue v (ofLayout l)).2.out = .growable (document l v) := by
  obtain ⟨b, hv⟩ := putValue_adds v { layout := l }
  have h : putValue v (ofLayout l) = _ := hv [] [] 0
  rw [h]
  rfl

end TextWriter

end Json

end ClaimRelay
