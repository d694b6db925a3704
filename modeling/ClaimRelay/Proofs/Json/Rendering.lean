import ClaimRelay.Proofs.Json.Following
import ClaimRelay.Proofs.Json.Grammar
import ClaimRelay.Proofs.Json.Shown

/-!
# What is rendered as JSON

A claim set is rendered exactly when it nests within the limit and repeats no label and no name at a level. What
comes out is the text of its value, which is one object without a key twice.
-/

namespace ClaimRelay

namespace Json

/-! ## Values whose objects have no key twice -/

mutual

def WellKeyed : Json → Prop
  | .object fields => (fields.map Prod.fst).Nodup ∧ AllWellKeyed fields
  | _ => True

def AllWellKeyed : List (String × Json) → Prop
  | [] => True
  | (_, v) :: rest => v.WellKeyed ∧ AllWellKeyed rest

end

theorem allWellKeyed_iff {fields : List (String × Json)} :
    AllWellKeyed fields ↔ ∀ field ∈ fields, field.2.WellKeyed := by
  induction fields with
  | nil => exact iff_of_true trivial (List.forall_mem_nil _)
  | cons field rest ih => rw [AllWellKeyed, ih, List.forall_mem_cons]

theorem wellKeyed_ofDouble (x : Double) : (ofDouble x).WellKeyed := by
  unfold ofDouble
  split <;> trivial

/-- The names of the fields of a location, in the order in which they come. -/
def locationKeys : List String :=
  ["latitude", "longitude", "altitude", "accuracy", "altitude_accuracy", "heading", "speed", "timestamp", "age"]

theorem optional_keys {α : Type} (name : String) (f : α → Json) (field : Option α) :
    (((field.map fun v => (name, f v)).toList).map Prod.fst).Sublist [name] := by
  cases field with
  | none => exact List.nil_sublist _
  | some v => exact List.Sublist.refl _

theorem optional_wellKeyed {α : Type} {name : String} {f : α → Json} (hf : ∀ v, (f v).WellKeyed) (field : Option α) :
    ∀ entry ∈ (field.map fun v => (name, f v)).toList, entry.2.WellKeyed := by
  cases field with
  | none => exact List.forall_mem_nil _
  | some v => exact List.forall_mem_singleton.mpr (hf v)

theorem wellKeyed_ofLocation (loc : Location) : (ofLocation loc).WellKeyed := by
  unfold ofLocation WellKeyed
  refine ⟨List.Nodup.sublist ?_ (show locationKeys.Nodup by decide), ?_⟩
  · -- the keys that are there are some of the nine, in their order
    simp only [List.map_append]
    exact (((((((List.Sublist.refl _).append (optional_keys ..)).append (optional_keys ..)).append
      (optional_keys ..)).append (optional_keys ..)).append (optional_keys ..)).append (optional_keys ..)).append
      (optional_keys ..)
  · have hd := wellKeyed_ofDouble
    have hint (v : Int64) : (int v.toInt).WellKeyed := trivial
    have hnat (v : UInt64) : (int v.toNat).WellKeyed := trivial
    simp only [allWellKeyed_iff, List.forall_mem_append]
    refine ⟨⟨⟨⟨⟨⟨⟨?_, optional_wellKeyed hd _⟩, optional_wellKeyed hd _⟩, optional_wellKeyed hd _⟩,
      optional_wellKeyed hd _⟩, optional_wellKeyed hd _⟩, optional_wellKeyed hint _⟩, optional_wellKeyed hnat _⟩
    exact List.forall_mem_cons.mpr ⟨hd _, List.forall_mem_singleton.mpr (hd _)⟩

theorem wellKeyed_ofValue (v : Value) : (ofValue v).WellKeyed := by
  cases v with
  | double x => exact wellKeyed_ofDouble x
  | location loc => exact wellKeyed_ofLocation loc
  | _ => trivial

end Json

theorem Claim.wellKeyed_fields (cs : List Claim) : Json.AllWellKeyed (cs.map Claim.field) := by
  rw [Json.allWellKeyed_iff, List.forall_mem_map]
  exact fun c _ => Json.wellKeyed_ofValue c.value

theorem ClaimSet.keys_nodup {m : ClaimSet} (h : (m.claims.map Claim.label).Nodup) : (m.fields.map Prod.fst).Nodup := by
  obtain ⟨cs, es⟩ := m
  have hkeys : (cs.map Claim.field).map Prod.fst = cs.map Claim.key := by
    rw [List.map_map]
    rfl
  rw [ClaimSet.fields, List.map_append, hkeys]
  have hclaims := Claim.keys_nodup.mpr h
  cases es with
  | nil => simpa [Entry.sectionFields] using hclaims
  | cons first rest =>
    refine Json.TextWriter.nodup_concat.mpr ⟨hclaims, fun hmem => ?_⟩
    obtain ⟨c, -, hc⟩ := List.mem_map.mp hmem
    exact c.key_ne_entriesKey hc

theorem ClaimSet.wellKeyed {cs : List Claim} {es : List Entry} (hc : (cs.map Claim.label).Nodup)
    (hn : (es.map Entry.name).Nodup) (he : Json.AllWellKeyed (Entry.fields es)) :
    (ClaimSet.json ⟨cs, es⟩).WellKeyed := by
  refine ⟨ClaimSet.keys_nodup hc, ?_⟩
  rw [ClaimSet.fields, Json.allWellKeyed_iff, List.forall_mem_append]
  refine ⟨Json.allWellKeyed_iff.mp (Claim.wellKeyed_fields cs), ?_⟩
  cases es with
  | nil => exact List.forall_mem_nil _
  | cons first rest =>
    refine List.forall_mem_singleton.mpr ⟨?_, he⟩
    rw [← Entry.fields, Entry.fields_eq_map, List.map_map]
    exact hn

mutual

theorem Entry.wellKeyed : ∀ e : Entry, e.Distinct → e.json.WellKeyed
  | .submodule _ _ es, h => ClaimSet.wellKeyed h.1 h.2.1 (Entry.wellKeyed_fields es h.2.2)
  | .token _, _ => ⟨by simp, trivial, trivial, trivial⟩

theorem Entry.wellKeyed_fields : ∀ es : List Entry, Entry.AllDistinct es → Json.AllWellKeyed (Entry.fields es)
  | [], _ => trivial
  | e :: rest, h => ⟨Entry.wellKeyed e h.1, Entry.wellKeyed_fields rest h.2⟩

end

theorem ClaimSet.Distinct.wellKeyed {m : ClaimSet} (h : m.Distinct) : m.json.WellKeyed :=
  ClaimSet.wellKeyed h.1 h.2.1 (Entry.wellKeyed_fields m.entries h.2.2)

namespace Json

/-! ## Text that is well formed -/

/-- Layouts that put nothing but whitespace between the parts of a value. -/
def Layout.Spaces : Layout → Prop
  | .compact => True
  | .indented unit => Grammar.Space unit

variable {l : Layout}

theorem margin_space (hl : l.Spaces) (depth : Nat) : Grammar.Space (l.margin depth) := by
  cases l with
  | compact => exact List.forall_mem_nil _
  | indented unit =>
    refine List.forall_mem_cons.mpr ⟨by simp, fun c hc => ?_⟩
    obtain ⟨copy, hcopy, hc⟩ := List.mem_flatten.mp hc
    rw [List.eq_of_mem_replicate hcopy] at hc
    exact hl c hc

theorem trail_space (hl : l.Spaces) (depth : Nat) (hasField : Bool) : Grammar.Space (trail l depth hasField) := by
  unfold trail
  split
  · exact margin_space hl depth
  · exact List.forall_mem_nil _

theorem colon_eq (l : Layout) : ∃ gap, l.colon = ':' :: gap ∧ Grammar.Space gap := by
  cases l with
  | compact => exact ⟨[], rfl, List.forall_mem_nil _⟩
  | indented unit => exact ⟨[' '], rfl, by simp [Grammar.Space]⟩

theorem field_text (hl : l.Spaces) (depth : Nat) (key : String) {value trailing : List Char}
    (hv : Grammar.Value value) (ht : Grammar.Space trailing) :
    Grammar.Field key (l.margin depth ++ scalarText (.string key) ++ l.colon ++ value ++ trailing) := by
  obtain ⟨cs, htext, hkey⟩ := Grammar.value_string key
  obtain ⟨gap, hcolon, hgap⟩ := colon_eq l
  have hnone : Grammar.Space [] := List.forall_mem_nil _
  have hstring : scalarText (.string key) = '"' :: cs ++ ['"'] := htext
  rw [hstring, hcolon]
  simpa using Grammar.Field.of (margin_space hl depth) hkey hnone hgap hv ht

theorem object_of_fields {fields : List (String × Json)} {depth : Nat} (hn : (fields.map Prod.fst).Nodup)
    (h : fields ≠ [] → ∃ body, fieldsText l (depth + 1) true fields ++ trail l depth true = body ∧
      Grammar.Fields (fields.map Prod.fst) body) :
    Grammar.Object (fields.map Prod.fst) (text l depth (.object fields)) := by
  rw [text]
  cases fields with
  | nil =>
    have hnone : Grammar.Space [] := List.forall_mem_nil _
    exact .empty hnone
  | cons field rest =>
    obtain ⟨body, hbody, hfields⟩ := h (List.cons_ne_nil _ _)
    rw [List.isEmpty_cons, Bool.not_false, hbody]
    exact .fields hfields hn

mutual

theorem value_text (hl : l.Spaces) : ∀ (v : Json) (depth : Nat), v.WellKeyed → Grammar.Value (text l depth v)
  | .object fields, depth, h => by
    have hfields (hne : fields ≠ []) := fields_text hl fields (depth + 1) true _ hne h.2 (trail_space hl depth true)
    exact .object (object_of_fields h.1 hfields)
  | .null, _, _ => .null
  | .bool true, _, _ => .true
  | .bool false, _, _ => .false
  | .int v, _, _ => Grammar.value_int v
  | .double v, _, _ => Grammar.value_double v
  | .string v, depth, _ => by
    obtain ⟨cs, htext, hv⟩ := Grammar.value_string v
    have hstring : text l depth (.string v) = '"' :: cs ++ ['"'] := htext
    rw [hstring]
    exact .string hv

theorem fields_text (hl : l.Spaces) : ∀ (fields : List (String × Json)) (depth : Nat) (first : Bool)
    (trailing : List Char), fields ≠ [] → AllWellKeyed fields → Grammar.Space trailing →
    ∃ body, fieldsText l depth first fields ++ trailing = (if first then [] else [',']) ++ body ∧
      Grammar.Fields (fields.map Prod.fst) body
  | [], _, _, _, hne, _, _ => absurd rfl hne
  | (key, v) :: rest, depth, first, trailing, _, h, ht => by
    have hv := value_text hl v depth h.1
    have hrest := fields_text hl rest depth false trailing
    by_cases hne : rest = []
    · subst hne
      refine ⟨_, ?_, .last (field_text hl depth key hv ht)⟩
      simp [fieldsText, keyText]
    · obtain ⟨body, hbody, hfields⟩ := hrest hne h.2 ht
      have hnone : Grammar.Space [] := List.forall_mem_nil _
      refine ⟨_, ?_, .cons (field_text hl depth key hv hnone) hfields⟩
      simp only [fieldsText, List.append_assoc, hbody]
      simp [keyText]

end

theorem object_text (hl : l.Spaces) {fields : List (String × Json)} (h : (Json.object fields).WellKeyed)
    (depth : Nat) : Grammar.Object (fields.map Prod.fst) (text l depth (.object fields)) := by
  have hfields (hne : fields ≠ []) := fields_text hl fields (depth + 1) true _ hne h.2 (trail_space hl depth true)
  exact object_of_fields h.1 hfields

/-! ## Rendering -/

theorem render_eq (l : Layout) (limit : Nat) (m : ClaimSet) : render l limit Cursor.reader { root := m } =
    match m.items.findSome? (TextWriter.reasons.fault limit) with
    | none => .ok (document l m.json)
    | some e => .error e := by
  have hserves : Cursor.reader.Serves m { root := m } _ := Cursor.serves (Cursor.stands_start m) (Nat.zero_le _)
  exact (TextWriter.renderer_follows l).render rfl hserves (Nat.le_refl _) limit

/-- **JSON rendering.** The items of a claim set are in the order of a walk. -/
theorem render_serializes (l : Layout) (limit : Nat) (m : ClaimSet) :
    ((∃ bytes, render l limit Cursor.reader { root := m } = .ok bytes) ↔ m.depth ≤ limit ∧ m.Distinct) ∧
    (∀ bytes, render l limit Cursor.reader { root := m } = .ok bytes →
      ∃ fields, (∀ shown, m.ShowsAs shown ↔ shown = .object fields) ∧
        bytes = document l (.object fields) ∧
        (TextWriter.putValue (.object fields) (TextWriter.ofLayout l)).2.out = .growable bytes ∧
        (l.Spaces → Grammar.Object (fields.map Prod.fst) (text l 0 (.object fields)))) ∧
    ∀ e, render l limit Cursor.reader { root := m } = .error e →
      m.items.findSome? (TextWriter.reasons.fault limit) = some e := by
  have hfaultless : m.items.findSome? (TextWriter.reasons.fault limit) = none ↔ m.depth ≤ limit ∧ m.Distinct := by
    rw [Writer.Reasons.items_faultless, TextWriter.allows_iff]
  rw [render_eq, ← hfaultless]
  cases hfault : m.items.findSome? (TextWriter.reasons.fault limit) with
  | none =>
    refine ⟨⟨fun _ => rfl, fun _ => ⟨_, rfl⟩⟩, ?_, nofun⟩
    intro bytes hbytes
    cases hbytes
    have hm := (hfaultless.mp hfault).2
    exact ⟨m.fields, fun _ => ClaimSet.showsAs_iff, rfl, TextWriter.putValue_document l m.json,
      fun hl => object_text hl hm.wellKeyed 0⟩
  | some e =>
    refine ⟨iff_of_false (fun h => ?_) nofun, nofun, ?_⟩
    · obtain ⟨_, h⟩ := h
      cases h
    · intro e' he'
      cases he'
      rfl

/-- Values of every kind, a submodule without content, and a nested token. -/
def sample : ClaimSet where
  claims := [⟨-2, .text "a\"b"⟩, ⟨1, .int (-7)⟩, ⟨2, .uint 0xffffffffffffffff⟩, ⟨3, .bytes [0xfb, 0xff, 0x01, 0x02]⟩,
    ⟨4, .bool true⟩, ⟨5, .null⟩, ⟨6, .double ⟨0xbfe0000000000000⟩⟩, ⟨7, .double ⟨0x7ff0000000000000⟩⟩,
    ⟨264, .location
      { latitude := ⟨0x4049000000000000⟩, longitude := ⟨0x7ff8000000000000⟩, speed := some ⟨0x3ff8000000000000⟩,
        age := some 3 }⟩]
  entries := [.submodule "s" [] [], .token ⟨.json, "t", [0xff]⟩]

theorem render_serializes_sample : ∃ bytes, render .pretty 1 Cursor.reader { root := sample } = .ok bytes ∧
    bytes = Text.utf8 ("\n".intercalate [
      "\x7b",
      "  \"-2\": \"a\\\"b\",",
      "  \"1\": -7,",
      "  \"2\": 18446744073709551615,",
      "  \"3\": \"-_8BAg\",",
      "  \"4\": true,",
      "  \"5\": null,",
      "  \"6\": -0.5,",
      "  \"7\": null,",
      "  \"264\": \x7b",
      "    \"latitude\": 50.0,",
      "    \"longitude\": null,",
      "    \"speed\": 1.5,",
      "    \"age\": 3",
      "  \x7d,",
      "  \"submods\": \x7b",
      "    \"s\": \x7b\x7d,",
      "    \"t\": \x7b",
      "      \"kind\": 2,",
      "      \"token\": \"_w\"",
      "    \x7d",
      "  \x7d",
      "\x7d"]) ∧
    Grammar.Object ["-2", "1", "2", "3", "4", "5", "6", "7", "264", "submods"] (text .pretty 0 sample.json) := by
  obtain ⟨hok, hbytes, -⟩ := render_serializes .pretty 1 sample
  obtain ⟨bytes, h⟩ := hok.mpr (by decide)
  obtain ⟨fields, hshown, hdocument, -, hobject⟩ := hbytes bytes h
  obtain rfl : sample.fields = fields := Json.object.inj ((hshown sample.json).mp (ClaimSet.showsAs_iff.mpr rfl))
  have hspaces : Layout.pretty.Spaces := by
    intro c hc
    simp_all
  exact ⟨bytes, h, hdocument.trans (by decide +kernel), hobject hspaces⟩

end Json

end ClaimRelay
